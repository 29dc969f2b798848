import YModem.Sender.Context

/-!
# The receiver of Part 2 (`Ensc351Part2/src/ReceiverY.cpp`)

`receiveFiles` is one thread of nested loops that reads from the medium at five places.
`wait` is the read it waits at, and `proceed` is what it does between one read and the next.
The checks of `PE_NOT` exit the process when a read delivers another number of bytes.
-/

namespace YModem.Part2

open YModem.Lib YModem.Peer YModem.SmartState
open YModem.Sender (Blk)

/-- `SOH_OH`, the place of the block number. -/
abbrev SOH_OH : Nat := 1

/-- What `myCreat` and `myClose` return. -/
structure Env where
  creat : Int
  close : Int

/-- One entry of the record of calls of the receiver. -/
inductive Call where
  | sendByte (byte : UInt8)
  | cans
  | creat (name : List UInt8) (fd : Int)
  | write (fd : Int) (data : List UInt8)
  | close (fd rc : Int)
deriving DecidableEq, Repr

/-- The reads of `receiveFiles`. -/
inductive Wait where
  /-- "Should be SOH". -/
  | soh
  /-- In `getRestBlk`, for block 0. -/
  | restOfStat
  /-- In the condition of the inner loop. -/
  | first
  /-- In `getRestBlk`, for a data block. -/
  | restOfBlk
  /-- "presumably read in another EOT". -/
  | anotherEot
  /-- `receiveFiles` has returned. -/
  | returned
deriving DecidableEq, Repr

structure ReceiverY where
  result : String
  transferringFileD : Int
  m_closeProb : Int
  m_anotherFile : UInt8
  m_NCGbyte : UInt8
  m_goodBlk : Bool
  m_goodBlk1st : Bool
  m_syncLoss : Bool
  m_rcvBlk : Blk
  m_numLastGoodBlk : UInt8
  calls : List Call
  wait : Wait

namespace ReceiverY

@[simps] def log (r : ReceiverY) (call : Call) : ReceiverY := { r with calls := r.calls ++ [call] }

@[simps!] def sendByte (r : ReceiverY) (byte : UInt8) : ReceiverY := r.log (.sendByte byte)

@[simps!] def cans (r : ReceiverY) : ReceiverY := r.log .cans

/-- A byte of the block that was received. -/
def byte (r : ReceiverY) (i : Nat) : UInt8 := r.m_rcvBlk.val.getD i 0

/-- The body of `getRestBlk` behind the read. `m_numLastGoodBlk + 1` is an `int`. -/
def judgeBlk (r : ReceiverY) : ReceiverY :=
  let r := { r with m_goodBlk := true, m_goodBlk1st := true }
  let blkNum := r.byte SOH_OH
  let blkNumComplement := r.byte (SOH_OH + 1)
  if blkNum ≠ ~~~blkNumComplement then { r with m_goodBlk := false }
  else if (r.m_rcvBlk.val.drop PAST_CHUNK).take 2 ≠ crc16ns r.m_rcvBlk.chunk then
    { r with m_goodBlk := false }
  else
    let r := { r with m_goodBlk := true }
    let r :=
      if r.m_goodBlk && blkNum.toNat ≠ r.m_numLastGoodBlk.toNat + 1 then { r with m_syncLoss := true }
      else { r with m_syncLoss := false }
    if blkNum.toNat = r.m_numLastGoodBlk.toNat + 1 then
      { r with m_goodBlk1st := true, m_numLastGoodBlk := blkNum }
    else { r with m_goodBlk1st := false }

/-- `getRestBlk`, whose read delivered `rest`. -/
def getRestBlk (rest : List UInt8) (r : ReceiverY) : Except Fault ReceiverY :=
  if rest.length ≠ REST_BLK_SZ_CRC then .error .exited
  else do
    let blk ← r.m_rcvBlk.store 1 rest
    return judgeBlk { r with m_rcvBlk := blk }

def writeChunk (r : ReceiverY) : ReceiverY := r.log (.write r.transferringFileD r.m_rcvBlk.chunk)

/-- `myCreat` reads past the block when there is no NUL behind `DATA_POS`. -/
def openFileForTransfer (env : Env) (r : ReceiverY) : Except Fault ReceiverY :=
  match cString (r.m_rcvBlk.val.drop DATA_POS) with
  | none => .error .undefinedBehaviour
  | some name => .ok { r.log (.creat name env.creat) with transferringFileD := env.creat }

/-- `closeTransferredFile`, and whether it returned an `errno`. -/
def closeTransferredFile (env : Env) (r : ReceiverY) : ReceiverY × Bool :=
  if r.transferringFileD > -1 then
    let r := { r.log (.close r.transferringFileD env.close) with m_closeProb := env.close }
    if r.m_closeProb ≠ 0 then (r, true)
    else ({ r with m_numLastGoodBlk := 255, transferringFileD := -1 }, false)
  else (r, false)

def checkForAnotherFile (r : ReceiverY) : ReceiverY := { r with m_anotherFile := r.byte DATA_POS }

/-- `myRead(mediumD, m_rcvBlk, 1)`. -/
def readFirst (bytes : List UInt8) (r : ReceiverY) : Except Fault ReceiverY :=
  if bytes.length ≠ 1 then .error .exited
  else do
    let blk ← r.m_rcvBlk.store 0 bytes
    return { r with m_rcvBlk := blk }

/-- The head of the outer loop up to its first read. -/
def askForFile (r : ReceiverY) : ReceiverY := { r.sendByte r.m_NCGbyte with wait := .soh }

/-- The outer loop behind its condition. -/
def fileAnnounced (env : Env) (r : ReceiverY) : Except Fault ReceiverY :=
  if r.m_anotherFile ≠ 0 then do
    let r ← r.openFileForTransfer env
    if r.transferringFileD = -1 then
      return { r.cans with result := "CreatError", wait := .returned }
    else
      return { (r.sendByte ACK).sendByte r.m_NCGbyte with wait := .first }
  else
    let r := r.sendByte ACK
    .ok { r with result := (r.result.dropEnd 2).copy, wait := .returned }

/-- The body of the inner loop behind `getRestBlk`. -/
def answerBlk (r : ReceiverY) : ReceiverY :=
  if r.m_goodBlk = false then r.sendByte NAK
  else (r.sendByte ACK).writeChunk

/-- The end of a file, behind the read of the second EOT. -/
def endFile (env : Env) (r : ReceiverY) : ReceiverY :=
  match r.closeTransferredFile env with
  | (r, true) => { r with result := "CloseError" }
  | (r, false) => let r := r.sendByte ACK; { r with result := r.result ++ "Done, " }

/-- A read delivers `bytes`, and `receiveFiles` goes on to the next one. -/
def proceed (env : Env) (bytes : List UInt8) (r : ReceiverY) : Except Fault ReceiverY :=
  match r.wait with
  | .soh => do
    let r ← r.readFirst bytes
    return { r with wait := .restOfStat }
  | .restOfStat => do
    let r ← r.getRestBlk bytes
    r.checkForAnotherFile.fileAnnounced env
  | .first => do
    let r ← r.readFirst bytes
    if r.byte 0 = SOH then return { r with wait := .restOfBlk }
    else return { r.sendByte NAK with wait := .anotherEot }
  | .restOfBlk => do
    let r ← r.getRestBlk bytes
    return { r.answerBlk with wait := .first }
  | .anotherEot => do
    let r ← r.readFirst bytes
    return (r.endFile env).askForFile
  | .returned => .error .notRunning

/-- `receiveFiles` up to its first read, on a freshly constructed `ReceiverY`; the block is not
initialised. -/
def start (m_rcvBlk : Blk) : ReceiverY :=
  askForFile ⟨"", -1, 1, 0xFF, NCG, false, false, false, m_rcvBlk, 0, [], .soh⟩

/-- What `receiveFiles` does with a sequence of reads. -/
def receiveFiles : List (Env × List UInt8) → ReceiverY → Except Fault ReceiverY
  | [], r => .ok r
  | (env, bytes) :: reads, r => do
    let r ← r.proceed env bytes
    receiveFiles reads r

end ReceiverY

end YModem.Part2
