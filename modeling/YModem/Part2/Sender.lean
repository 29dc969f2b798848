import YModem.Sender.Context

/-!
# The sender of Part 2 (`Ensc351Part2/src/SenderY.cpp`)

`sendFiles` reads responses at seven places. `wait` is the read it waits at, and `proceed` is
what it does from there to the next read. `genStatBlk` and `genBlk` are the functions of the
library, and `myClose` is taken to succeed.
-/

namespace YModem.Part2

open YModem.Lib YModem.Peer YModem.SmartState
open YModem.Sender (Blk File)

/-- One entry of the record of a session: a response that was read, or something sent. The
glitches that `dumpGlitches` throws away are no responses. -/
inductive Event where
  | read (byteToReceive : UInt8)
  /-- A block sent by `sendBlkPrepNext`, or the last one of the session. -/
  | first (blk : Blk)
  /-- A block sent by `resendBlk`. -/
  | again (blk : Blk)
  | sendByte (byte : UInt8)
  | cans
deriving DecidableEq

/-- The reads of `sendFiles`, with the comments that stand behind them. -/
inductive Expects where
  /-- "assuming 'C'", before a stat block. -/
  | statC
  /-- "assuming ACK", after a stat block. -/
  | statAck
  /-- "assuming 'C'", before the first data block. -/
  | dataC
  /-- "next line is ACK", and the read behind `resendBlk`. -/
  | dataAck
  /-- "NAK", after the first EOT. -/
  | eotNak
  /-- "ACK", after the second EOT. -/
  | eotAck
  /-- "assuming ACK", after the last stat block. -/
  | lastAck
  /-- `sendFiles` has returned. -/
  | returned
deriving DecidableEq, Repr

/-- The members, what is left of the open file, and the record of the session. `blkBuf` holds
the block that is sent next and `sentBuf`, the code's `blkBufs[1]`, the one sent last. -/
structure SenderY where
  result : String
  errCnt : Nat
  transferringFileD : Int
  bytesRd : Int
  fileName : List UInt8
  fileNames : List (File × Int)
  fileNameIndex : Nat
  blkNum : UInt8
  blkBuf : Blk
  sentBuf : Blk
  unread : List UInt8
  trace : List Event
  wait : Expects

namespace SenderY

@[simps] def log (s : SenderY) (e : Event) : SenderY := { s with trace := s.trace ++ [e] }

/-- `genBlk(blkBuf)`. A failing `myRead` exits. -/
def genBlk (s : SenderY) : Except Fault SenderY :=
  if s.transferringFileD < 0 then .error .exited
  else do
    let bytes := s.unread.take CHUNK_SZ
    let blkBuf ← s.blkBuf.genBlk s.blkNum bytes
    return { s with
      bytesRd := bytes.length
      unread := s.unread.drop CHUNK_SZ
      blkBuf := blkBuf }

/-- `prepStatBlk`, with the descriptor that `myOpen` answers for each file. -/
def prepStatBlk (s : SenderY) : Except Fault SenderY := do
  let s := { s with blkNum := 0 }
  let s ←
    match s.fileNames[s.fileNameIndex]? with
    | some (file, fd) =>
      let s := { s with fileName := file.name, transferringFileD := fd, unread := file.contents }
      if s.transferringFileD ≠ -1 then do
        let blkBuf ← s.blkBuf.genStatBlk s.fileName file.contents.length
        pure { s with blkBuf := blkBuf }
      else pure s
    | none => do
      let blkBuf ← s.blkBuf.genStatBlk [] 0
      pure { s with transferringFileD := -2, blkBuf := blkBuf, fileName := [] }
  return { s with fileNameIndex := s.fileNameIndex + 1 }

def sendBlkPrepNext (s : SenderY) : Except Fault SenderY := do
  let s := { s with blkNum := s.blkNum + 1 }
  let s := { s with sentBuf := s.blkBuf }
  let s ← s.genBlk
  return s.log (.first s.sentBuf)

def resendBlk (s : SenderY) : SenderY := s.log (.again s.sentBuf)

def closeTransferredFile (s : SenderY) : SenderY := { s with transferringFileD := -1 }

/-- The inner loops from the condition on `bytesRd`, and the first EOT behind them. -/
def whileBytesRd (s : SenderY) : Except Fault SenderY :=
  if s.bytesRd ≠ 0 then do
    let s ← s.sendBlkPrepNext
    return { s with errCnt := 0, wait := .dataAck }
  else
    .ok { (s.log (.sendByte EOT)).closeTransferredFile with wait := .eotNak }

/-- The outer loop from its condition, and the last stat block behind it. -/
def whileFileNames (s : SenderY) : SenderY :=
  if s.fileNames.length ≥ s.fileNameIndex then { s with wait := .statC }
  else { s.log (.first s.blkBuf) with wait := .lastAck }

/-- The byte that was read is `byteToReceive`, and `sendFiles` goes on to the next read. -/
def proceed (byteToReceive : UInt8) (s : SenderY) : Except Fault SenderY :=
  let s := s.log (.read byteToReceive)
  match s.wait with
  | .statC => do
    let s := if -1 = s.transferringFileD then { s.log .cans with result := "OpenError" } else s
    let s ← s.sendBlkPrepNext
    return { s with wait := .statAck }
  | .statAck => .ok { s with wait := .dataC }
  | .dataC => s.whileBytesRd
  | .dataAck =>
    if byteToReceive = NAK ∧ s.errCnt < errB then .ok s.resendBlk
    else s.whileBytesRd
  | .eotNak => .ok { s.log (.sendByte EOT) with wait := .eotAck }
  | .eotAck => do
    let s := { s with result := s.result ++ "Done, " }
    let s ← s.prepStatBlk
    return s.whileFileNames
  | .lastAck => .ok { s with result := (s.result.dropEnd 2).copy, wait := .returned }
  | .returned => .error .notRunning

/-- `sendFiles` up to its first read, on a freshly constructed `SenderY`; the blocks are not
initialised. -/
def start (fileNames : List (File × Int)) (blkBuf sentBuf : Blk) : Except Fault SenderY := do
  let s ← prepStatBlk ⟨"", 0, -1, -1, [], fileNames, 0, 0, blkBuf, sentBuf, [], [], .statC⟩
  return s.whileFileNames

end SenderY

theorem nul_notMem_a : 0 ∉ ([97] : List UInt8) := by decide

/-- A file "a". -/
def fileA (contents : List UInt8) : File := ⟨[97], nul_notMem_a, contents⟩

end YModem.Part2
