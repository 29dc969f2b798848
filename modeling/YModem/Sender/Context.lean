import Mathlib.Data.List.DropRight
import YModem.Lib.Bytes
import YModem.Lib.Decimal
import YModem.Peer.Block
import YModem.SmartState.Chart

/-!
# The sender's context (`SenderY.h`, `SenderY.cpp`)

`Env` holds what the operating system answers while one event is handled: the clock and
the return values of `myOpen` and `myClose`. A regular file is its path and its bytes;
`unread` is what lies behind the offset of the open file, and `stat` reports the length of
the file. A call checked by `PE` or `PE2` that fails exits the process.
-/

namespace YModem.Sender

open YModem.Lib YModem.Peer YModem.SmartState

structure Env where
  elapsed : Int
  opened : Int
  opened_ge : -1 ≤ opened
  close : Int

private theorem opened_calm : (-1 : Int) ≤ 3 := by decide

/-- The answers of a system in which every call succeeds and descriptor 3 is free. -/
def Env.calm : Env := ⟨0, 3, opened_calm, 0⟩

/-- A regular file: its path, a C string, and its bytes. -/
structure File where
  name : List UInt8
  nul_notMem : 0 ∉ name
  contents : List UInt8
deriving DecidableEq

/-- `path(fileName).filename()`: what follows the last slash. -/
def filename (path : List UInt8) : List UInt8 := path.rtakeWhile (· ≠ 47)

theorem nul_notMem_filename {path : List UInt8} (h : 0 ∉ path) : 0 ∉ filename path :=
  fun hmem => h ((List.rtakeWhile_suffix _ path).subset hmem)

/-- `blkT`: an array of `BLK_SZ_CRC` bytes. -/
abbrev Blk := { bytes : List UInt8 // bytes.length = BLK_SZ_CRC }

namespace Blk

def blank : Blk := ⟨List.replicate BLK_SZ_CRC 0, List.length_replicate⟩

/-- A store into the block, with the bounds check that the code does not make. -/
def store (blkBuf : Blk) (i : Nat) (bs : List UInt8) : Except Fault Blk :=
  if h : i + bs.length ≤ BLK_SZ_CRC then
    .ok ⟨overwrite blkBuf.val i bs, by
      have hl := blkBuf.property
      rw [length_overwrite (by omega), hl]⟩
  else .error .undefinedBehaviour

def chunk (blkBuf : Blk) : List UInt8 := (blkBuf.val.drop DATA_POS).take CHUNK_SZ

/-- `genStatBlk`, with the size that `stat` reports. `snprintf` cuts the digits that do
not fit and returns the number it would have needed. -/
def genStatBlk (blkBuf : Blk) (fileName : List UInt8) (st_size : Nat) : Except Fault Blk := do
  let blkBuf ← blkBuf.store 1 [0]
  let blkBuf ← blkBuf.store 2 [~~~0]
  let (blkBuf, index) ←
    if fileName ≠ [] then do
      let myBasename := filename fileName
      let fileNameLengthPlus1 := myBasename.length + 1
      if fileNameLengthPlus1 + 1 > CHUNK_SZ then
        .error .exited
      else
        let blkBuf ← blkBuf.store DATA_POS (myBasename ++ [0])
        let index := DATA_POS + fileNameLengthPlus1
        let spaceAvailable := CHUNK_SZ + DATA_POS - index
        let digits := decimal st_size
        let blkBuf ← blkBuf.store index (digits.take (spaceAvailable - 1) ++ [0])
        if digits.length > spaceAvailable then
          .error .exited
        else
          .ok (blkBuf, index + (digits.length + 1))
    else .ok (blkBuf, DATA_POS)
  let padSize : UInt8 := UInt8.ofNat (CHUNK_SZ + DATA_POS) - UInt8.ofNat index
  let blkBuf ← blkBuf.store index (List.replicate padSize.toNat 0)
  let blkBuf ← blkBuf.store 0 [SOH]
  blkBuf.store PAST_CHUNK (crc16ns blkBuf.chunk)

/-- What `genBlk` does to its buffer after `myRead` has delivered `bytes`. -/
def genBlk (blkBuf : Blk) (blkNum : UInt8) (bytes : List UInt8) : Except Fault Blk := do
  let blkBuf ← blkBuf.store DATA_POS bytes
  if bytes.length > 0 then
    let blkBuf ← blkBuf.store 0 [SOH]
    let blkBuf ← blkBuf.store 1 [blkNum]
    let blkBuf ← blkBuf.store 2 [~~~blkNum]
    let padSize := UInt8.ofNat (CHUNK_SZ - bytes.length)
    let blkBuf ← blkBuf.store (DATA_POS + bytes.length) (List.replicate padSize.toNat CTRL_Z)
    blkBuf.store PAST_CHUNK (crc16ns blkBuf.chunk)
  else .ok blkBuf

end Blk

structure SenderY extends PeerY where
  bytesRd : Int
  fileName : Option File
  firstBlk : Bool
  fileNames : List File
  fileNameIndex : Nat
  blkBufs : Fin 2 → Blk
  blkNum : UInt8
  unread : List UInt8

/-- The buffer of the block with a given number. -/
def bufOf (blkNum : UInt8) : Fin 2 := ⟨blkNum.toNat % 2, Nat.mod_lt _ (by decide)⟩

namespace SenderY

/-- A freshly constructed `SenderY`; the buffers are not initialised. -/
def init (iFileNames : List File) (blkBufs : Fin 2 → Blk) : SenderY :=
  ⟨PeerY.init, -2, none, false, iFileNames, 0, blkBufs, 0, []⟩

/-- A member function of the base class. -/
@[simps! toPeerY bytesRd fileName firstBlk fileNames fileNameIndex blkBufs blkNum unread]
def peer (s : SenderY) (f : PeerY → PeerY) : SenderY :=
  { s with toPeerY := f s.toPeerY }

@[simps!] def cans (s : SenderY) : SenderY := s.peer (·.log .cans)

@[simps!] def clearCan (s : SenderY) : SenderY := s.peer (·.log .clearCan)

def genBlk (i : Fin 2) (s : SenderY) : Except Fault SenderY :=
  if s.transferringFileD < 0 then .error .exited
  else do
    let bytes := s.unread.take CHUNK_SZ
    let blkBuf ← (s.blkBufs i).genBlk s.blkNum bytes
    return { s with
      bytesRd := bytes.length
      unread := s.unread.drop CHUNK_SZ
      blkBufs := Function.update s.blkBufs i blkBuf }

def genStatBlk (fileName : List UInt8) (st_size : Nat) (s : SenderY) : Except Fault SenderY := do
  let blkBuf ← (s.blkBufs 0).genStatBlk fileName st_size
  return { s with blkBufs := Function.update s.blkBufs 0 blkBuf }

def openFileToTransfer (env : Env) (file : File) (s : SenderY) : SenderY :=
  { s.peer (·.log (.openFile file.name s.transferringFileD env.opened)) with
    transferringFileD := env.opened
    unread := file.contents }

def prepStatBlk (env : Env) (s : SenderY) : Except Fault SenderY :=
  let s := { s with blkNum := 0 }
  match s.fileNames[s.fileNameIndex]? with
  | some file =>
    let s := { s with fileName := some file, fileNameIndex := s.fileNameIndex + 1 }
    let s := s.openFileToTransfer env file
    if s.transferringFileD ≠ -1 then s.genStatBlk file.name file.contents.length else .ok s
  | none => do
    let s ← { s with transferringFileD := -2 }.genStatBlk [] 0
    return { s with fileName := none }

/-- The last byte of the block, which is sent after the next block has been prepared, is
read before that. -/
def sendBlkPrepNext (s : SenderY) : Except Fault SenderY :=
  let s := s.peer (·.log (.sendBlk true (s.blkBufs (bufOf s.blkNum)).val))
  let s := { s with blkNum := s.blkNum + 1 }
  if s.fileName.isSome then s.genBlk (bufOf s.blkNum) else .ok s

@[simps!] def resendBlk (s : SenderY) : SenderY :=
  s.peer (·.log (.sendBlk false (s.blkBufs (bufOf (s.blkNum - 1))).val))

def closeTransferredFile (env : Env) (s : SenderY) : Except Fault SenderY :=
  if s.transferringFileD > -1 then
    if env.close = -1 then .error .exited
    else .ok { s.peer (·.log (.close s.transferringFileD env.close)) with transferringFileD := -1 }
  else .ok s

end SenderY

end YModem.Sender
