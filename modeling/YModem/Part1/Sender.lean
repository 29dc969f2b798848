import YModem.Sender.Script

/-!
# The sender of Part 1 (`Ensc351Part1/src/SenderY.cpp`, `PeerY.cpp`)

It has one block, writes each block once and assumes that the receiver acknowledges it.
`crc16ns` calls `htons`, and `genStatBlk` and `genBlk` store the two bytes of its result by
their weight. `updcrc` is the function of the library.
-/

namespace YModem.Part1

open YModem.Lib YModem.Peer YModem.SmartState
open YModem.Sender (Blk File filename)

/-- `htons` of the C library. -/
def htons (h : Host) (n : BitVec 16) : BitVec 16 :=
  match h with
  | .little => (n <<< 8) ||| (n >>> 8)
  | .big => n

/-- The number that `crc16ns` leaves in `myCrc16ns`. -/
def crc16ns (h : Host) (buf : List UInt8) : BitVec 16 := htons h (oldcrc buf)

/-- `myCrc16ns >> 8` and `myCrc16ns & 0xFF`. -/
def crcBytes (h : Host) (buf : List UInt8) : List UInt8 :=
  let myCrc16ns := crc16ns h buf
  [UInt8.ofBitVec ((myCrc16ns >>> 8).setWidth 8), UInt8.ofBitVec ((myCrc16ns &&& 0xFF).setWidth 8)]

/-- What `strncpy` writes: `n` bytes, with zeros behind the text. -/
def strncpy (src : List UInt8) (n : Nat) : List UInt8 :=
  src.take n ++ List.replicate (n - src.length) 0

/-- `genStatBlk`, with the size in `st` and the outcome of the comparison of the two pointers
in `fileName == ""`. The size goes through an `unsigned`. -/
def genStatBlk (h : Host) (blkNum : UInt8) (fileName : List UInt8) (st_size : Nat) (literal : Bool) :
    Except Fault Blk := do
  let fileSize := st_size % UINT_RANGE
  let blkBuf ← Blk.blank.store 0 [SOH]
  let blkBuf ← blkBuf.store 1 [blkNum]
  let blkBuf ← blkBuf.store 2 [~~~blkNum]
  let file_name := filename fileName
  let blkBuf ← blkBuf.store 3 (strncpy file_name (BLK_SZ_CRC - 3))
  let file_name_length := file_name.length
  let blkBuf ← blkBuf.store (3 + file_name_length) [0]
  let blkBuf ← blkBuf.store (file_name_length + 4)
    (strncpy (decimal fileSize) (BLK_SZ_CRC - (file_name_length + 4)))
  let crc := crcBytes h blkBuf.chunk
  if literal then blkBuf.store 3 (List.replicate CHUNK_SZ 0)
  else blkBuf.store (BLK_SZ_CRC - 2) crc

/-- What `genBlk` does to its block after `myRead` has delivered `bytes`. -/
def genBlk (h : Host) (blkBuf : Blk) (blkNum : UInt8) (bytes : List UInt8) : Except Fault Blk := do
  let blkBuf ← blkBuf.store 3 bytes
  let blkBuf ← blkBuf.store 0 [SOH]
  let blkBuf ← blkBuf.store 1 [blkNum]
  let blkBuf ← blkBuf.store 2 [~~~blkNum]
  let blkBuf ←
    if bytes.length < CHUNK_SZ then
      blkBuf.store (bytes.length + 3) (List.replicate (CHUNK_SZ - bytes.length) CTRL_Z)
    else .ok blkBuf
  blkBuf.store (BLK_SZ_CRC - 2) (crcBytes h blkBuf.chunk)

/-- The members, what is left of the open file, and what was written to the medium. -/
structure SenderY where
  result : String
  transferringFileD : Int
  bytesRd : Int
  blkBuf : Blk
  blkNum : UInt8
  unread : List UInt8
  written : List (List UInt8)

namespace SenderY

/-- A freshly constructed `SenderY`; the block is not initialised. -/
def init (blkBuf : Blk) : SenderY := ⟨"", -1, -1, blkBuf, 0, [], []⟩

/-- `myWrite(mediumD, ..)`. -/
@[simps] def write (s : SenderY) (bytes : List UInt8) : SenderY :=
  { s with written := s.written ++ [bytes] }

def cans (s : SenderY) : SenderY := s.write (List.replicate 2 CAN)

def genBlk (h : Host) (s : SenderY) : Except Fault SenderY := do
  let bytes := s.unread.take CHUNK_SZ
  let blkBuf ← Part1.genBlk h s.blkBuf s.blkNum bytes
  return { s with
    bytesRd := bytes.length
    unread := s.unread.drop CHUNK_SZ
    blkBuf := blkBuf }

/-- `genStatBlk` counts the block that it has prepared. -/
def statBlk (h : Host) (fileName : List UInt8) (st_size : Nat) (literal : Bool) (s : SenderY) :
    Except Fault SenderY := do
  let s := { s with blkNum := 0 }
  let blkBuf ← genStatBlk h s.blkNum fileName st_size literal
  let s := { s with blkBuf := blkBuf, blkNum := s.blkNum + 1 }
  return s.write s.blkBuf.val

/-- The loop of `sendFiles` over the blocks of a file, for `fuel` turns at most. -/
def sendBlks (h : Host) : Nat → SenderY → Except Fault SenderY
  | 0, s => if s.bytesRd = 0 then .ok s else .error .rounds
  | fuel + 1, s =>
    if s.bytesRd = 0 then .ok s
    else do
      let s := { s with blkNum := s.blkNum + 1 }
      let s := s.write s.blkBuf.val
      let s ← s.genBlk h
      sendBlks h fuel s

/-- `sendFiles`, with the descriptor that `myOpen` answers for each file. At the end `stat`
fails, so that `st` holds any size; `merged` tells whether the two literals `""` are one
object. -/
def sendFiles (h : Host) (merged : Bool) (st_size : Nat) :
    List (File × Int) → SenderY → Except Fault SenderY
  | [], s => do
    let s ← s.statBlk h [] st_size merged
    return { s with result := (s.result.dropEnd 2).copy }
  | (file, fd) :: files, s =>
    let s := { s with transferringFileD := fd, unread := file.contents }
    if s.transferringFileD = -1 then .ok { s.cans with result := s.result ++ "OpenError" }
    else do
      let s ← s.statBlk h file.name file.contents.length false
      let s ← s.genBlk h
      let s ← s.sendBlks h (file.contents.length + 1)
      let s := (s.write [EOT]).write [EOT]
      sendFiles h merged st_size files { s with result := s.result ++ "Done, " }

end SenderY

end YModem.Part1
