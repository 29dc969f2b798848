import Mathlib.Data.List.Basic
import Mathlib.Logic.Function.Iterate

/-!
# The block checksum (`crc.c`)

`updcrc` shifts one data byte into a register of type `unsigned`; the register is
cut to 16 bits only where the function returns an `unsigned short`. `crc16ns` runs
it over the 128 bytes of a chunk and two zero bytes and stores the result so that
its most significant byte comes first in memory.
-/

namespace YModem.Peer

/-- `CHUNK_SZ` of `crc.h`. -/
abbrev CHUNK_SZ : Nat := 128

/-- One turn of the loop of `updcrc`: the data register `c` and the checksum. -/
def updcrcStep : BitVec 32 × BitVec 32 → BitVec 32 × BitVec 32
  | (c, crc) =>
    let c := c <<< 1
    let shifted := (crc <<< 1) + (if c &&& 0o400#32 = 0#32 then 0#32 else 1#32)
    (c, if crc &&& 0x8000#32 = 0#32 then shifted else shifted ^^^ 0x1021#32)

def updcrc (c crc : BitVec 32) : BitVec 16 :=
  (updcrcStep^[8] (c, crc)).2.setWidth 16

/-- The checksum register after the bytes of `buf` and the two augmenting zero bytes. -/
def oldcrc (buf : List UInt8) : BitVec 16 :=
  let crc := buf.foldl (fun crc b => updcrc (b.toBitVec.setWidth 32) (crc.setWidth 32)) 0#16
  updcrc 0#32 ((updcrc 0#32 (crc.setWidth 32)).setWidth 32)

/-- The byte order of the host. -/
inductive Host where
  | little
  | big
deriving DecidableEq, Repr

/-- The two bytes of a `uint16_t` object, in memory order. -/
def Host.bytesOf (h : Host) (n : BitVec 16) : List UInt8 :=
  let hi := UInt8.ofBitVec ((n >>> 8).setWidth 8)
  let lo := UInt8.ofBitVec (n.setWidth 8)
  match h with
  | .little => [lo, hi]
  | .big => [hi, lo]

/-- `my_htons` reads the object through a byte pointer. -/
def myHtons (h : Host) (n : BitVec 16) : BitVec 16 :=
  let np := h.bytesOf n
  ((np.getD 0 0).toBitVec.setWidth 16 <<< 8) ||| (np.getD 1 0).toBitVec.setWidth 16

/-- The two bytes `crc16ns` stores at `crc16nsP` on a given host. -/
def crc16nsOn (h : Host) (buf : List UInt8) : List UInt8 :=
  h.bytesOf (myHtons h (oldcrc buf))

/-- The two bytes `crc16ns` stores at `crc16nsP`. -/
def crc16ns (buf : List UInt8) : List UInt8 := crc16nsOn .little buf

theorem hi_of_swapped (a b : BitVec 8) :
    (((a.setWidth 16 <<< 8) ||| b.setWidth 16) >>> 8).setWidth 8 = a := by
  ext i hi
  have h16 : 8 + i < 16 := by omega
  have hlo : ¬ 8 + i < 8 := by omega
  simp [h16, hi, hlo]

theorem lo_of_swapped (a b : BitVec 8) :
    ((a.setWidth 16 <<< 8) ||| b.setWidth 16).setWidth 8 = b := by
  ext i hi
  simp

/-- On either host the bytes in memory are the most significant one first. -/
theorem bytesOf_myHtons (h : Host) (n : BitVec 16) :
    h.bytesOf (myHtons h n) = Host.big.bytesOf n := by
  cases h <;>
    simp only [Host.bytesOf, myHtons, List.getD_cons_zero, List.getD_cons_succ,
      UInt8.toBitVec_ofBitVec, hi_of_swapped, lo_of_swapped]

@[simp] theorem crc16ns_length (buf : List UInt8) : (crc16ns buf).length = 2 := rfl

end YModem.Peer
