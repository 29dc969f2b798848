import YModem.Lib.CrcPoly
import YModem.Peer.Damage

/-!
# The checksum as a remainder

What `crc16ns` stores is the remainder of the chunk, shifted by 16 places, modulo
`x^16 + x^12 + x^5 + 1`, on hosts of either byte order and with a register of any width; no other
two bytes behind the chunk take the register of `updcrc` back to zero.
-/

namespace YModem.Peer

open YModem.Lib Polynomial

/-- `updcrc` over bytes, from a cleared register. -/
def updcrcs (bs : List UInt8) : BitVec 16 :=
  bs.foldl (fun crc b => updcrc (b.toBitVec.setWidth 32) (crc.setWidth 32)) 0#16

theorem updcrcs_eq (bs : List UInt8) : updcrcs bs = Crc.run genPoly 0#16 (bits bs) :=
  @foldl_updcrcIn 32 (by decide) bs 0#16

/-- `crc16ns` with a register of `w` bits. -/
def crc16nsIn (w : Nat) (h : Host) (buf : List UInt8) : List UInt8 :=
  h.bytesOf (myHtons h (oldcrcIn w buf))

theorem generator_genPoly :
    Crc.generator genPoly = (X ^ 16 + X ^ 12 + X ^ 5 + 1 : (ZMod 2)[X]) := by
  have hreg : Crc.ofReg genPoly = X ^ 12 + X ^ 5 + 1 := by
    simp [Crc.ofReg, genPoly, Finset.sum_range_succ]
    ring
  rw [Crc.generator, hreg]
  ring

/-- Two bytes, most significant one first. -/
theorem bytesOf_big (hi lo : UInt8) :
    Host.big.bytesOf ((hi.toBitVec.setWidth 16 <<< 8) ||| lo.toBitVec.setWidth 16) = [hi, lo] := by
  rw [Host.bytesOf, hi_of_swapped, lo_of_swapped]

/-- The polynomial of two bytes is that of the register they fill. -/
theorem ofBits_bytesOf (n : BitVec 16) : Crc.ofBits (bits (Host.big.bytesOf n)) = Crc.ofReg n := by
  have hdeg : (Crc.ofBits (bits (Host.big.bytesOf n))).degree < (Crc.generator genPoly).degree := by
    rw [Crc.degree_generator]
    exact Crc.degree_ofBits_lt _
  have hrun := @Crc.ofReg_run 16 genPoly (by decide) (bits (Host.big.bytesOf n))
  rw [run_two, (modByMonic_eq_self_iff Crc.monic_generator).mpr hdeg] at hrun
  exact hrun.symm

/-- **The checksum is the remainder of the chunk**, most significant byte first, on every host;
it is what takes the register of `updcrc` back to zero, and a wider register changes nothing. -/
theorem crc16ns_remainder (h : Host) (buf : List UInt8) :
    Crc.ofBits (bits (crc16nsOn h buf)) =
      (Crc.ofBits (bits buf) * X ^ 16) %ₘ (X ^ 16 + X ^ 12 + X ^ 5 + 1) ∧
    (∀ hi lo : UInt8, updcrcs (buf ++ [hi, lo]) = 0#16 ↔ [hi, lo] = crc16nsOn h buf) ∧
    ∀ more : Nat, crc16nsIn (16 + more) h buf = crc16nsOn h buf := by
  have hcrc : crc16nsOn h buf = Host.big.bytesOf (oldcrc buf) := bytesOf_myHtons h _
  refine ⟨?_, ?_, fun more => ?_⟩
  · rw [hcrc, ofBits_bytesOf, oldcrc_eq, Crc.ofReg_run (by decide), generator_genPoly, bits_append,
      ← Crc.ofBits_zeros]
    rfl
  · intro hi lo
    have hbytes := bytesOf_big hi lo
    generalize (hi.toBitVec.setWidth 16 <<< 8) ||| lo.toBitVec.setWidth 16 = n at hbytes
    rw [updcrcs_eq, ← hbytes, run_behind, BitVec.xor_eq_zero_iff, hcrc]
    constructor
    · rintro rfl
      rfl
    · intro heq
      have hrun := run_two (oldcrc buf)
      rw [← heq, run_two] at hrun
      exact hrun.symm
  · rw [crc16nsIn, oldcrcIn_eq (Nat.le_add_right 16 more), ← oldcrc_eq]
    rfl

end YModem.Peer
