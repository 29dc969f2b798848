import Mathlib.Algebra.Field.ZMod
import Mathlib.Algebra.Polynomial.Div
import Mathlib.Tactic.LinearCombination
import YModem.Lib.Crc

/-!
# Registers and remainders

Bits, highest coefficient first, are a polynomial over GF(2), and so is a register, with bit `i`
for the coefficient of `x^i`. A register that has read a message is the remainder of the message
modulo the generator.
-/

namespace YModem.Lib.Crc

open Polynomial

noncomputable section

variable {w : Nat}

def coeffOf (b : Bool) : ZMod 2 := if b then 1 else 0

@[simp] theorem coeffOf_false : coeffOf false = 0 := rfl

@[simp] theorem coeffOf_true : coeffOf true = 1 := rfl

@[simp] theorem coeffOf_xor (a b : Bool) : coeffOf (a ^^ b) = coeffOf a + coeffOf b := by
  cases a <;> cases b <;> decide

theorem coeffOf_add_self (b : Bool) : coeffOf b + coeffOf b = 0 := by
  cases b <;> decide

/-- The polynomial of a message. -/
def ofBits (bits : List Bool) : (ZMod 2)[X] := bits.foldl (fun p b => p * X + C (coeffOf b)) 0

/-- The polynomial of a register. -/
def ofReg (r : BitVec w) : (ZMod 2)[X] := ∑ i ∈ Finset.range w, C (coeffOf (r.getLsbD i)) * X ^ i

/-- The polynomial modulo which a register with the feedback `poly` reduces. -/
def generator (poly : BitVec w) : (ZMod 2)[X] := X ^ w + ofReg poly

variable {poly : BitVec w}

/-! ## Messages -/

@[simp] theorem ofBits_nil : ofBits [] = 0 := rfl

theorem ofBits_concat (bits : List Bool) (b : Bool) :
    ofBits (bits ++ [b]) = ofBits bits * X + C (coeffOf b) := by
  rw [ofBits, List.foldl_concat]
  rfl

theorem ofBits_zeros (bits : List Bool) (n : Nat) :
    ofBits (bits ++ List.replicate n false) = ofBits bits * X ^ n := by
  induction n with
  | zero => simp
  | succ n ih =>
    rw [List.replicate_succ', ← List.append_assoc, ofBits_concat, ih, coeffOf_false, C_0, add_zero,
      pow_succ, mul_assoc]

theorem coeff_ofBits_of_le {bits : List Bool} {i : Nat} (h : bits.length ≤ i) :
    (ofBits bits).coeff i = 0 := by
  induction bits using List.reverseRecOn generalizing i with
  | nil => rfl
  | append_singleton bits b ih =>
    rw [List.length_append, List.length_singleton] at h
    obtain ⟨j, rfl⟩ := Nat.exists_eq_add_of_le' (Nat.le_of_add_left_le h)
    rw [ofBits_concat, coeff_add, coeff_mul_X, coeff_C_succ, add_zero]
    exact ih (Nat.le_of_add_le_add_right h)

theorem degree_ofBits_lt (bits : List Bool) : (ofBits bits).degree < bits.length := by
  rw [degree_lt_iff_coeff_zero]
  exact fun i hi => coeff_ofBits_of_le hi

/-! ## Registers -/

@[simp] theorem coeff_ofReg (r : BitVec w) (i : Nat) :
    (ofReg r).coeff i = coeffOf (r.getLsbD i) := by
  rw [ofReg, finsetSum_coeff]
  simp only [coeff_C_mul, coeff_X_pow, mul_ite, mul_one, mul_zero, Finset.sum_ite_eq,
    Finset.mem_range]
  split_ifs with hi
  · rfl
  · rw [BitVec.getLsbD_of_ge r i (Nat.le_of_not_lt hi), coeffOf_false]

theorem degree_ofReg_lt (r : BitVec w) : (ofReg r).degree < w := by
  rw [degree_lt_iff_coeff_zero]
  intro i hi
  rw [coeff_ofReg, BitVec.getLsbD_of_ge r i hi, coeffOf_false]

theorem monic_generator : (generator poly).Monic := monic_X_pow_add (degree_ofReg_lt poly)

theorem degree_generator : (generator poly).degree = w := by
  rw [generator, degree_add_eq_left_of_degree_lt (by rw [degree_X_pow]; exact degree_ofReg_lt poly),
    degree_X_pow]

/-- One bit is read: the top coefficient is reduced. -/
theorem ofReg_step (hw : 0 < w) (r : BitVec w) (b : Bool) :
    ofReg (step poly r b) = ofReg r * X + C (coeffOf b) + C (coeffOf r.msb) * generator poly := by
  have hfeed (i : Nat) : (if r.msb then poly else 0#w).getLsbD i = (r.msb && poly.getLsbD i) := by
    cases r.msb <;> simp
  have hand (i : Nat) : coeffOf (r.msb && poly.getLsbD i) =
      coeffOf r.msb * coeffOf (poly.getLsbD i) := by
    cases r.msb <;> simp
  ext i
  rw [coeff_ofReg, step, BitVec.getLsbD_xor, BitVec.getLsbD_xor, coeffOf_xor, coeffOf_xor, hfeed,
    hand, generator, coeff_add, coeff_add, coeff_C_mul, coeff_add, coeff_X_pow, coeff_ofReg]
  cases i with
  | zero =>
    have hbit : (if b then 1#w else 0#w).getLsbD 0 = b := by
      cases b <;> simp [hw]
    rw [hbit, coeff_mul_X_zero, coeff_C_zero, if_neg hw.ne]
    simp [add_comm]
  | succ i =>
    have hbit : (if b then 1#w else 0#w).getLsbD (i + 1) = false := by
      cases b <;> simp
    rw [hbit, coeff_mul_X, coeff_C_succ, coeff_ofReg, coeffOf_false, add_zero, add_zero]
    rcases lt_trichotomy (i + 1) w with hlt | rfl | hgt
    · have hshift : (r <<< 1).getLsbD (i + 1) = r.getLsbD i := by
        rw [BitVec.getLsbD_shiftLeft]
        simp [hlt, -BitVec.getLsbD_eq_getElem]
      rw [hshift, if_neg hlt.ne, zero_add]
    · -- the coefficient that is shifted out is the one that the generator takes away
      have hshift : (r <<< 1).getLsbD (i + 1) = false := by simp
      have hmsb : r.getLsbD i = r.msb := (BitVec.msb_eq_getLsbD_last r).symm
      rw [hshift, hmsb, if_pos rfl, coeffOf_false, zero_add, mul_add, mul_one, ← add_assoc,
        coeffOf_add_self, zero_add]
    · have hshift : (r <<< 1).getLsbD (i + 1) = false := by simp [hgt.le]
      have hout : r.getLsbD i = false := BitVec.getLsbD_of_ge r i (Nat.le_of_lt_succ hgt)
      rw [hshift, hout, if_neg hgt.ne', zero_add]

/-- **The register holds the remainder of what it has read.** -/
theorem ofReg_run (hw : 0 < w) (bits : List Bool) :
    ofReg (run poly 0#w bits) = ofBits bits %ₘ generator poly := by
  suffices h : ∃ q, ofReg (run poly 0#w bits) + generator poly * q = ofBits bits by
    obtain ⟨q, hq⟩ := h
    exact ((div_modByMonic_unique q _ monic_generator
      ⟨hq, by rw [degree_generator]; exact degree_ofReg_lt _⟩).2).symm
  induction bits using List.reverseRecOn with
  | nil => exact ⟨0, by simp [run, ofReg]⟩
  | append_singleton bits b ih =>
    obtain ⟨q, hq⟩ := ih
    rw [run_append]
    refine ⟨q * X + C (coeffOf (run poly 0#w bits).msb), ?_⟩
    rw [ofBits_concat, ← hq]
    change ofReg (step poly _ b) + _ = _
    rw [ofReg_step hw]
    have hself : C (coeffOf (run poly 0#w bits).msb) + C (coeffOf (run poly 0#w bits).msb) = 0 := by
      rw [← C_add, coeffOf_add_self, C_0]
    linear_combination generator poly * hself

end

end YModem.Lib.Crc
