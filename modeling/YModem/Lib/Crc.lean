import Mathlib.Data.List.Basic
import Mathlib.Data.Nat.Bitwise
import Mathlib.Tactic.Linarith
import Mathlib.Tactic.Ring

/-!
# Cyclic redundancy checks, bit by bit

A register of `w` bits takes the message most significant bit first: it holds the
remainder of what it has read modulo the generator polynomial `x^w + poly`. Reading is
linear over exclusive or, so that an error goes unnoticed exactly when its own remainder is
zero, and a burst of at most `w` bits has a remainder that is not.
-/

namespace YModem.Lib.Crc

variable {w : Nat}

/-- One bit is shifted in. -/
def step (poly r : BitVec w) (b : Bool) : BitVec w :=
  ((r <<< 1) ^^^ (if r.msb then poly else 0#w)) ^^^ (if b then 1#w else 0#w)

/-- The register after the bits of a message. -/
def run (poly : BitVec w) (r : BitVec w) (bits : List Bool) : BitVec w := bits.foldl (step poly) r

variable {poly : BitVec w}

@[simp] theorem run_cons (r : BitVec w) (b : Bool) (bits : List Bool) :
    run poly r (b :: bits) = run poly (step poly r b) bits := rfl

theorem run_append (r : BitVec w) (bits more : List Bool) :
    run poly r (bits ++ more) = run poly (run poly r bits) more := List.foldl_append

/-! ## Linearity -/

theorem step_xor (r r' : BitVec w) (b b' : Bool) :
    step poly (r ^^^ r') (b ^^ b') = step poly r b ^^^ step poly r' b' := by
  have hmsb : (r ^^^ r').msb = (r.msb ^^ r'.msb) := BitVec.msb_xor
  have hpoly : (if (r ^^^ r').msb then poly else 0#w) =
      (if r.msb then poly else 0#w) ^^^ (if r'.msb then poly else 0#w) := by
    rw [hmsb]
    cases r.msb <;> cases r'.msb <;> simp
  have hbit : (if (b ^^ b') then 1#w else 0#w) =
      (if b then 1#w else 0#w) ^^^ (if b' then 1#w else 0#w) := by
    cases b <;> cases b' <;> simp
  rw [step, step, step, hpoly, hbit, BitVec.shiftLeft_xor_distrib]
  ac_rfl

/-- The register of a sum of messages is the sum of their registers. -/
theorem run_xor (r r' : BitVec w) {bits bits' : List Bool} (h : bits.length = bits'.length) :
    run poly (r ^^^ r') (List.zipWith xor bits bits') = run poly r bits ^^^ run poly r' bits' := by
  induction bits generalizing r r' bits' with
  | nil =>
    cases List.length_eq_zero_iff.mp h.symm
    rfl
  | cons b bits ih =>
    obtain ⟨b', bits', rfl⟩ := List.exists_cons_of_length_eq_add_one h.symm
    rw [List.zipWith_cons_cons, run_cons, step_xor, ih _ _ (by simpa using h)]
    rfl

/-! ## Zeros -/

theorem step_zero : step poly 0#w false = 0#w := by simp [step]

theorem run_zero (n : Nat) : run poly 0#w (List.replicate n false) = 0#w := by
  induction n with
  | zero => rfl
  | succ n ih => rw [List.replicate_succ, run_cons, step_zero, ih]

/-- Behind an odd polynomial zeros never clear the register. -/
theorem step_ne_zero (hodd : poly.getLsbD 0 = true) {r : BitVec w} (hr : r ≠ 0#w) :
    step poly r false ≠ 0#w := by
  intro h
  have hw : 0 < w := BitVec.lt_of_getLsbD hodd
  have hbit (i : Nat) : (step poly r false).getLsbD i = false := by rw [h]; simp
  cases hmsb : r.msb with
  | true =>
    have h0 := hbit 0
    simp [step, hmsb, hodd] at h0
  | false =>
    refine hr (BitVec.eq_of_getLsbD_eq fun i hi => ?_)
    rw [BitVec.getLsbD_zero]
    by_cases hlast : i + 1 = w
    · rw [BitVec.msb_eq_getLsbD_last] at hmsb
      rwa [show i = w - 1 by omega]
    · have hi1 := hbit (i + 1)
      have hlt : i + 1 < w := by omega
      rw [step, hmsb, if_neg (by simp), if_neg (by simp), BitVec.xor_zero, BitVec.xor_zero,
        BitVec.getLsbD_shiftLeft] at hi1
      simpa [hlt] using hi1

theorem run_zeros_ne_zero (hodd : poly.getLsbD 0 = true) {r : BitVec w} (hr : r ≠ 0#w) (n : Nat) :
    run poly r (List.replicate n false) ≠ 0#w := by
  induction n generalizing r with
  | zero => exact hr
  | succ n ih => exact ih (step_ne_zero hodd hr)

/-! ## Bursts -/

/-- The number that bits spell behind `n`, most significant bit first. -/
def natFrom (n : Nat) : List Bool → Nat
  | [] => n
  | b :: bits => natFrom (2 * n + b.toNat) bits

theorem natFrom_pos {n : Nat} {bits : List Bool} (h : 0 < n ∨ true ∈ bits) :
    0 < natFrom n bits := by
  induction bits generalizing n with
  | nil => simpa [natFrom] using h
  | cons b bits ih =>
    apply ih
    rcases h with hn | hmem
    · exact .inl (by omega)
    · rcases List.mem_cons.mp hmem with rfl | hmem
      · exact .inl (by simp)
      · exact .inr hmem

theorem toNat_step_short {r : BitVec w} (b : Bool) (h : (r.toNat + 1) * 2 ≤ 2 ^ w) :
    (step poly r b).toNat = 2 * r.toNat + b.toNat := by
  have hmsb : r.msb = false := by
    rw [BitVec.msb_eq_false_iff_two_mul_lt]
    omega
  have hbit : (if b then 1#w else 0#w).toNat = b.toNat := by
    cases b with
    | false => rfl
    | true => exact Nat.mod_eq_of_lt (by show 1 < _; omega)
  have hshift : (r <<< 1).toNat = 2 * r.toNat := by
    rw [BitVec.toNat_shiftLeft, Nat.shiftLeft_eq, Nat.mod_eq_of_lt (by omega)]
    omega
  rw [step, hmsb, if_neg (by simp), BitVec.xor_zero, BitVec.toNat_xor, hbit, hshift]
  cases b with
  | false => exact Nat.xor_zero _
  | true => exact Nat.xor_one_of_even (even_two_mul _)

/-- Bits that fit the register are not reduced. -/
theorem toNat_run_short {r : BitVec w} {bits : List Bool}
    (h : (r.toNat + 1) * 2 ^ bits.length ≤ 2 ^ w) :
    (run poly r bits).toNat = natFrom r.toNat bits := by
  induction bits generalizing r with
  | nil => rfl
  | cons b bits ih =>
    have hpos := Nat.two_pow_pos bits.length
    have hb := b.toNat_le
    rw [List.length_cons, Nat.pow_succ] at h
    have hstep : (step poly r b).toNat = 2 * r.toNat + b.toNat := toNat_step_short b (by nlinarith)
    rw [run_cons, ih (by rw [hstep]; nlinarith), hstep]
    rfl

/-- A list that is constant outside a stretch. -/
theorem eq_replicate_append {α : Type} {z : α} {d : List α} {p n : Nat}
    (h : ∀ i, d.getD i z ≠ z → p ≤ i ∧ i < p + n) :
    ∃ a b, d = List.replicate a z ++ ((d.drop p).take n ++ List.replicate b z) := by
  have hout (i : Nat) (hi : i < d.length) (hp : ¬ (p ≤ i ∧ i < p + n)) : d[i] = z := by
    by_contra hne
    exact hp (h i (by simpa [List.getD_eq_getElem?_getD, hi] using hne))
  have hleft : d.take p = List.replicate (d.take p).length z := by
    refine List.eq_replicate_iff.mpr ⟨rfl, fun x hx => ?_⟩
    obtain ⟨i, hi, rfl⟩ := List.getElem_of_mem hx
    rw [List.length_take] at hi
    rw [List.getElem_take]
    exact hout i (by omega) (by omega)
  have hright : d.drop (p + n) = List.replicate (d.drop (p + n)).length z := by
    refine List.eq_replicate_iff.mpr ⟨rfl, fun x hx => ?_⟩
    obtain ⟨i, hi, rfl⟩ := List.getElem_of_mem hx
    rw [List.length_drop] at hi
    rw [List.getElem_drop]
    exact hout (p + n + i) (by omega) (by omega)
  refine ⟨(d.take p).length, (d.drop (p + n)).length, ?_⟩
  rw [← hleft, ← hright, ← List.drop_drop, List.take_append_drop, List.take_append_drop]

/-- A burst of at most `w` bits is noticed. -/
theorem run_burst_ne_zero (hodd : poly.getLsbD 0 = true) {d : List Bool} {p : Nat}
    (h : ∀ i, d.getD i false = true → p ≤ i ∧ i < p + w) (htrue : true ∈ d) :
    run poly 0#w d ≠ 0#w := by
  obtain ⟨a, b, hd⟩ := eq_replicate_append (z := false) fun i hi => h i (by simpa using hi)
  have hlen : ((d.drop p).take w).length ≤ w := List.length_take_le _ _
  have hmem : true ∈ (d.drop p).take w := by
    rw [hd] at htrue
    simpa using htrue
  generalize (d.drop p).take w = window at hd hlen hmem
  rw [hd, run_append, run_zero, run_append]
  refine run_zeros_ne_zero hodd (fun h0 => ?_) b
  have hnat : (run poly 0#w window).toNat = natFrom 0 window := by
    have hpow := Nat.pow_le_pow_right (Nat.succ_pos 1) hlen
    have hzero : (0#w).toNat = 0 := BitVec.toNat_zero
    rw [toNat_run_short (by rw [hzero]; simpa using hpow), hzero]
  have hp := natFrom_pos (n := 0) (.inr hmem)
  rw [← hnat, h0] at hp
  simp at hp

end YModem.Lib.Crc
