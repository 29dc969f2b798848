import Mathlib.Data.List.Basic
import Mathlib.Data.List.TakeWhile

/-!
# Decimal numbers in byte strings

`decimal` is what `printf` writes for a number that is not negative. `stoi` reads
a string the way the C++ library does: leading white space, one optional sign, the
longest run of digits, and a failure when there is no digit or the value does not
fit an `int`.
-/

namespace YModem.Lib

/-- The character of one decimal digit. -/
def digit (d : Nat) : UInt8 := UInt8.ofNat (48 + d)

def decimal (n : Nat) : List UInt8 :=
  (Nat.toDigits 10 n).map fun ch => UInt8.ofNat ch.toNat

def isDigit (b : UInt8) : Bool := 48 ≤ b.toNat ∧ b.toNat ≤ 57

/-- White space in the C locale. -/
def isSpace (b : UInt8) : Bool := b = 32 ∨ (9 ≤ b.toNat ∧ b.toNat ≤ 13)

/-- The value of a run of digits, most significant digit first. -/
def valueOf (ds : List UInt8) : Nat :=
  ds.foldl (fun n d => 10 * n + (d.toNat - 48)) 0

/-- An optional sign and the text behind it. -/
def signOf : List UInt8 → Bool × List UInt8
  | 45 :: s => (true, s)
  | 43 :: s => (false, s)
  | s => (false, s)

/-- An `int` is at least `-INT_RANGE` and less than `INT_RANGE`. -/
abbrev INT_RANGE : Nat := 0x80000000

/-- `none` is `invalid_argument` or `out_of_range`. -/
def stoi (s : List UInt8) : Option Int :=
  let (negative, s) := signOf (s.dropWhile isSpace)
  let ds := s.takeWhile isDigit
  let n : Int := if negative then -(valueOf ds : Int) else valueOf ds
  if ds = [] then none
  else if -INT_RANGE ≤ n ∧ n < INT_RANGE then some n
  else none

theorem toNat_digit {d : Nat} (h : d < 10) : (digit d).toNat = 48 + d := by
  rw [digit, UInt8.toNat_ofNat']
  omega

theorem toNat_digitChar {d : Nat} (h : d < 10) : UInt8.ofNat d.digitChar.toNat = digit d := by
  have hall : ∀ d < 10, UInt8.ofNat d.digitChar.toNat = digit d := by decide
  exact hall d h

/-- The last digit of a number, and the digits before it. -/
theorem decimal_eq (n : Nat) :
    decimal n = (if n < 10 then [] else decimal (n / 10)) ++ [digit (n % 10)] := by
  rw [decimal, Nat.toDigits_eq_if (by decide)]
  split
  · rename_i h
    rw [Nat.mod_eq_of_lt h]
    simp only [List.map_cons, List.map_nil, List.nil_append, toNat_digitChar h]
  · simp only [List.map_append, List.map_cons, List.map_nil, decimal,
      toNat_digitChar (Nat.mod_lt n (by decide))]

theorem decimal_ne_nil (n : Nat) : decimal n ≠ [] := by
  rw [decimal_eq]
  simp

theorem valueOf_snoc (ds : List UInt8) (d : UInt8) :
    valueOf (ds ++ [d]) = 10 * valueOf ds + (d.toNat - 48) := by
  simp only [valueOf, List.foldl_append, List.foldl_cons, List.foldl_nil]

theorem valueOf_decimal (n : Nat) : valueOf (decimal n) = n := by
  induction n using Nat.strong_induction_on with
  | _ n ih =>
    have hd := toNat_digit (Nat.mod_lt n (by decide : 10 > 0))
    rw [decimal_eq, valueOf_snoc, hd]
    split
    · simp only [valueOf, List.foldl_nil]
      omega
    · rw [ih (n / 10) (by omega)]
      omega

theorem isDigit_of_mem_decimal {n : Nat} {b : UInt8} (h : b ∈ decimal n) : isDigit b = true := by
  induction n using Nat.strong_induction_on with
  | _ n ih =>
    rw [decimal_eq, List.mem_append] at h
    rcases h with h | h
    · split at h
      · simp at h
      · exact ih (n / 10) (by omega) h
    · rw [List.mem_singleton] at h
      have hd := toNat_digit (Nat.mod_lt n (by decide : 10 > 0))
      simp only [isDigit, decide_eq_true_eq, h, hd]
      omega

theorem nul_notMem_decimal (n : Nat) : (0 : UInt8) ∉ decimal n := by
  intro h
  have := isDigit_of_mem_decimal h
  simp [isDigit] at this

/-- A digit is neither white space nor a sign. -/
theorem stoi_of_digit {b : UInt8} {s : List UInt8} (h : isDigit b = true) :
    signOf ((b :: s).dropWhile isSpace) = (false, b :: s) := by
  simp only [isDigit, decide_eq_true_eq] at h
  have hsp : isSpace b = false := by
    simp only [isSpace, decide_eq_false_iff_not]
    rintro (rfl | hr)
    · simp at h
    · omega
  rw [List.dropWhile_cons_of_neg (by simp [hsp])]
  unfold signOf
  split
  · rename_i heq
    cases heq
    simp at h
  · rename_i heq
    cases heq
    simp at h
  · rfl

/-- What `stoi` makes of a number that `printf` wrote. -/
theorem stoi_decimal_eq (n : Nat) :
    stoi (decimal n) = if n < INT_RANGE then some (n : Int) else none := by
  obtain ⟨b, s, hbs⟩ := List.exists_cons_of_ne_nil (decimal_ne_nil n)
  have hb : isDigit b = true := isDigit_of_mem_decimal (n := n) (by simp [hbs])
  have htake : (decimal n).takeWhile isDigit = decimal n :=
    List.takeWhile_eq_self_iff.mpr fun _ hx => isDigit_of_mem_decimal hx
  have hsign : signOf ((decimal n).dropWhile isSpace) = (false, decimal n) := by
    rw [hbs]
    exact stoi_of_digit hb
  simp only [stoi, hsign, htake, valueOf_decimal, if_neg (decimal_ne_nil n), Bool.false_eq_true,
    if_false]
  by_cases h : n < INT_RANGE
  · rw [if_pos h, if_pos (by omega)]
  · rw [if_neg h, if_neg (by omega)]

/-- **Round trip.** `stoi` reads back every number `printf` wrote that fits an `int`. -/
theorem stoi_decimal {n : Nat} (h : n < INT_RANGE) : stoi (decimal n) = some (n : Int) := by
  rw [stoi_decimal_eq, if_pos h]

end YModem.Lib
