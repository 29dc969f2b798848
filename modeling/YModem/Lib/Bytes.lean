import Mathlib.Data.List.Basic
import Mathlib.Data.List.GetD
import Mathlib.Data.List.TakeWhile

/-!
# Byte buffers and C strings

A buffer is the list of its cells. `overwrite` is a store at an index, and `cString` the
text up to the first NUL of a buffer.
-/

namespace YModem.Lib

variable {α : Type}

/-- Replace the cells from index `i` on by `bs`. -/
def overwrite (mem : List α) (i : Nat) (bs : List α) : List α :=
  mem.take i ++ bs ++ mem.drop (i + bs.length)

theorem length_overwrite {mem : List α} {i : Nat} {bs : List α} (h : i + bs.length ≤ mem.length) :
    (overwrite mem i bs).length = mem.length := by
  simp only [overwrite, List.length_append, List.length_take, List.length_drop]
  omega

/-- Two adjacent stores are one. -/
theorem overwrite_overwrite_adjacent {mem : List α} {i : Nat} {bs cs : List α}
    (h : i + bs.length ≤ mem.length) :
    overwrite (overwrite mem i bs) (i + bs.length) cs = overwrite mem i (bs ++ cs) := by
  have hl : (mem.take i ++ bs).length = i + bs.length := by
    simp only [List.length_append, List.length_take]
    omega
  have htake : (overwrite mem i bs).take (i + bs.length) = mem.take i ++ bs := by
    rw [overwrite, ← hl, List.take_left]
  have hdrop : (overwrite mem i bs).drop (i + bs.length + cs.length) =
      mem.drop (i + (bs ++ cs).length) := by
    rw [overwrite, ← List.drop_drop, ← hl, List.drop_left, List.drop_drop, hl, List.length_append,
      Nat.add_assoc]
  rw [overwrite, htake, hdrop, overwrite, List.append_assoc (mem.take i)]

/-- A store that covers the whole buffer leaves nothing of it. -/
theorem overwrite_all {mem bs : List α} (h : bs.length = mem.length) : overwrite mem 0 bs = bs := by
  simp [overwrite, h]

/-- A store of nothing. -/
theorem overwrite_nil (mem : List α) (i : Nat) : overwrite mem i [] = mem := by
  simp [overwrite]

@[simp] theorem overwrite_cons_zero (a b : α) (mem : List α) :
    overwrite (a :: mem) 0 [b] = b :: mem := by
  simp [overwrite]

@[simp] theorem overwrite_cons_succ (a : α) (mem : List α) (i : Nat) (bs : List α) :
    overwrite (a :: mem) (i + 1) bs = a :: overwrite mem i bs := by
  simp [overwrite, Nat.add_right_comm i 1]

/-- A store that stays inside the first part of a buffer. -/
theorem overwrite_append_left (xs ys : List α) {i : Nat} (bs : List α)
    (h : i + bs.length ≤ xs.length) : overwrite (xs ++ ys) i bs = overwrite xs i bs ++ ys := by
  simp only [overwrite, List.take_append_of_le_length (Nat.le_of_add_right_le h),
    List.drop_append_of_le_length h, List.append_assoc]

/-- A store that covers the second part of a buffer. -/
theorem overwrite_append_right (xs : List α) {ys : List α} (bs : List α)
    (h : bs.length = ys.length) :
    overwrite (xs ++ ys) xs.length bs = xs ++ bs := by
  simp [overwrite, h]

/-- The cells of a slice that lies inside the stored bytes. -/
theorem take_drop_overwrite {mem : List α} {i j n : Nat} {bs : List α} (hi : i ≤ mem.length)
    (h : j + n ≤ bs.length) :
    ((overwrite mem i bs).drop (i + j)).take n = (bs.drop j).take n := by
  have hl : (mem.take i).length = i := by simp only [List.length_take]; omega
  rw [overwrite, List.append_assoc, ← List.drop_drop]
  conv_lhs => rw [show ((mem.take i ++ (bs ++ mem.drop (i + bs.length))).drop i) =
    bs ++ mem.drop (i + bs.length) from List.drop_left' hl]
  rw [List.drop_append_of_le_length (by omega),
    List.take_append_of_le_length (by rw [List.length_drop]; omega)]

theorem getD_overwrite {mem : List α} {i j : Nat} {bs : List α} {d : α} (hi : i ≤ mem.length)
    (h : j < bs.length) : (overwrite mem i bs).getD (i + j) d = bs.getD j d := by
  have hl : (mem.take i).length = i := by simp only [List.length_take]; omega
  rw [overwrite, List.append_assoc, List.getD_append_right _ _ _ _ (by omega), hl,
    Nat.add_sub_cancel_left, List.getD_append _ _ _ _ h]

/-- Pieces of one length. -/
theorem length_flatten_of_forall {pieces : List (List α)} {n : Nat}
    (h : ∀ p ∈ pieces, p.length = n) : pieces.flatten.length = n * pieces.length := by
  rw [List.length_flatten, List.map_congr_left h, List.map_const', List.sum_replicate_nat,
    Nat.mul_comm]

/-- The bytes before the first NUL; `none` when the buffer holds none. -/
def cString (mem : List UInt8) : Option (List UInt8) :=
  if 0 ∈ mem then some (mem.takeWhile (· ≠ 0)) else none

theorem cString_append_nul {s rest : List UInt8} (h : 0 ∉ s) :
    cString (s ++ 0 :: rest) = some s := by
  have hs : ∀ b ∈ s, decide (b ≠ 0) = true := by
    intro b hb
    simp only [ne_eq, decide_eq_true_eq]
    rintro rfl
    exact h hb
  rw [cString, if_pos (by simp), List.takeWhile_append_of_pos hs]
  simp

/-- A C string that is not empty does not start with a NUL. -/
theorem getD_zero_of_cString {mem s : List UInt8} (h : cString mem = some s) (hne : s ≠ []) :
    mem.getD 0 0 ≠ 0 := by
  cases mem with
  | nil => simp [cString] at h
  | cons b mem =>
    intro hb
    apply hne
    have hzero : b = 0 := hb
    simpa [cString, hzero] using h.symm

/-- An empty one does. -/
theorem getD_zero_of_cString_nil {mem : List UInt8} (h : cString mem = some []) : mem.getD 0 0 = 0 := by
  cases mem with
  | nil => rfl
  | cons b mem =>
    by_contra hb
    have hhead : b ≠ 0 := hb
    rw [cString] at h
    split_ifs at h
    simp [hhead] at h

end YModem.Lib
