import YModem.Lib.Bytes

/-!
# Windows of a circular buffer

The cells of a buffer, taken modulo their number: a window begins at any position and goes on at
the first cell behind the last one. Positions may count on without end.
-/

namespace YModem.Lib

variable {α : Type} {cells xs ys : List α} {pos : Nat} {x : α}

/-- Different offsets that are less than the number of cells apart are different cells. -/
theorem mod_ne_of_lt {n i j : Nat} (hij : i < j) (hj : j < i + n) : i % n ≠ j % n := by
  intro he
  have hdvd : n ∣ j - i := Nat.dvd_of_mod_eq_zero (Nat.sub_mod_eq_zero_of_mod_eq he.symm)
  have hle := Nat.le_of_dvd (Nat.sub_pos_of_lt hij) hdvd
  omega

/-- A position that is less than two turns on. -/
theorem mod_eq_ite {a n : Nat} (h : a < n + n) : a % n = if a < n then a else a - n := by
  split_ifs with hlt
  · exact Nat.mod_eq_of_lt hlt
  · rw [Nat.mod_eq_sub_mod (by omega), Nat.mod_eq_of_lt (by omega)]

/-- The `k` cells from `pos` on, around the end of a buffer of `n` cells. -/
def ringCells (n pos k : Nat) : List Nat := (List.range k).map fun i => (pos + i) % n

theorem ringCells_succ (n pos k : Nat) :
    ringCells n pos (k + 1) = pos % n :: ringCells n (pos + 1) k := by
  simp [ringCells, List.range_succ_eq_map, Function.comp_def, Nat.add_assoc, Nat.add_comm 1]

theorem mem_ringCells {n pos k i : Nat} :
    i ∈ ringCells n pos k ↔ ∃ j < k, (pos + j) % n = i := by
  simp [ringCells]

/-- Cells that do not go around the end. -/
theorem ringCells_run {n pos k : Nat} (h : pos % n + k ≤ n) :
    ringCells n pos k = (List.range k).map (pos % n + ·) := by
  refine List.map_congr_left fun i hi => ?_
  rw [List.mem_range] at hi
  rw [← Nat.mod_add_mod, Nat.mod_eq_of_lt (by omega)]

/-- Cells of which the first run reaches the end. -/
theorem ringCells_around {n pos j k : Nat} (hend : pos % n + j = n) (hk : k ≤ n) :
    ringCells n pos (j + k) = (List.range j).map (pos % n + ·) ++ List.range k := by
  have hback : (List.range k).map ((fun i => (pos + i) % n) ∘ (j + ·)) = List.range k := by
    refine (List.map_congr_left fun i hi => ?_).trans (List.map_id _)
    rw [List.mem_range] at hi
    rw [Function.comp_apply, ← Nat.mod_add_mod, ← Nat.add_assoc, hend, Nat.add_mod_left,
      Nat.mod_eq_of_lt (by omega), id]
  rw [ringCells, List.range_add, List.map_append, List.map_map, hback, ← ringCells,
    ringCells_run hend.le]

/-- The cells from `pos` on, around the end of the buffer, hold `xs`. -/
def Window (cells : List α) (pos : Nat) (xs : List α) : Prop :=
  ∀ i (h : i < xs.length), cells[(pos + i) % cells.length]? = some xs[i]

namespace Window

theorem nil : Window cells pos [] := fun _ h => absurd h (Nat.not_lt_zero _)

/-- A position counts modulo the number of cells. -/
theorem mod_iff : Window cells (pos % cells.length) xs ↔ Window cells pos xs := by
  simp only [Window, Nat.mod_add_mod]

theorem head (h : Window cells pos (x :: xs)) : cells[pos % cells.length]? = some x := by
  simpa using h 0 (Nat.succ_pos _)

theorem drop (h : Window cells pos xs) (k : Nat) : Window cells (pos + k) (xs.drop k) := by
  intro i hi
  rw [List.length_drop] at hi
  rw [Nat.add_assoc, List.getElem_drop]
  exact h (k + i) (by omega)

/-- A store in the cell behind the window lengthens it. -/
theorem set_snoc (h : Window cells pos xs) (hlt : xs.length < cells.length) :
    Window (cells.set ((pos + xs.length) % cells.length) x) pos (xs ++ [x]) := by
  intro i hi
  rw [List.length_append, List.length_singleton] at hi
  rw [List.length_set]
  by_cases hold : i < xs.length
  · have hne : (pos + i) % cells.length ≠ (pos + xs.length) % cells.length :=
      mod_ne_of_lt (by omega) (by omega)
    rw [List.getElem?_set_ne hne.symm, List.getElem_append_left hold]
    exact h i hold
  · obtain rfl : i = xs.length := by omega
    have hcell : (pos + xs.length) % cells.length < cells.length := Nat.mod_lt _ (by omega)
    rw [List.getElem?_set_self hcell, List.getElem_concat_length rfl]

/-- A store in the first cell of the window shortens it. -/
theorem set_head (h : Window cells pos (x :: xs)) (hle : xs.length < cells.length) (y : α) :
    Window (cells.set (pos % cells.length) y) (pos + 1) xs := by
  intro i hi
  have hne : pos % cells.length ≠ (pos + 1 + i) % cells.length :=
    mod_ne_of_lt (by omega) (by omega)
  rw [List.length_set, List.getElem?_set_ne hne]
  exact h.drop 1 i hi

/-! ## Runs of cells that do not go around the end -/

theorem set_overwrite (hlt : pos < cells.length) :
    overwrite (cells.set pos x) (pos + 1) xs = overwrite cells pos (x :: xs) := by
  have htake : (cells.set pos x).take (pos + 1) = cells.take pos ++ [x] := by
    have hset : pos < (cells.set pos x).length := by rwa [List.length_set]
    rw [List.take_succ_eq_append_getElem hset, List.getElem_set_self, List.take_set_of_le le_rfl]
  have hdrop : (cells.set pos x).drop (pos + 1 + xs.length) =
      cells.drop (pos + (x :: xs).length) := by
    rw [List.drop_set_of_lt (by omega), List.length_cons]
    congr 1
    omega
  rw [overwrite, overwrite, htake, hdrop]
  simp

/-- A copy into the cells behind the window lengthens it. -/
theorem overwrite_append (h : Window cells pos xs) (ys : List α)
    (hle : xs.length + ys.length ≤ cells.length)
    (hfits : (pos + xs.length) % cells.length + ys.length ≤ cells.length) :
    Window (overwrite cells ((pos + xs.length) % cells.length) ys) pos (xs ++ ys) := by
  induction ys generalizing cells xs with
  | nil => rwa [overwrite_nil, List.append_nil]
  | cons y ys ih =>
    rw [List.length_cons] at hle hfits
    have hcell : (pos + xs.length) % cells.length < cells.length := by omega
    have hset := h.set_snoc (x := y) (by omega)
    rw [← set_overwrite hcell, List.append_cons]
    cases ys with
    | nil => rwa [overwrite_nil, List.append_nil]
    | cons z zs =>
      have hnext : (pos + (xs ++ [y]).length) % cells.length =
          (pos + xs.length) % cells.length + 1 := by
        rw [List.length_append, List.length_singleton, ← Nat.add_assoc, Nat.add_mod]
        rw [List.length_cons] at hfits hle
        rw [Nat.mod_eq_of_lt (a := 1) (by omega), Nat.mod_eq_of_lt (by omega)]
      have hrun := ih hset (by simpa [Nat.add_assoc, Nat.add_comm 1] using hle)
      rw [List.length_set, hnext] at hrun
      exact hrun (by omega)

/-- A copy that goes on in the first cells, behind the end of the buffer. -/
theorem overwrite_around (h : Window cells pos xs) (ys zs : List α)
    (hle : xs.length + (ys ++ zs).length ≤ cells.length)
    (hend : (pos + xs.length) % cells.length + ys.length = cells.length) :
    Window (overwrite (overwrite cells ((pos + xs.length) % cells.length) ys) 0 zs) pos
      (xs ++ (ys ++ zs)) := by
  rw [List.length_append] at hle
  have hone := h.overwrite_append ys (by omega) hend.le
  have hlen : (overwrite cells ((pos + xs.length) % cells.length) ys).length = cells.length :=
    length_overwrite hend.le
  have hzero : (pos + (xs ++ ys).length) % cells.length = 0 := by
    rw [List.length_append, ← Nat.add_assoc, ← Nat.mod_add_mod, hend, Nat.mod_self]
  have htwo := hone.overwrite_append zs (by rw [hlen, List.length_append]; omega)
    (by rw [hlen, hzero]; omega)
  rwa [hlen, hzero, List.append_assoc] at htwo

/-- A store over the first cells of the window shortens it. -/
theorem overwrite_drop (h : Window cells pos xs) (hle : xs.length ≤ cells.length) {k : Nat}
    (hk : k ≤ xs.length) (hfits : pos % cells.length + k ≤ cells.length) (y : α) :
    Window (overwrite cells (pos % cells.length) (List.replicate k y)) (pos + k) (xs.drop k) := by
  induction k generalizing cells pos xs with
  | zero => rwa [List.replicate_zero, overwrite_nil, List.drop_zero]
  | succ k ih =>
    cases xs with
    | nil => simp at hk
    | cons x xs =>
      rw [List.length_cons] at hk hle
      have hset := h.set_head (by omega) y
      rw [List.replicate_succ, ← set_overwrite (by omega), List.drop_succ_cons]
      rcases Nat.eq_zero_or_pos k with rfl | hpos
      · rwa [List.replicate_zero, overwrite_nil, List.drop_zero]
      · have hnext : (pos + 1) % cells.length = pos % cells.length + 1 := by
          rw [Nat.add_mod, Nat.mod_eq_of_lt (a := 1) (by omega), Nat.mod_eq_of_lt (by omega)]
        have hrun := ih hset (by rw [List.length_set]; omega) (by omega)
        rw [List.length_set, hnext] at hrun
        rw [Nat.add_comm k 1, ← Nat.add_assoc]
        exact hrun (by omega)

/-- A store over the first cells that goes on behind the end of the buffer. -/
theorem overwrite_drop_around (h : Window cells pos xs) (hle : xs.length ≤ cells.length) {j k : Nat}
    (hk : j + k ≤ xs.length) (hend : pos % cells.length + j = cells.length) (y : α) :
    Window (overwrite (overwrite cells (pos % cells.length) (List.replicate j y)) 0
      (List.replicate k y)) (pos + (j + k)) (xs.drop (j + k)) := by
  have hone := h.overwrite_drop hle (k := j) (by omega) hend.le y
  have hlen : (overwrite cells (pos % cells.length) (List.replicate j y)).length = cells.length :=
    length_overwrite (by rw [List.length_replicate]; exact hend.le)
  have hzero : (pos + j) % cells.length = 0 := by rw [← Nat.mod_add_mod, hend, Nat.mod_self]
  have htwo := hone.overwrite_drop (k := k) (by rw [hlen, List.length_drop]; omega)
    (by rw [List.length_drop]; omega) (by rw [hlen, hzero]; omega) y
  rwa [hlen, hzero, List.drop_drop, Nat.add_assoc] at htwo

/-- The cells from the head of the window on hold its first items. -/
theorem take_drop (h : Window cells pos xs) {k : Nat} (hk : k ≤ xs.length)
    (hfits : pos % cells.length + k ≤ cells.length) :
    (cells.drop (pos % cells.length)).take k = xs.take k := by
  refine List.ext_getElem? fun i => ?_
  by_cases hi : i < k
  · have hcell : (pos + i) % cells.length = pos % cells.length + i := by
      rw [Nat.add_mod, Nat.mod_eq_of_lt (a := i) (by omega), Nat.mod_eq_of_lt (by omega)]
    rw [List.getElem?_take_of_lt hi, List.getElem?_take_of_lt hi, List.getElem?_drop, ← hcell,
      h i (by omega), List.getElem?_eq_getElem]
  · rw [List.getElem?_eq_none, List.getElem?_eq_none]
    · rw [List.length_take]
      omega
    · rw [List.length_take]
      omega

/-- The items that go on in the first cells, behind the end of the buffer. -/
theorem take_drop_around (h : Window cells pos xs) {j k : Nat} (hk : j + k ≤ xs.length)
    (hle : xs.length ≤ cells.length) (hend : pos % cells.length + j = cells.length) :
    (cells.drop (pos % cells.length)).take j ++ (cells.drop 0).take k = xs.take (j + k) := by
  have hzero : (pos + j) % cells.length = 0 := by rw [← Nat.mod_add_mod, hend, Nat.mod_self]
  have hback := (h.drop j).take_drop (k := k) (by rw [List.length_drop]; omega)
    (by rw [hzero]; omega)
  rw [hzero] at hback
  rw [h.take_drop (by omega) hend.le, hback, List.take_add]

end Window

end YModem.Lib
