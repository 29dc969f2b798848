import Mathlib.Data.List.Basic

/-!
# Condition variables

The threads that wait on a condition variable, in the order in which they began to wait. A
notified waiter stays in the list until it has the mutex again. `notifyOne` wakes one of the
waiters that are asleep; which one is not specified, and a number picks it here.
-/

namespace YModem.Lib

/-- A waiting thread, and whether it has been notified. -/
structure Waiter (α : Type) where
  who : α
  awake : Bool
deriving DecidableEq, Repr

abbrev CondVar (α : Type) := List (Waiter α)

namespace CondVar

variable {α : Type}

def wait (cv : CondVar α) (a : α) : CondVar α := cv ++ [⟨a, false⟩]

def notifyAll (cv : CondVar α) : CondVar α := cv.map fun w => { w with awake := true }

/-- The `k`-th waiter that is asleep is notified. -/
def wakeNth : Nat → CondVar α → CondVar α
  | _, [] => []
  | k, ⟨a, true⟩ :: cv => ⟨a, true⟩ :: wakeNth k cv
  | 0, ⟨a, false⟩ :: cv => ⟨a, true⟩ :: cv
  | k + 1, ⟨a, false⟩ :: cv => ⟨a, false⟩ :: wakeNth k cv

def sleepers (cv : CondVar α) : CondVar α := cv.filter fun w => !w.awake

def notifyOne (pick : Nat) (cv : CondVar α) : CondVar α := wakeNth (pick % (sleepers cv).length) cv

/-- The waiter that satisfies `p`. -/
def waiter (p : α → Bool) (cv : CondVar α) : Option (Waiter α) := cv.find? fun w => p w.who

/-- That waiter has the mutex again. -/
def leave (p : α → Bool) (cv : CondVar α) : CondVar α := cv.eraseP fun w => p w.who

variable {cv : CondVar α} {w : Waiter α}

/-! ## Waiting -/

@[simp] theorem mem_wait {a : α} : w ∈ wait cv a ↔ w ∈ cv ∨ w = ⟨a, false⟩ := by
  simp [wait]

@[simp] theorem map_who_wait (a : α) : (wait cv a).map Waiter.who = cv.map Waiter.who ++ [a] := by
  simp [wait]

/-! ## `notify_all` -/

theorem awake_of_mem_notifyAll (h : w ∈ notifyAll cv) : w.awake = true := by
  obtain ⟨v, -, rfl⟩ := List.mem_map.mp h
  rfl

/-! ## `notify_one` -/

/-- One sleeper is notified, if there is one. -/
theorem wakeNth_spec {k : Nat} (hk : k < (sleepers cv).length) :
    ∃ before a after, cv = before ++ ⟨a, false⟩ :: after ∧
      wakeNth k cv = before ++ ⟨a, true⟩ :: after := by
  induction cv generalizing k with
  | nil => simp [sleepers] at hk
  | cons w cv ih =>
    obtain ⟨a, awake⟩ := w
    cases awake with
    | true =>
      obtain ⟨before, b, after, rfl, hn⟩ := ih (k := k) (by simpa [sleepers] using hk)
      exact ⟨⟨a, true⟩ :: before, b, after, rfl, by rw [wakeNth, hn]; rfl⟩
    | false =>
      cases k with
      | zero => exact ⟨[], a, cv, rfl, rfl⟩
      | succ k =>
        obtain ⟨before, b, after, rfl, hn⟩ := ih (k := k) (by simpa [sleepers] using hk)
        exact ⟨⟨a, false⟩ :: before, b, after, rfl, by rw [wakeNth, hn]; rfl⟩

theorem wakeNth_of_no_sleeper (k : Nat) (h : ∀ w ∈ cv, w.awake = true) : wakeNth k cv = cv := by
  induction cv generalizing k with
  | nil => cases k <;> rfl
  | cons w cv ih =>
    obtain ⟨a, awake⟩ := w
    obtain rfl : awake = true := h _ (List.mem_cons_self ..)
    rw [wakeNth, ih _ fun v hv => h v (List.mem_cons_of_mem _ hv)]

/-- What `notify_one` does: it notifies one sleeper, or there is none. -/
theorem notifyOne_cases (pick : Nat) (cv : CondVar α) :
    (∃ before a after, cv = before ++ ⟨a, false⟩ :: after ∧
      notifyOne pick cv = before ++ ⟨a, true⟩ :: after) ∨
    ((∀ w ∈ cv, w.awake = true) ∧ notifyOne pick cv = cv) := by
  by_cases h : (sleepers cv).length = 0
  · have hall : ∀ w ∈ cv, w.awake = true := by
      simpa [sleepers, List.length_eq_zero_iff, List.filter_eq_nil_iff] using h
    exact .inr ⟨hall, wakeNth_of_no_sleeper _ hall⟩
  · exact .inl (wakeNth_spec (Nat.mod_lt pick (Nat.pos_of_ne_zero h)))

@[simp] theorem map_who_notifyOne (pick : Nat) :
    (notifyOne pick cv).map Waiter.who = cv.map Waiter.who := by
  rcases notifyOne_cases pick cv with ⟨before, a, after, rfl, h⟩ | ⟨-, h⟩
  · simp [h]
  · rw [h]

/-- After `notify_one` somebody is awake, if anybody waits. -/
theorem exists_awake_notifyOne (pick : Nat) (h : w ∈ cv) : ∃ v ∈ notifyOne pick cv, v.awake = true := by
  rcases notifyOne_cases pick cv with ⟨before, a, after, rfl, hn⟩ | ⟨hall, hn⟩
  · exact ⟨⟨a, true⟩, by rw [hn]; simp, rfl⟩
  · exact ⟨w, by rwa [hn], hall w h⟩

/-! ## Going on -/

theorem leave_spec {p : α → Bool} (h : waiter p cv = some w) :
    p w.who = true ∧ ∃ before after, cv = before ++ w :: after ∧ leave p cv = before ++ after := by
  obtain ⟨hp, before, after, rfl, hbefore⟩ := List.find?_eq_some_iff_append.mp h
  refine ⟨hp, before, after, rfl, ?_⟩
  rw [leave, List.eraseP_append_right _ (by simpa using hbefore)]
  exact congrArg (before ++ ·) (List.eraseP_cons_of_pos hp)

end CondVar

end YModem.Lib
