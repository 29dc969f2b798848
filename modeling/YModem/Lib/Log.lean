import Mathlib.Data.List.Basic
import Mathlib.Data.List.Infix

/-!
# Append-only logs

A property of a log often reads: whenever this entry was made, the log up to there was
such and so. `AtEach` is that statement, and the lemmas here reduce it to the entries
that one step appends.
-/

namespace YModem.Lib

variable {α β : Type} {P : List α → α → Prop}

/-- Each entry of the log, with the entries before it, satisfies `P`. -/
def AtEach (P : List α → α → Prop) (log : List α) : Prop :=
  ∀ before a after, log = before ++ a :: after → P before a

/-- The entries of `new`, appended to `log` one by one, satisfy `P`. -/
def Appends (P : List α → α → Prop) : List α → List α → Prop
  | _, [] => True
  | log, a :: new => P log a ∧ Appends P (log ++ [a]) new

@[simp] theorem appends_nil (log : List α) : Appends P log [] ↔ True := Iff.rfl

@[simp] theorem appends_cons (log : List α) (a : α) (new : List α) :
    Appends P log (a :: new) ↔ P log a ∧ Appends P (log ++ [a]) new := Iff.rfl

@[simp] theorem atEach_nil : AtEach P [] := by
  intro before a after h
  simp at h

theorem atEach_concat {log : List α} {a : α} (h : AtEach P log) (ha : P log a) :
    AtEach P (log ++ [a]) := by
  intro before b after heq
  rcases List.eq_nil_or_concat after with rfl | ⟨after, c, rfl⟩
  · obtain ⟨rfl, rfl⟩ := List.append_singleton_inj.mp heq
    exact ha
  · rw [List.concat_eq_append, ← List.cons_append, ← List.append_assoc] at heq
    obtain ⟨rfl, rfl⟩ := List.append_singleton_inj.mp heq
    exact h before b after rfl

theorem AtEach.init {log new : List α} (h : AtEach P (log ++ new)) : AtEach P log := by
  intro before a after heq
  exact h before a (after ++ new) (by simp [heq])

theorem AtEach.appends {log new : List α} (h : AtEach P (log ++ new)) : Appends P log new := by
  induction new generalizing log with
  | nil => trivial
  | cons a new ih =>
    refine ⟨h log a new rfl, ih ?_⟩
    rwa [List.append_assoc, List.singleton_append]

/-- A longer log needs a look at the new entries only. -/
@[simp] theorem atEach_append {log new : List α} :
    AtEach P (log ++ new) ↔ AtEach P log ∧ Appends P log new := by
  refine ⟨fun h => ⟨h.init, h.appends⟩, fun ⟨h, hnew⟩ => ?_⟩
  clear * - h hnew
  induction new generalizing log with
  | nil => simpa using h
  | cons a new ih =>
    rw [← List.singleton_append, ← List.append_assoc]
    exact ih (atEach_concat h hnew.1) hnew.2

/-- A log of entries that are all new. -/
theorem atEach_iff_appends {log : List α} : AtEach P log ↔ Appends P [] log := by
  have h := @atEach_append α P [] log
  simpa using h

end YModem.Lib
