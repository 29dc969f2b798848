import Mathlib.Data.List.Basic

/-!
# A bounded queue

`Fifo` is a queue that never holds more than `cap` items. A push takes as many of the offered
items as there is room for, a pop gives as many of the requested ones as are there.
-/

namespace YModem.Lib

/-- A queue of at most `cap` items, the oldest one first. -/
structure Fifo (α : Type) (cap : Nat) where
  items : List α
  length_le : items.length ≤ cap

namespace Fifo

variable {α : Type} {cap : Nat} (q : Fifo α cap)

def empty : Fifo α cap := ⟨[], Nat.zero_le _⟩

/-- How many items can still be pushed. -/
def room : Nat := cap - q.items.length

def push (xs : List α) : Fifo α cap where
  items := q.items ++ xs.take q.room
  length_le := by
    have hle := q.length_le
    have hroom : q.room = cap - q.items.length := rfl
    rw [List.length_append, List.length_take]
    omega

def pop (n : Nat) : Fifo α cap where
  items := q.items.drop n
  length_le := by
    have hle := q.length_le
    rw [List.length_drop]
    omega

/-- The operations of a user. -/
inductive Call (α : Type) where
  | push (xs : List α)
  | pop (n : Nat)
deriving DecidableEq, Repr

/-- What an operation returns: how many items were taken, or the items given. -/
inductive Result (α : Type) where
  | pushed (k : Nat)
  | popped (xs : List α)
deriving DecidableEq, Repr

def call : Call α → Fifo α cap × Result α
  | .push xs => (q.push xs, .pushed (min xs.length q.room))
  | .pop n => (q.pop n, .popped (q.items.take n))

/-- One operation after the other. -/
def calls : Fifo α cap → List (Call α) → Fifo α cap × List (Result α)
  | q, [] => (q, [])
  | q, e :: es =>
    let (q', r) := q.call e
    let (q'', rs) := q'.calls es
    (q'', r :: rs)

end Fifo

end YModem.Lib
