import Mathlib.Data.List.TakeWhile
import YModem.Peer.Base

/-!
# `ReceiverY::purge` against a line with a clock

`purge` is to read and discard what comes until the line has been quiet for a while. The
medium is given here by the bytes that have not been read, each with the tenth of a second in
which it comes in; `reading` is the member function of `socketInfoClass` for one reader, with
the time that its wait takes.
-/

namespace YModem.Receiver

open YModem.Peer

/-- A byte, and the tenth of a second in which it comes in. -/
structure Arrival where
  time : Nat
  byte : UInt8
deriving DecidableEq, Repr

/-- The bytes that have not been read, in the order in which they come in. -/
structure Line where
  now : Nat
  arriving : List Arrival
  ordered : arriving.Pairwise (·.time ≤ ·.time)

namespace Line

variable (n min time : Nat) (l : Line)

/-- What `totalWritten` counts: the bytes that have come in. -/
def waiting : List Arrival := l.arriving.takeWhile (·.time ≤ l.now)

/-- `read` of up to `n` of the bytes that have come in. -/
def read : List UInt8 × Line :=
  let bytesRead := Nat.min n l.waiting.length
  ((l.arriving.take bytesRead).map (·.byte), { l with
    arriving := l.arriving.drop bytesRead
    ordered := l.ordered.drop })

/-- When `cvRead.wait_for` returns: `min` bytes have come in, or the time is over. -/
def waitEnd : Nat :=
  match l.arriving[min - 1]? with
  | some a => Nat.min a.time (l.now + time)
  | none => l.now + time

/-- `reading`, with its two paths. -/
def reading : List UInt8 × Line :=
  if min ≤ l.waiting.length then l.read n
  else read n { l with now := l.waitEnd min time }

end Line

/-- What `myReadcond` leaves in `errno` when it returns -1. -/
inductive Errno where
  | EWOULDBLOCK
  | EAGAIN
  | EINTR
  | other
deriving DecidableEq, Repr

/-- `purge`. The calls of `myReadcond` that fail before the first one that does not are given
by what they leave in `errno`. -/
def purge : List Errno → Line → Line
  | .other :: _, l => l
  | _ :: errs, l => purge errs l
  | [], l => (l.reading BUF_SZ 10 5).2

/-- The time at which the last of the pending data comes in. -/
def lastIn (l : Line) (pending : List Arrival) : Nat :=
  pending.foldl (fun t a => Nat.max t a.time) l.now

/-- What `purge` is for: everything pending has been read, in order, and then a whole `timeout`
has passed in which nothing came in. -/
structure Emptied (l l' : Line) (pending later : List Arrival) (timeout : Nat) : Prop where
  read : l'.arriving <:+ later
  quiet : ∃ t, lastIn l pending ≤ t ∧ t + timeout ≤ l'.now ∧
    ∀ a ∈ l.arriving, ¬(t < a.time ∧ a.time < t + timeout)

section

variable {l : Line} {pending later : List Arrival} {timeout : Nat}

/-- Failures that are not fatal change nothing. -/
theorem purge_retries {errs : List Errno} (h : .other ∉ errs) : purge errs l = purge [] l := by
  induction errs with
  | nil => rfl
  | cons e errs ih =>
    rw [List.mem_cons, not_or] at h
    cases e with
    | other => exact absurd rfl h.1
    | EWOULDBLOCK => exact ih h.2
    | EAGAIN => exact ih h.2
    | EINTR => exact ih h.2

/-- The pending data is all in at time `u`. -/
theorem lastIn_le_iff {u : Nat} :
    lastIn l pending ≤ u ↔ l.now ≤ u ∧ ∀ a ∈ pending, a.time ≤ u := by
  unfold lastIn
  generalize l.now = t
  induction pending generalizing t with
  | nil => simp
  | cons a pending ih =>
    rw [List.foldl_cons, ih, List.forall_mem_cons, ← and_assoc]
    exact and_congr_left fun _ => Nat.max_le

theorem now_le_lastIn (l : Line) (pending : List Arrival) : l.now ≤ lastIn l pending :=
  (lastIn_le_iff.mp (Nat.le_refl _)).1

theorem time_le_lastIn {a : Arrival} (h : a ∈ pending) : a.time ≤ lastIn l pending :=
  (lastIn_le_iff.mp (Nat.le_refl _)).2 a h

/-! ## The read -/

/-- The time at which the read of `purge` returns. -/
theorem reading_now (n min time : Nat) (l : Line) : (l.reading n min time).2.now =
    if min ≤ l.waiting.length then l.now else l.waitEnd min time := by
  unfold Line.reading
  split <;> rfl

/-- What is left is what had not come in by then, and what the buffer does not hold. -/
theorem reading_arriving (n min time : Nat) (l : Line) : (l.reading n min time).2.arriving =
    l.arriving.drop (Nat.min n
      (l.arriving.takeWhile (·.time ≤ (l.reading n min time).2.now)).length) := by
  unfold Line.reading
  split <;> rfl

/-- The read waits for no longer than its time. -/
theorem reading_now_le (n min time : Nat) (l : Line) :
    (l.reading n min time).2.now ≤ l.now + time := by
  rw [reading_now]
  split
  · exact Nat.le_add_right _ _
  · unfold Line.waitEnd
    split
    · exact Nat.min_le_right _ _
    · exact Nat.le_refl _

/-- The byte that makes up the minimum ends the wait. -/
theorem reading_now_le_time {n min time : Nat} {a : Arrival}
    (ha : l.arriving[min - 1]? = some a) :
    (l.reading n min time).2.now ≤ Nat.max l.now a.time := by
  rw [reading_now]
  split
  · exact Nat.le_max_left _ _
  · rw [Line.waitEnd, ha]
    exact Nat.le_trans (Nat.min_le_left _ _) (Nat.le_max_right _ _)

/-- Nothing but that byte and the time ends the wait. -/
theorem le_reading_now {n min time u : Nat} (hmin : 0 < min) (hnow : l.now < u)
    (hle : u ≤ l.now + time) (h : ∀ a, l.arriving[min - 1]? = some a → u ≤ a.time) :
    u ≤ (l.reading n min time).2.now := by
  rw [reading_now]
  split
  · next hw =>
    -- the byte at `min - 1` is among those that are waiting, and came in too early for that
    have hi : min - 1 < l.waiting.length := by omega
    have hpre : l.waiting <+: l.arriving := List.takeWhile_prefix _
    have hget : l.arriving[min - 1]? = some l.waiting[min - 1] := by
      rw [hpre.getElem hi]
      exact List.getElem?_eq_getElem (Nat.lt_of_lt_of_le hi hpre.length_le)
    have hle' : l.waiting[min - 1].time ≤ l.now :=
      of_decide_eq_true (List.mem_takeWhile_imp (l := l.arriving) (List.getElem_mem hi))
    have := h _ hget
    omega
  · unfold Line.waitEnd
    split
    · next a ha => exact Nat.le_min.mpr ⟨h a ha, hle⟩
    · exact hle

/-! ## The line is empty -/

/-- In terms of what the read leaves and of the time at which it returns. -/
theorem emptied_iff {l' : Line} {k : Nat} (hl : l.arriving = pending ++ later)
    (hl' : l'.arriving = l.arriving.drop k) (hk : k ≤ l.arriving.length)
    (hq : ∀ a ∈ later, lastIn l pending + timeout ≤ a.time) :
    Emptied l l' pending later timeout ↔
      pending.length ≤ k ∧ lastIn l pending + timeout ≤ l'.now := by
  constructor
  · rintro ⟨hread, t, ht, hlt, -⟩
    refine ⟨?_, by omega⟩
    have := hread.length_le
    rw [hl', List.length_drop] at this
    rw [hl, List.length_append] at this hk
    omega
  · rintro ⟨hle, hnow⟩
    refine ⟨?_, lastIn l pending, Nat.le_refl _, hnow, fun a ha => ?_⟩
    · rw [hl', hl, List.drop_append, List.drop_eq_nil_of_le hle, List.nil_append]
      exact List.drop_suffix _ _
    · rw [hl, List.mem_append] at ha
      rcases ha with ha | ha
      · have := time_le_lastIn (l := l) ha
        omega
      · have := hq a ha
        omega

/-- The character timeout passes with nothing received after the pending data. `purge` empties
the line exactly when less than its minimum of bytes is pending and the timeout ends within the
time that it waits. -/
theorem purge_empties_iff (errs : List Errno) (l : Line) (pending later : List Arrival)
    (timeout : Nat) (herrs : .other ∉ errs) (hl : l.arriving = pending ++ later)
    (ht : 0 < timeout) (hq : ∀ a ∈ later, lastIn l pending + timeout ≤ a.time) :
    Emptied l (purge errs l) pending later timeout ↔
      pending.length < 10 ∧ lastIn l pending + timeout ≤ l.now + 5 := by
  rw [purge_retries herrs]
  have hk := Nat.le_trans (Nat.min_le_right BUF_SZ _) (List.takeWhile_prefix
    (fun a : Arrival => a.time ≤ (l.reading BUF_SZ 10 5).2.now) (l := l.arriving)).length_le
  change Emptied l (l.reading BUF_SZ 10 5).2 pending later timeout ↔ _
  rw [emptied_iff hl (reading_arriving BUF_SZ 10 5 l) hk hq]
  constructor
  · rintro ⟨-, hnow⟩
    have htime := reading_now_le BUF_SZ 10 5 l
    refine ⟨?_, hnow.trans htime⟩
    by_contra hlen
    -- the tenth byte is pending, and the read returns when it is in
    have hi : 9 < pending.length := by omega
    have hget : l.arriving[9]? = some pending[9] := by
      rw [hl, List.getElem?_append_left hi, List.getElem?_eq_getElem hi]
    have hle := @reading_now_le_time l BUF_SZ 10 5 _ hget
    have hmax := Nat.max_le.mpr
      ⟨now_le_lastIn l pending, time_le_lastIn (List.getElem_mem hi)⟩
    have := hnow.trans (hle.trans hmax)
    omega
  · rintro ⟨hlen, hin⟩
    have hnow : lastIn l pending + timeout ≤ (l.reading BUF_SZ 10 5).2.now := by
      have hlast := now_le_lastIn l pending
      refine le_reading_now (by decide) (by omega) hin fun a ha => hq a ?_
      rw [hl, List.getElem?_append_right (by omega)] at ha
      exact List.mem_of_getElem? ha
    have hbuf : BUF_SZ = 163 := rfl
    refine ⟨Nat.le_min.mpr ⟨by omega, ?_⟩, hnow⟩
    -- all that is pending has come in by then
    rw [hl, List.takeWhile_append_of_pos, List.length_append]
    · exact Nat.le_add_right _ _
    · intro a ha
      have := time_le_lastIn (l := l) ha
      exact decide_eq_true (by omega)

end

/-- Three bytes in two bursts, a signal in between, and nothing for a character timeout. -/
theorem purge_empties_two_bursts :
    let pending : List Arrival := [⟨0, SOH⟩, ⟨0, 0x00⟩, ⟨1, 0xFF⟩]
    let l : Line := ⟨0, pending ++ [⟨4, SOH⟩], by decide⟩
    Emptied l (purge [.EINTR] l) pending [⟨4, SOH⟩] 2 :=
  (purge_empties_iff [.EINTR] _ _ [⟨4, SOH⟩] 2 (by decide) rfl (by decide) (by decide)).mpr
    (by decide)

/-- A block and what a glitch adds to it, one byte more than the buffer holds: the read returns
at once, and a byte stays on the line. -/
theorem purge_leaves_byte :
    let pending : List Arrival := List.replicate (BUF_SZ + 1) ⟨0, 0x55⟩
    let l : Line := ⟨0, pending, List.pairwise_replicate.mpr (.inr (Nat.le_refl 0))⟩
    (purge [] l).arriving = [⟨0, 0x55⟩] ∧ (purge [] l).now = 0 ∧
      ¬ Emptied l (purge [] l) pending [] 2 := by
  intro pending l
  have hleft : (purge [] l).arriving = [⟨0, 0x55⟩] := by decide +kernel
  refine ⟨hleft, by decide +kernel, fun h => ?_⟩
  have := h.read.length_le
  rw [hleft] at this
  contradiction

end YModem.Receiver
