import Mathlib.Logic.Function.Iterate
import YModem.UartAxi.Stall

/-!
# What the tasklet writes to the holding register

`uart_tasklet_func` by itself, with whatever the line status register answers: `answers n` is the
result of the `n`-th call of `tx_ready` in the run. The loop of `uart_send` writes its byte as often
as the transmitter is ready, and not at all if it is not ready at first.
-/

namespace YModem.UartAxi

open YModem.Lib

/-- A run of the tasklet. -/
structure Transmit where
  out_fifo : List UInt8
  tasklet : Tasklet
  /-- The calls of `tx_ready` so far. -/
  polls : Nat
  /-- What `kfifo_out` has delivered. -/
  dequeued : List UInt8
  /-- The values written to the holding register. -/
  thr : List UInt8
deriving DecidableEq, Repr

/-- In `uart_send`. -/
def Tasklet.sending : Tasklet → Bool
  | .sendReady _ | .sendWrite _ => true
  | _ => false

/-- Before a call of `tx_ready`. -/
def Tasklet.asks : Tasklet → Bool
  | .whileReady | .sendReady _ => true
  | _ => false

namespace Transmit

def start (out_fifo : List UInt8) : Transmit := ⟨out_fifo, .whileNotEmpty, 0, [], []⟩

/-- One access. -/
def step (answers : Nat → Bool) (t : Transmit) : Transmit :=
  match t.tasklet with
  | .idle => t
  | .whileNotEmpty =>
    if t.out_fifo.isEmpty then { t with tasklet := .wake } else { t with tasklet := .whileReady }
  | .whileReady =>
    if answers t.polls then { t with polls := t.polls + 1, tasklet := .out }
    else { t with polls := t.polls + 1, tasklet := .wake }
  | .out =>
    match t.out_fifo with
    | [] => { t with tasklet := .whileNotEmpty }
    | data :: out_fifo => { t with
        out_fifo := out_fifo
        dequeued := t.dequeued ++ [data]
        tasklet := .sendReady data }
  | .sendReady data =>
    if answers t.polls then { t with polls := t.polls + 1, tasklet := .sendWrite data }
    else { t with polls := t.polls + 1, tasklet := .whileNotEmpty }
  | .sendWrite data => { t with thr := t.thr ++ [data], tasklet := .sendReady data }
  | .wake => { t with tasklet := .idle }

/-- The first `n` accesses of a run. -/
def run (out_fifo : List UInt8) (answers : Nat → Bool) (n : Nat) : Transmit :=
  (step answers)^[n] (start out_fifo)

end Transmit

/-- What has been written is what has been dequeued, but for the byte that `uart_send` has not
written yet. -/
def TransmitsOnce (out_fifo : List UInt8) (answers : Nat → Bool) : Prop :=
  ∀ n, (Transmit.run out_fifo answers n).thr <+: (Transmit.run out_fifo answers n).dequeued ∧
    ((Transmit.run out_fifo answers n).tasklet.sending = false →
      (Transmit.run out_fifo answers n).thr = (Transmit.run out_fifo answers n).dequeued)

/-- The `k`-th call of `uart_send`, when all calls before it have polled twice, finds the
transmitter ready and then not ready. -/
def Paced (out_fifo : List UInt8) (answers : Nat → Bool) : Prop :=
  ∀ k < out_fifo.length, (∀ j ≤ k, answers (3 * j) = true) →
    answers (3 * k + 1) = true ∧ answers (3 * k + 2) = false

section

variable {out_fifo : List UInt8} {answers : Nat → Bool} {k : Nat} {data : UInt8} {t : Transmit}

/-! ## The accesses of one turn of the loop -/

/-- Before the condition of the loop, with `k` bytes sent. -/
def atLoop (out_fifo : List UInt8) (k : Nat) : Transmit :=
  ⟨out_fifo.drop k, .whileNotEmpty, 3 * k, out_fifo.take k, out_fifo.take k⟩

/-- Before the second part of the condition. -/
def atReady (out_fifo : List UInt8) (k : Nat) : Transmit :=
  ⟨out_fifo.drop k, .whileReady, 3 * k, out_fifo.take k, out_fifo.take k⟩

/-- Before `kfifo_out`. -/
def atOut (out_fifo : List UInt8) (k : Nat) : Transmit :=
  ⟨out_fifo.drop k, .out, 3 * k + 1, out_fifo.take k, out_fifo.take k⟩

/-- At the start of `uart_send`. -/
def inSend (out_fifo : List UInt8) (k : Nat) (data : UInt8) : Transmit :=
  ⟨out_fifo.drop (k + 1), .sendReady data, 3 * k + 1, out_fifo.take k ++ [data], out_fifo.take k⟩

/-- Before `iowrite32`. -/
def inWrite (out_fifo : List UInt8) (k : Nat) (data : UInt8) : Transmit :=
  ⟨out_fifo.drop (k + 1), .sendWrite data, 3 * k + 2, out_fifo.take k ++ [data], out_fifo.take k⟩

/-- Behind it. -/
def written (out_fifo : List UInt8) (k : Nat) (data : UInt8) : Transmit :=
  ⟨out_fifo.drop (k + 1), .sendReady data, 3 * k + 2, out_fifo.take k ++ [data],
    out_fifo.take k ++ [data]⟩

theorem step_atLoop (hk : k < out_fifo.length) :
    (atLoop out_fifo k).step answers = atReady out_fifo k := by
  simp [Transmit.step, atLoop, atReady, hk]

theorem step_atReady (h : answers (3 * k) = true) :
    (atReady out_fifo k).step answers = atOut out_fifo k := by
  simp [Transmit.step, atReady, atOut, h]

theorem step_atOut (hk : k < out_fifo.length) :
    (atOut out_fifo k).step answers = inSend out_fifo k out_fifo[k] := by
  simp only [Transmit.step, atOut, inSend, List.drop_eq_getElem_cons hk]

theorem step_inSend (h : answers (3 * k + 1) = true) :
    (inSend out_fifo k data).step answers = inWrite out_fifo k data := by
  simp [Transmit.step, inSend, inWrite, h]

theorem step_inWrite : (inWrite out_fifo k data).step answers = written out_fifo k data := rfl

theorem step_written (hk : k < out_fifo.length) (h : answers (3 * k + 2) = false) :
    (written out_fifo k out_fifo[k]).step answers = atLoop out_fifo (k + 1) := by
  simp [Transmit.step, written, atLoop, h, Nat.mul_succ]

/-! ## Every byte once -/

/-- The states of a run in which every byte is sent once. -/
inductive OnPace (out_fifo : List UInt8) (answers : Nat → Bool) : Transmit → Prop where
  | loop (k : Nat) (hready : ∀ j < k, answers (3 * j) = true) :
      OnPace out_fifo answers (atLoop out_fifo k)
  | ready (k : Nat) (hk : k < out_fifo.length) (hready : ∀ j < k, answers (3 * j) = true) :
      OnPace out_fifo answers (atReady out_fifo k)
  | out (k : Nat) (hk : k < out_fifo.length) (hready : ∀ j ≤ k, answers (3 * j) = true) :
      OnPace out_fifo answers (atOut out_fifo k)
  | send (k : Nat) (hk : k < out_fifo.length) (hready : ∀ j ≤ k, answers (3 * j) = true) :
      OnPace out_fifo answers (inSend out_fifo k out_fifo[k])
  | write (k : Nat) (hk : k < out_fifo.length) (hready : ∀ j ≤ k, answers (3 * j) = true) :
      OnPace out_fifo answers (inWrite out_fifo k out_fifo[k])
  | again (k : Nat) (hk : k < out_fifo.length) (hready : ∀ j ≤ k, answers (3 * j) = true) :
      OnPace out_fifo answers (written out_fifo k out_fifo[k])
  | done (t : Transmit) (htasklet : t.tasklet = .wake ∨ t.tasklet = .idle)
      (hthr : t.thr = t.dequeued) : OnPace out_fifo answers t

theorem OnPace.step (hp : Paced out_fifo answers) (h : OnPace out_fifo answers t) :
    OnPace out_fifo answers (t.step answers) := by
  cases h with
  | loop k hready =>
    by_cases hk : k < out_fifo.length
    · rw [step_atLoop hk]
      exact .ready k hk hready
    · refine .done _ (.inl ?_) ?_
      all_goals simp [Transmit.step, atLoop, Nat.le_of_not_lt hk]
  | ready k hk hready =>
    cases hanswer : answers (3 * k) with
    | true =>
      rw [step_atReady hanswer]
      refine .out k hk fun j hj => ?_
      rcases Nat.lt_or_eq_of_le hj with hlt | rfl
      · exact hready j hlt
      · exact hanswer
    | false =>
      refine .done _ (.inl ?_) ?_
      all_goals simp [Transmit.step, atReady, hanswer]
  | out k hk hready =>
    rw [step_atOut hk]
    exact .send k hk hready
  | send k hk hready =>
    rw [step_inSend (hp k hk hready).1]
    exact .write k hk hready
  | write k hk hready =>
    rw [step_inWrite]
    exact .again k hk hready
  | again k hk hready =>
    rw [step_written hk (hp k hk hready).2]
    exact .loop (k + 1) fun j hj => hready j (Nat.le_of_lt_succ hj)
  | done t htasklet hthr =>
    rcases htasklet with h | h
    · refine .done _ (.inr ?_) ?_
      all_goals simp [Transmit.step, h, hthr]
    · refine .done _ (.inr ?_) ?_
      all_goals simp [Transmit.step, h, hthr]

theorem run_succ (n : Nat) : Transmit.run out_fifo answers (n + 1) =
    (Transmit.run out_fifo answers n).step answers :=
  Function.iterate_succ_apply' _ _ _

theorem onPace_run (hp : Paced out_fifo answers) (n : Nat) :
    OnPace out_fifo answers (Transmit.run out_fifo answers n) := by
  induction n with
  | zero => exact .loop 0 fun j hj => absurd hj (Nat.not_lt_zero j)
  | succ n ih =>
    rw [run_succ]
    exact ih.step hp

/-- What a run on pace has written. -/
theorem OnPace.once (h : OnPace out_fifo answers t) :
    t.thr <+: t.dequeued ∧ (t.tasklet.sending = false → t.thr = t.dequeued) := by
  cases h with
  | loop | ready | out => exact ⟨List.prefix_rfl, fun _ => rfl⟩
  | send | write => exact ⟨List.prefix_append _ _, nofun⟩
  | again => exact ⟨List.prefix_rfl, fun _ => rfl⟩
  | done t _ hthr => exact ⟨hthr ▸ List.prefix_rfl, fun _ => hthr⟩

/-! ## The first byte that is repeated or lost -/

/-- A state that the run comes to. -/
def Reached (out_fifo : List UInt8) (answers : Nat → Bool) (t : Transmit) : Prop :=
  ∃ n, Transmit.run out_fifo answers n = t

theorem Reached.step (h : Reached out_fifo answers t) :
    Reached out_fifo answers (t.step answers) := by
  obtain ⟨n, rfl⟩ := h
  exact ⟨n + 1, run_succ n⟩

theorem Reached.inSend (h : Reached out_fifo answers (atLoop out_fifo k))
    (hk : k < out_fifo.length) (hready : answers (3 * k) = true) :
    Reached out_fifo answers (inSend out_fifo k out_fifo[k]) := by
  have h := h.step.step.step
  rwa [step_atLoop hk, step_atReady hready, step_atOut hk] at h

theorem Reached.written (h : Reached out_fifo answers (YModem.UartAxi.inSend out_fifo k data))
    (hfirst : answers (3 * k + 1) = true) :
    Reached out_fifo answers (written out_fifo k data) := by
  have h := h.step.step
  rwa [step_inSend hfirst, step_inWrite] at h

theorem TransmitsOnce.reached (h : TransmitsOnce out_fifo answers)
    (ht : Reached out_fifo answers t) :
    t.thr <+: t.dequeued ∧ (t.tasklet.sending = false → t.thr = t.dequeued) := by
  obtain ⟨n, rfl⟩ := ht
  exact h n

/-- A byte for which `uart_send` does not find the transmitter ready is lost. -/
theorem TransmitsOnce.first_ready (h : TransmitsOnce out_fifo answers)
    (ht : Reached out_fifo answers (inSend out_fifo k data)) : answers (3 * k + 1) = true := by
  by_contra hnot
  have hlost := (h.reached ht.step).2
  simp [Transmit.step, inSend, hnot, Tasklet.sending] at hlost

/-- A byte for which it finds the transmitter ready twice is repeated. -/
theorem TransmitsOnce.second_busy (h : TransmitsOnce out_fifo answers)
    (ht : Reached out_fifo answers (written out_fifo k data)) : answers (3 * k + 2) = false := by
  by_contra hready
  rw [Bool.not_eq_false] at hready
  have htwice := (h.reached ht.step.step).1.length_le
  simp [Transmit.step, written, hready] at htwice

theorem TransmitsOnce.paced (h : TransmitsOnce out_fifo answers) : Paced out_fifo answers := by
  have hround (k : Nat) (hk : k ≤ out_fifo.length) (hready : ∀ j < k, answers (3 * j) = true) :
      Reached out_fifo answers (atLoop out_fifo k) := by
    induction k with
    | zero => exact ⟨0, rfl⟩
    | succ k ih =>
      have hloop := ih (Nat.le_of_succ_le hk) fun j hj => hready j (Nat.lt_succ_of_lt hj)
      have hsend := hloop.inSend hk (hready k (Nat.lt_succ_self k))
      have hwritten := hsend.written (h.first_ready hsend)
      have hnext := hwritten.step
      rwa [step_written hk (h.second_busy hwritten)] at hnext
  intro k hk hready
  have hloop := hround k (Nat.le_of_lt hk) fun j hj => hready j (Nat.le_of_lt hj)
  have hsend := hloop.inSend hk (hready k (Nat.le_refl k))
  exact ⟨h.first_ready hsend, h.second_busy (hsend.written (h.first_ready hsend))⟩

/-- **When each byte is transmitted exactly once**, for any queue and any answers. -/
theorem transmits_once_iff (out_fifo : List UInt8) (answers : Nat → Bool) :
    TransmitsOnce out_fifo answers ↔ Paced out_fifo answers :=
  ⟨TransmitsOnce.paced, fun hp n => (onPace_run hp n).once⟩

end

/-- A transmitter that is ready three times gets the byte twice. -/
theorem ready_transmitter_repeats :
    (Transmit.run [0x41] (fun n => decide (n < 3)) 9).tasklet = .wake ∧
    (Transmit.run [0x41] (fun n => decide (n < 3)) 9).dequeued = [0x41] ∧
    (Transmit.run [0x41] (fun n => decide (n < 3)) 9).thr = [0x41, 0x41] ∧
    ¬ TransmitsOnce [0x41] (fun n => decide (n < 3)) := by
  refine ⟨by decide, by decide, by decide, fun h => ?_⟩
  exact absurd (h 9).1 (by decide)

/-! ## The tasklet in the driver -/

section

variable {out_fifo : List UInt8} {answers answers' : Nat → Bool} {n : Nat} {t : Transmit}
  {before : List UInt8} {u u' : Uart} {e : Event} {es : List Event}

/-- The driver in a run of its tasklet, which has found `before` in the holding register. -/
structure Mirrors (before : List UInt8) (t : Transmit) (u : Uart) : Prop where
  out_fifo : u.out_fifo = t.out_fifo
  tasklet : u.tasklet = t.tasklet
  thr : u.thr = before ++ t.thr

/-- Neither another write to the queue nor another start of the tasklet. -/
def Event.leavesQueue : Event → Bool
  | .copies _ | .starts => false
  | _ => true

/-- One access, with the answer that the UART gives. -/
theorem Mirrors.access (h : Mirrors before t u) (hanswer : answers t.polls = u.tx_ready)
    (hstep : u.uart_tasklet_func = some u') : Mirrors before (t.step answers) u' := by
  obtain ⟨hfifo, htasklet, hthr⟩ := h
  unfold Uart.uart_tasklet_func at hstep
  unfold Transmit.step
  cases hpc : t.tasklet with
  | idle =>
    rw [htasklet, hpc] at hstep
    cases hstep
  | whileNotEmpty =>
    simp only [htasklet, hpc, hfifo] at hstep ⊢
    split_ifs at hstep ⊢
    all_goals
      cases hstep
      exact ⟨rfl, rfl, hthr⟩
  | whileReady =>
    simp only [htasklet, hpc, hanswer] at hstep ⊢
    split_ifs at hstep ⊢
    all_goals
      cases hstep
      exact ⟨hfifo, rfl, hthr⟩
  | out =>
    simp only [htasklet, hpc, hfifo] at hstep ⊢
    cases hqueue : t.out_fifo with
    | nil =>
      rw [hqueue] at hstep
      cases hstep
      exact ⟨rfl, rfl, hthr⟩
    | cons data rest =>
      rw [hqueue] at hstep
      cases hstep
      exact ⟨rfl, rfl, hthr⟩
  | sendReady data =>
    simp only [htasklet, hpc, hanswer] at hstep ⊢
    split_ifs at hstep ⊢
    all_goals
      cases hstep
      exact ⟨hfifo, rfl, hthr⟩
  | sendWrite data =>
    simp only [htasklet, hpc] at hstep ⊢
    cases hstep
    exact ⟨hfifo, rfl, by rw [hthr, List.append_assoc]⟩
  | wake =>
    simp only [htasklet, hpc] at hstep ⊢
    cases hstep
    exact ⟨hfifo, rfl, hthr⟩

/-- Nothing else in the driver touches the tasklet, what it sends and what it has sent. -/
theorem Mirrors.other (h : Mirrors before t u) (he : e.leavesQueue = true) (hne : e ≠ .tasklet)
    (hstep : Steps u e u') : Mirrors before t u' := by
  obtain ⟨hfifo, htasklet, hthr⟩ := h
  unfold Steps at hstep
  cases e with
  | copies _ | starts => cases he
  | tasklet => exact absurd rfl hne
  | writeBegins | writeEnds | interrupt _ | transmitted =>
    simp only [Uart.step] at hstep
    split_ifs at hstep
    all_goals
      cases hstep
      exact ⟨hfifo, htasklet, hthr⟩
  | isr =>
    simp only [Uart.step, Uart.uart_isr] at hstep
    split at hstep
    · cases hstep
    · split_ifs at hstep
      all_goals
        cases hstep
        exact ⟨hfifo, htasklet, hthr⟩
    · split at hstep
      all_goals
        cases hstep
        exact ⟨hfifo, htasklet, hthr⟩
  | received _ =>
    cases hstep
    exact ⟨hfifo, htasklet, hthr⟩

theorem step_polls (t : Transmit) :
    (t.step answers).polls = t.polls + t.tasklet.asks.toNat := by
  unfold Transmit.step
  cases hpc : t.tasklet with
  | whileNotEmpty | whileReady | sendReady _ =>
    simp only
    split_ifs <;> rfl
  | out =>
    cases hqueue : t.out_fifo <;> rfl
  | idle | sendWrite _ | wake => rfl

theorem step_congr (h : t.tasklet.asks = true → answers' t.polls = answers t.polls) :
    t.step answers' = t.step answers := by
  unfold Transmit.step
  cases hpc : t.tasklet with
  | whileReady | sendReady _ =>
    rw [hpc] at h
    simp only [h rfl]
  | idle | whileNotEmpty | out | sendWrite _ | wake => rfl

/-- Only the answers given so far matter. -/
theorem run_congr (h : ∀ i < (Transmit.run out_fifo answers n).polls, answers' i = answers i) :
    Transmit.run out_fifo answers' n = Transmit.run out_fifo answers n := by
  induction n with
  | zero => rfl
  | succ n ih =>
    rw [run_succ, step_polls] at h
    rw [run_succ, run_succ, ih fun i hi => h i (Nat.lt_add_right _ hi)]
    refine step_congr fun hasks => h _ ?_
    rw [hasks]
    exact Nat.lt_succ_self _

/-- **What the driver sends is a run with the answers of its UART.** -/
theorem driver_transmits (h : Run Steps u es u') (hstart : u.tasklet = .whileNotEmpty)
    (hes : ∀ e ∈ es, e.leavesQueue = true) :
    ∃ answers n, Mirrors u.thr (Transmit.run u.out_fifo answers n) u' := by
  refine h.invariant_of_labels
    (I := fun u' => ∃ answers n, Mirrors u.thr (Transmit.run u.out_fifo answers n) u') ?_ hes ?_
  · intro v e v' he hv hstep
    obtain ⟨answers, n, hv⟩ := hv
    by_cases htasklet : e = .tasklet
    · subst htasklet
      let polls := (Transmit.run u.out_fifo answers n).polls
      let answers' (i : Nat) : Bool := if i < polls then answers i else v.tx_ready
      have hrun : Transmit.run u.out_fifo answers' n = Transmit.run u.out_fifo answers n :=
        run_congr fun i hi => if_pos hi
      refine ⟨answers', n + 1, ?_⟩
      rw [run_succ, hrun]
      exact hv.access (if_neg (Nat.lt_irrefl polls)) hstep
    · exact ⟨answers, n, hv.other he htasklet hstep⟩
  · exact ⟨fun _ => false, 0, rfl, hstart, (List.append_nil _).symm⟩

end

end YModem.UartAxi
