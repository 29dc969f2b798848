import YModem.MyIO.Counters

/-!
# Delivery up to the end of the stream

The bytes that the reads return are, in order, the bytes that the writes have accepted. A
call that finds the paired descriptor closed returns 0 without a look at the bytes that are
still queued: a reader misses none exactly when no call finds both.
-/

namespace YModem.MyIO

open YModem.Lib YModem.Peer

/-- The bytes that the writes have accepted. -/
def accepted (returns : List Return) : List UInt8 :=
  returns.flatMap fun
    | .wrote bytes => bytes
    | _ => []

/-- The bytes that the reads have returned. -/
def delivered (returns : List Return) : List UInt8 :=
  returns.flatMap fun
    | .read _ bytes => bytes
    | _ => []

@[simp] theorem accepted_append (returns new : List Return) :
    accepted (returns ++ new) = accepted returns ++ accepted new := List.flatMap_append

@[simp] theorem delivered_append (returns new : List Return) :
    delivered (returns ++ new) = delivered returns ++ delivered new := List.flatMap_append

/-- What a step does to the bytes that the kernel holds and to the record of returns. -/
inductive Moves (e : Event) (m m' : SocketInfo) : Prop where
  | none (hq : m'.queue = m.queue) (hr : m'.returns = m.returns)
  | logs (ret : Return) (hacc : accepted [ret] = []) (hdel : delivered [ret] = [])
      (hno : ∀ r, ret ≠ .read r []) (hq : m'.queue = m.queue) (hr : m'.returns = m.returns ++ [ret])
  | takesIn (bytes : List UInt8) (hp : m.pair ≠ -1) (hq : m'.queue = m.queue ++ bytes)
      (hr : m'.returns = m.returns ++ [.wrote bytes])
  | takesOut (r : ReadCall) (k : Nat) (hq : m'.queue = m.queue.drop k)
      (hr : m'.returns = m.returns ++ [.read r (m.queue.take k)])
      (hnone : m.queue.take k = [] → 1 ≤ r.n → m.pair = -2 →
        m.queue = [] ∨ ∃ pick, e = .read r pick)
  | discards (hq : m'.queue = []) (hr : m'.returns = m.returns) (hp : m'.pair = -1)

section Steps

variable {v : Version} {K : Kernel} {m m' : SocketInfo} {e : Event} {pick : Nat} {r : ReadCall}

@[simp] theorem SocketInfo.leaveWait_queue : (m.leaveWait pick r).queue = m.queue := by
  unfold SocketInfo.leaveWait
  dsimp only
  split_ifs <;> rfl

@[simp] theorem SocketInfo.leaveWait_returns : (m.leaveWait pick r).returns = m.returns := by
  unfold SocketInfo.leaveWait
  dsimp only
  split_ifs <;> rfl

theorem SocketInfo.afterRead_queue (k : Nat) :
    (m.afterRead pick r (.bytes k)).queue = m.queue.drop k := leaveWait_queue

theorem SocketInfo.afterRead_returns (k : Nat) :
    (m.afterRead pick r (.bytes k)).returns = m.returns ++ [.read r (m.queue.take k)] :=
  leaveWait_returns

/-- Nothing is read only if there is nothing. -/
private theorem none_of_take {n k : Nat} (hd : m.delivers n (.bytes k) = true)
    (ht : m.queue.take k = []) (hn : 1 ≤ n) : m.queue = [] := by
  obtain ⟨-, -, hzero⟩ := of_decide_eq_true hd
  rcases List.take_eq_nil_iff.mp ht with rfl | h
  · rcases hzero rfl with h | h
    · omega
    · exact h.1
  · exact h

private theorem moves_afterRead {a : Answer} (hd : m.delivers r.n a = true) :
    Moves e m (m.afterRead pick r a) := by
  cases a with
  | bytes k =>
    exact .takesOut r k (SocketInfo.afterRead_queue k) (SocketInfo.afterRead_returns k)
      fun ht hn _ => .inl (none_of_take hd ht hn)
  | reset =>
    obtain ⟨hq, -⟩ := of_decide_eq_true hd
    exact .takesOut r 0 SocketInfo.leaveWait_queue SocketInfo.leaveWait_returns
      fun _ _ _ => .inl hq
  | error =>
    exact .logs (.readFailed r) rfl rfl (by simp) SocketInfo.leaveWait_queue
      SocketInfo.leaveWait_returns

/-- The wait is over; what it is compared with may have been changed by the same step. -/
private theorem moves_afterWait {t : SocketInfo} (hq : t.queue = m.queue)
    (hr : t.returns = m.returns) (hcount : m.pair = -2 → t.totalWritten = m.queue.length) :
    Moves e m (t.afterWait v pick r) := by
  unfold SocketInfo.afterWait
  split_ifs with h
  · refine .takesOut r 0 ?_ ?_ fun _ _ hp => .inl (List.length_eq_zero_iff.mp ?_)
    · rw [SocketInfo.afterRead_queue, hq]
    · rw [SocketInfo.afterRead_returns, hr, List.take_zero, List.take_zero]
    · rw [← hcount hp, h.2]
  · exact .none hq hr

theorem Step.moves (hc : Counted K m) (hi : ClosedIdle m) (hs : Step v K m e m') :
    Moves e m m' := by
  have hlen : m.pair = -2 → m.totalWritten = m.queue.length := fun hp => hc.written (by omega)
  cases hs.effect with
  | write => exact .none rfl rfl
  | @wrote buf written pick hm hk =>
    cases written with
    | none => exact .logs .writeFailed rfl rfl (by simp) rfl rfl
    | some k =>
      have hp : m.pair ≠ -1 := fun hp => by
        rw [(hi hp).1] at hm
        cases hm
      unfold SocketInfo.afterWrite
      dsimp only
      split_ifs <;> exact .takesIn (buf.take k) hp rfl rfl
  | @read r pick hm hp hi hx =>
    have hzero (t : SocketInfo) (hq : t.queue = m.queue)
        (hr : t.returns = m.returns ++ [.read r []]) : Moves (.read r pick) m t :=
      .takesOut r 0 hq hr fun _ _ _ => .inr ⟨pick, rfl⟩
    unfold SocketInfo.reading
    dsimp only
    split_ifs
    · exact hzero _ rfl rfl
    · exact hzero _ rfl rfl
    · exact .none rfl rfl
    · exact moves_afterWait rfl rfl hlen
    · exact .none rfl rfl
  | @gotFast r a pick hm ha =>
    cases a with
    | bytes k =>
      unfold SocketInfo.afterFastRead
      dsimp only
      split_ifs <;> exact .takesOut r k rfl rfl fun ht hn _ => .inl (none_of_take ha ht hn)
    | reset => exact .logs (.readFailed r) rfl rfl (by simp) rfl rfl
    | error => exact .logs (.readFailed r) rfl rfl (by simp) rfl rfl
  | gotWaited hm ha => exact moves_afterRead ha
  | wakes => exact moves_afterWait rfl rfl hlen
  | wakesAgain => exact .none rfl rfl
  | timesOut => exact moves_afterWait rfl rfl hlen
  | @tcdrain tid =>
    unfold SocketInfo.draining
    split_ifs
    · exact .none rfl rfl
    · exact .logs (.drained tid) rfl rfl (by simp) rfl rfl
  | @drainWakes tid => exact .logs (.drained tid) rfl rfl (by simp) rfl rfl
  | close =>
    unfold SocketInfo.closing
    dsimp only
    split_ifs <;> exact .discards rfl rfl rfl
  | closePair =>
    unfold SocketInfo.closingPair
    dsimp only
    split_ifs <;> exact .none rfl rfl

/-! ## Order -/

/-- The reads have returned the first of the bytes accepted; the others are queued, unless
the descriptor is closed. -/
structure InOrder (m : SocketInfo) : Prop where
  prefix_eq : delivered m.returns ++ m.queue <+: accepted m.returns
  all : m.pair ≠ -1 → accepted m.returns = delivered m.returns ++ m.queue

theorem inOrder_init (pairInit : Nat) : InOrder (.init pairInit) := ⟨List.prefix_rfl, fun _ => rfl⟩

theorem InOrder.moves (h : InOrder m) (hm : Moves e m m') (hp : m'.pair ≠ -1 → m.pair ≠ -1) :
    InOrder m' := by
  obtain ⟨hpre, hall⟩ := h
  cases hm with
  | none hq hr => exact ⟨by rwa [hq, hr], fun h => by rw [hq, hr, hall (hp h)]⟩
  | logs ret hacc hdel hno hq hr =>
    refine ⟨?_, fun h => ?_⟩
    · rw [hq, hr, delivered_append, accepted_append, hacc, hdel, List.append_nil, List.append_nil]
      exact hpre
    · rw [hq, hr, delivered_append, accepted_append, hacc, hdel, List.append_nil, List.append_nil]
      exact hall (hp h)
  | takesIn bytes hopen hq hr =>
    have heq : accepted m'.returns = delivered m'.returns ++ m'.queue := by
      rw [hq, hr, accepted_append, delivered_append, hall hopen]
      show _ ++ (bytes ++ []) = _ ++ [] ++ _
      rw [List.append_nil, List.append_nil, List.append_assoc]
    exact ⟨heq ▸ List.prefix_rfl, fun _ => heq⟩
  | takesOut r k hq hr hnone =>
    have hsplit : delivered m'.returns ++ m'.queue = delivered m.returns ++ m.queue := by
      rw [hq, hr, delivered_append, List.append_assoc]
      show _ ++ (m.queue.take k ++ [] ++ _) = _
      rw [List.append_nil, List.take_append_drop]
    have hacc : accepted m'.returns = accepted m.returns := by
      rw [hr, accepted_append]
      exact List.append_nil _
    exact ⟨by rwa [hsplit, hacc], fun h => by rw [hsplit, hacc, hall (hp h)]⟩
  | discards hq hr hpair =>
    refine ⟨?_, fun h => absurd hpair h⟩
    rw [hq, hr, List.append_nil]
    exact (List.prefix_append _ _).trans hpre

/-- What every run keeps: the counters, the order, and the closed descriptor in peace. -/
structure Orderly (K : Kernel) (m : SocketInfo) : Prop where
  counted : Counted K m
  idle : ClosedIdle m
  inOrder : InOrder m

theorem orderly_init (K : Kernel) (pairInit : Nat) : Orderly K (.init pairInit) :=
  ⟨counted_init K pairInit, closedIdle_init pairInit, inOrder_init pairInit⟩

theorem Orderly.step (h : Orderly K m) (hs : Step v K m e m') : Orderly K m' := by
  refine ⟨h.counted.step hs, h.idle.step hs, h.inOrder.moves (hs.moves h.counted h.idle) ?_⟩
  intro hp'
  rcases hs.effect.pair_eq with heq | ⟨hp, -⟩
  · rwa [heq] at hp'
  · omega

theorem orderly_run {pairInit : Nat} {es : List Event}
    (hr : Run (Step v K) (.init pairInit) es m) : Orderly K m :=
  hr.invariant (I := Orderly K) Orderly.step (orderly_init K pairInit)

/-! ## The end of the stream -/

/-- When a read reports the end of the stream because the paired descriptor is closed, all
bytes have been delivered. -/
def EndsLast (m : SocketInfo) (_ : Event) (m' : SocketInfo) : Prop :=
  ∀ r : ReadCall, m'.returns = m.returns ++ [.read r []] → 1 ≤ r.n → m.pair = -2 →
    delivered m'.returns = accepted m'.returns

/-- A call that finds the paired descriptor closed finds nothing queued. -/
def FindsNone (m : SocketInfo) (e : Event) (_ : SocketInfo) : Prop :=
  ∀ r pick, e = .read r pick → 1 ≤ r.n → m.pair = -2 → m.queue = []

/-- One step reports the end of the stream too early only when a call finds bytes behind a
closed descriptor. -/
theorem Orderly.endsLast_iff (h : Orderly K m) (hs : Step v K m e m') :
    EndsLast m e m' ↔ FindsNone m e m' := by
  have hm := hs.moves h.counted h.idle
  have h' := h.step hs
  constructor
  · rintro hend r pick rfl hn hp
    -- the call returns at once, and nothing is delivered by it
    have hm' : m' = { m with returns := m.returns ++ [.read r []] } := by
      cases hs.effect with
      | read => exact if_pos hp
    have hlast := hend r (by rw [hm']) hn hp
    rw [h'.inOrder.all (by rw [hm']; show m.pair ≠ -1; omega), hm'] at hlast
    simpa using hlast
  · intro hfind r hr hn hp
    have hp' : m'.pair ≠ -1 := by
      rcases hs.effect.pair_eq with heq | ⟨hp', -⟩ <;> omega
    suffices hq : m'.queue = [] by rw [h'.inOrder.all hp', hq, List.append_nil]
    cases hm with
    | none _ hr' => simp [hr'] at hr
    | logs ret _ _ hno _ hr' =>
      rw [hr'] at hr
      exact absurd (List.append_singleton_inj.mp hr).2 (hno r)
    | takesIn bytes _ _ hr' => simp [hr'] at hr
    | takesOut r' k hq hr' hnone =>
      rw [hr'] at hr
      obtain ⟨rfl, htake⟩ := Return.read.inj (List.append_singleton_inj.mp hr).2
      have hempty : m.queue = [] := by
        rcases hnone htake hn hp with h | ⟨pick, rfl⟩
        · exact h
        · exact hfind _ pick rfl hn hp
      rw [hq, hempty, List.drop_nil]
    | discards hq => exact hq

/-- The bytes come in order, and none is missed at the end of the stream. -/
structure Reliable (v : Version) (K : Kernel) (m₀ : SocketInfo) (es : List Event) : Prop where
  inOrder : ∀ es₁ es₂ m, es = es₁ ++ es₂ → Run (Step v K) m₀ es₁ m →
    delivered m.returns <+: accepted m.returns
  endsLast : EveryStep (Step v K) EndsLast m₀ es

end Steps

variable {v : Version} {K : Kernel}

/-- **Delivery up to close.** Whatever the threads do, the reads return the accepted bytes
in order, and none is missed exactly when no call finds bytes behind a closed descriptor. -/
theorem reliable_iff (pairInit : Nat) (es : List Event) :
    Reliable v K (.init pairInit) es ↔ EveryStep (Step v K) FindsNone (.init pairInit) es := by
  have hends : EveryStep (Step v K) EndsLast (.init pairInit) es ↔
      EveryStep (Step v K) FindsNone (.init pairInit) es :=
    EveryStep.congr fun hr hs => (orderly_run hr).endsLast_iff hs
  constructor
  · intro h
    exact hends.mp h.endsLast
  · intro h
    refine ⟨fun es₁ es₂ m heq hr => ?_, hends.mpr h⟩
    exact (List.prefix_append _ _).trans (orderly_run hr).inOrder.prefix_eq

/-- A call that reads one byte. -/
def readOne : ReadCall := ⟨1, 1, 1, 0, 0, by decide, by decide⟩

/-- A call that reads ten bytes. -/
def readTen : ReadCall := ⟨1, 10, 10, 0, 0, by decide, by decide⟩

/-- A kernel with the default buffer of a socket. -/
def defaultKernel : Kernel := ⟨0x34000, by decide⟩

/-- A byte is written, the paired descriptor is closed, and then the reader calls. -/
def lateRead : List Event := [.write [65], .wrote (some 1) 0, .closePair 0, .read readOne 0]

/-- The reader gets 0 instead of the byte, in both implementations. -/
theorem late_read_misses : ¬ Reliable .lib defaultKernel (.init 4) lateRead ∧
    ¬ Reliable .part3 defaultKernel (.init 4) lateRead := by
  have hbefore (v : Version) : exec v defaultKernel (.init 4) lateRead.dropLast = some
      ⟨1, 0, [], [], .free, -2, [65], [.wrote [65]]⟩ := by cases v <;> rfl
  have hread (v : Version) : Step v defaultKernel
      ⟨1, 0, [], [], .free, -2, [65], [.wrote [65]]⟩ (.read readOne 0)
      ⟨1, 0, [], [], .free, -2, [65], [.wrote [65], .read readOne []]⟩ := by cases v <;> rfl
  have hmiss (v : Version) : ¬ Reliable v defaultKernel (.init 4) lateRead := by
    intro h
    have hlast : ([] : List UInt8) = [65] := h.endsLast lateRead.dropLast (.read readOne 0) [] _ _ rfl
      (run_of_exec (hbefore v)) (hread v) readOne rfl (by decide) rfl
    cases hlast
  exact ⟨hmiss .lib, hmiss .part3⟩

end YModem.MyIO
