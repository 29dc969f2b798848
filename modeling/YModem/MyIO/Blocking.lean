import YModem.MyIO.Delivery

/-!
# Calls that block for too long, or not long enough

`writing` calls `write` with the mutex held that a reader needs to make room. The library's
`reading` waits for no longer than its `time`, which is zero for `myRead`.
-/

namespace YModem.MyIO

open YModem.Lib YModem.Peer

section Steps

variable {v : Version} {K : Kernel} {m m' : SocketInfo} {e : Event} {pick : Nat} {r : ReadCall}

/-! ## A write that waits for room -/

/-- A thread is inside `write`, and nobody can take a step before it has given up with an
error or with a part of its bytes. -/
def LockedOut (v : Version) (K : Kernel) (m : SocketInfo) : Prop :=
  ∃ buf, m.socketInfoMutex = .writing buf ∧ ∀ e m', Step v K m e m' →
    ∃ written pick, e = .wrote written pick ∧ written ≠ some buf.length

/-- A call of `writing` finds room for all its bytes. -/
def HasRoom (K : Kernel) (m : SocketInfo) (e : Event) (_ : SocketInfo) : Prop :=
  ∀ buf, e = .write buf → m.queue.length + buf.length ≤ K.capacity

theorem lockedOut_iff {buf : List UInt8} (hm : m.socketInfoMutex = .writing buf) :
    LockedOut v K m ↔ K.capacity < m.queue.length + buf.length := by
  constructor
  · rintro ⟨buf', hm', hstuck⟩
    obtain rfl : buf = buf' := by
      rw [hm] at hm'
      exact Holder.writing.inj hm'
    refine Nat.lt_of_not_le fun hroom => ?_
    have hs : Step v K m (.wrote (some buf.length) 0) (m.afterWrite 0 buf (some buf.length)) := by
      have hk : K.accepts m buf (some buf.length) = true := decide_eq_true ⟨Nat.le_refl _, hroom⟩
      simp only [Step, step, hm, hk, if_true]
    obtain ⟨written, pick, he, hne⟩ := hstuck _ _ hs
    cases he
    exact hne rfl
  · intro hfull
    refine ⟨buf, hm, fun e m' hs => ?_⟩
    cases hs.effect with
    | @wrote buf' written pick hm' hk =>
      obtain rfl : buf = buf' := by
        rw [hm] at hm'
        exact Holder.writing.inj hm'
      refine ⟨written, pick, rfl, ?_⟩
      rintro rfl
      obtain ⟨-, hroom⟩ := of_decide_eq_true hk
      omega
    | write h | read h | gotFast h | gotWaited h | wakes h | wakesAgain h | timesOut h | tcdrain h
    | drainWakes h | close h | closePair h =>
      rw [hm] at h
      cases h

/-- Only a call of `writing` brings a thread into `write`. -/
theorem Step.of_writing {buf : List UInt8} (hs : Step v K m e m')
    (hm' : m'.socketInfoMutex = .writing buf) : e = .write buf ∧ m' = m.writing buf := by
  cases hs.effect with
  | write =>
    cases hm'
    exact ⟨rfl, rfl⟩
  | wrote => simp [SocketInfo.afterWrite_mutex] at hm'
  | read hm => rcases SocketInfo.reading_mutex hm with h | h | h <;> rw [h] at hm' <;> cases hm'
  | gotFast => simp [SocketInfo.afterFastRead_mutex] at hm'
  | gotWaited => simp [SocketInfo.afterRead_mutex] at hm'
  | wakes | timesOut =>
    rcases SocketInfo.afterWait_mutex with h | h <;> rw [h] at hm' <;> cases hm'
  | wakesAgain hm | drainWakes hm =>
    rw [hm] at hm'
    cases hm'
  | tcdrain hm | close hm | closePair hm => simp [hm] at hm'

/-- One step locks the reader out exactly when it is a write without room. -/
theorem Step.not_lockedOut_iff (hs : Step v K m e m') : ¬ LockedOut v K m' ↔ HasRoom K m e m' := by
  constructor
  · rintro hfree buf rfl
    obtain rfl : m' = m.writing buf := by
      cases hs.effect with
      | write => rfl
    rw [lockedOut_iff rfl] at hfree
    exact Nat.le_of_not_lt hfree
  · rintro hroom ⟨buf, hm', hstuck⟩
    have hfull := (lockedOut_iff hm').mp ⟨buf, hm', hstuck⟩
    obtain ⟨rfl, rfl⟩ := hs.of_writing hm'
    exact Nat.not_lt.mpr (hroom buf rfl) hfull

/-! ## A read that returns 0 -/

/-- The call reads at least one byte, and waits for it without a time limit. -/
def ReadCall.Untimed (r : ReadCall) : Prop := 1 ≤ r.n ∧ 1 ≤ r.min ∧ r.time = 0 ∧ r.timeout = 0

/-- When an untimed read returns 0, the paired descriptor is closed. -/
def ZeroIsClosed (m : SocketInfo) (_ : Event) (m' : SocketInfo) : Prop :=
  ∀ r : ReadCall, r.Untimed → m'.returns = m.returns ++ [.read r []] → m.pair = -2

/-- The wait of an untimed read does not end by its time, with nothing queued and the paired
descriptor open. -/
def WaitsOn (m : SocketInfo) (e : Event) (_ : SocketInfo) : Prop :=
  ∀ tid pick (r : ReadCall), e = .readTimesOut tid pick → r.Untimed →
    m.cvRead.waiter (·.tid == tid) = some ⟨r, false⟩ → m.totalWritten = 0 → m.pair = -2

theorem Step.timesOut_inv {tid : Nat} (hs : Step v K m (.readTimesOut tid pick) m') :
    ∃ r, v = .lib ∧ m.cvRead.waiter (·.tid == tid) = some ⟨r, false⟩ ∧
      m' = { m with cvRead := m.cvRead.leave (·.tid == tid) }.afterWait v pick r := by
  unfold Step step at hs
  split at hs
  case h_7 tid' pick' he hm =>
    cases he
    split at hs
    case h_1 r hw =>
      cases hs
      exact ⟨r, rfl, hw, rfl⟩
    case h_2 => cases hs
  all_goals contradiction

/-- The kernel reads nothing for a call only at the end of the stream. -/
theorem closed_of_delivers {n k : Nat} (hd : m.delivers n (.bytes k) = true) (hn : 1 ≤ n)
    (ht : m.queue.take k = []) : m.pair = -2 := by
  obtain ⟨-, hk, hzero⟩ := of_decide_eq_true hd
  have hk : k = 0 := by
    have hlen := congrArg List.length ht
    rw [List.length_take, List.length_nil] at hlen
    omega
  rcases hzero hk with h | h
  · omega
  · exact h.2

/-- Behind the wait, 0 is returned at once only by the library, and with nothing queued. -/
theorem SocketInfo.afterWait_zero {t : SocketInfo} {r' : ReadCall}
    (hz : (t.afterWait v pick r).returns = m.returns ++ [.read r' []]) (hr : t.returns = m.returns) :
    r' = r ∧ t.totalWritten = 0 := by
  revert hz
  unfold SocketInfo.afterWait
  split_ifs with h
  · intro hz
    rw [afterRead_returns, hr] at hz
    exact ⟨(Return.read.inj (List.append_singleton_inj.mp hz).2).1.symm, h.2⟩
  · intro hz
    have hlen : t.returns.length = (m.returns ++ [Return.read r' []]).length := congrArg List.length hz
    rw [hr, List.length_append] at hlen
    simp at hlen

theorem SocketInfo.afterRead_zero {a : Answer} {r' : ReadCall} (hr : r'.Untimed)
    (hd : m.delivers r.n a = true)
    (hz : (m.afterRead pick r a).returns = m.returns ++ [.read r' []]) : m.pair = -2 := by
  cases a with
  | bytes k =>
    rw [afterRead_returns] at hz
    obtain ⟨rfl, ht⟩ := Return.read.inj (List.append_singleton_inj.mp hz).2
    exact closed_of_delivers hd hr.1 ht
  | reset => exact (of_decide_eq_true hd).2
  | error =>
    rw [afterRead, leaveWait_returns] at hz
    cases (List.append_singleton_inj.mp hz).2

theorem Step.zeroIsClosed_iff (hi : ClosedIdle m) (hp : PairKnown m) (hs : Step v K m e m') :
    ZeroIsClosed m e m' ↔ WaitsOn m e m' := by
  constructor
  · rintro hzero tid pick r rfl hr hw htw
    obtain ⟨r', rfl, hw', rfl⟩ := hs.timesOut_inv
    obtain rfl : r' = r := by
      rw [hw] at hw'
      cases hw'
      rfl
    apply hzero r' hr
    have hbranch : Version.lib = .lib ∧ m.totalWritten = 0 := ⟨rfl, htw⟩
    rw [SocketInfo.afterWait, if_pos hbranch, SocketInfo.afterRead_returns, List.take_zero]
  · intro hwait r hr hret
    have hsame {t : SocketInfo} (ht : t.returns = m.returns) :
        t.returns = m.returns ++ [.read r []] → m.pair = -2 := by
      intro h
      simp [ht] at h
    have hother {t : SocketInfo} {ret : Return} (ht : t.returns = m.returns ++ [ret])
        (hne : ret ≠ .read r []) : t.returns = m.returns ++ [.read r []] → m.pair = -2 := by
      intro h
      rw [ht] at h
      exact absurd (List.append_singleton_inj.mp h).2 hne
    -- who was waiting has an open descriptor of its own
    have hclosed {before after : CondVar ReadCall} {w : Waiter ReadCall}
        (hcv : m.cvRead = before ++ w :: after) (hneg : m.pair < 0) : m.pair = -2 := by
      rcases hp with h | h | h
      · omega
      · rw [(hi h).2] at hcv
        simp at hcv
      · exact h
    cases hs.effect with
    | write | wakesAgain => exact hsame rfl hret
    | @wrote buf written pick =>
      cases written with
      | none => exact hother rfl (by simp) hret
      | some k =>
        revert hret
        unfold SocketInfo.afterWrite
        dsimp only
        split_ifs <;> exact hother rfl (by simp)
    | @read r' pick hm hopen =>
      revert hret
      unfold SocketInfo.reading
      dsimp only
      split_ifs with hpair hfast hnone hsat
      · exact fun _ => hpair
      · -- only a call that does not wait for a byte returns 0 here
        refine hother rfl fun h => ?_
        obtain ⟨rfl, -⟩ := Return.read.inj h
        have := hr.2.1
        omega
      · exact hsame rfl
      · intro hz
        obtain ⟨rfl, hempty⟩ := SocketInfo.afterWait_zero hz rfl
        rcases hsat with hmin | hneg
        · have := hr.2.1
          have hempty : m.totalWritten = 0 := hempty
          have hmin : r.min ≤ m.totalWritten := hmin
          omega
        · have hneg : m.pair < 0 := hneg
          rcases hp with h | h | h
          · omega
          · exact absurd h hopen
          · exact h
      · exact hsame rfl
    | @gotFast r' a pick hm ha =>
      revert hret
      cases a with
      | bytes k =>
        unfold SocketInfo.afterFastRead
        dsimp only
        have hclosed' (h : m.returns ++ [Return.read r' (m.queue.take k)] =
            m.returns ++ [.read r []]) : m.pair = -2 := by
          obtain ⟨rfl, ht⟩ := Return.read.inj (List.append_singleton_inj.mp h).2
          exact closed_of_delivers ha hr.1 ht
        split_ifs <;> exact hclosed'
      | _ => exact hother rfl (by simp)
    | gotWaited hm ha => exact SocketInfo.afterRead_zero hr ha hret
    | wakes hm hcv hsat =>
      obtain ⟨rfl, hempty⟩ := SocketInfo.afterWait_zero hret rfl
      have hempty : m.totalWritten = 0 := hempty
      rcases hsat with hmin | hneg
      · have := hr.2.1
        omega
      · exact hclosed hcv hneg
    | @timesOut r' pick before after hm hv hcv =>
      obtain ⟨w, hlib, hw, heq⟩ := hs.timesOut_inv
      rw [heq] at hret
      obtain ⟨rfl, hempty⟩ := SocketInfo.afterWait_zero hret rfl
      exact hwait _ _ r rfl hr hw hempty
    | tcdrain =>
      revert hret
      unfold SocketInfo.draining
      split_ifs
      · exact hsame rfl
      · exact hother rfl (by simp)
    | drainWakes => exact hother rfl (by simp) hret
    | close =>
      revert hret
      unfold SocketInfo.closing
      dsimp only
      split_ifs <;> exact hsame rfl
    | closePair =>
      revert hret
      unfold SocketInfo.closingPair
      dsimp only
      split_ifs <;> exact hsame rfl

end Steps

variable {v : Version} {K : Kernel}

/-- **A large write locks out its reader.** In a run nobody is locked out exactly when every
write finds room for all its bytes. -/
theorem never_lockedOut_iff (pairInit : Nat) (es : List Event) :
    EveryStep (Step v K) (fun _ _ m' => ¬ LockedOut v K m') (.init pairInit) es ↔
      EveryStep (Step v K) (HasRoom K) (.init pairInit) es :=
  EveryStep.congr fun _ hs => hs.not_lockedOut_iff

/-- A reader waits for a byte, and one byte more is written than the kernel holds. -/
def hugeWrite : List Event := [.read readOne 0, .write (List.replicate 0x34001 65)]

/-- The reader never gets a byte, in both implementations. -/
theorem huge_write_locks_out :
    ¬ EveryStep (Step .lib defaultKernel) (fun _ _ m' => ¬ LockedOut .lib defaultKernel m')
        (.init 4) hugeWrite ∧
      ¬ EveryStep (Step .part3 defaultKernel) (fun _ _ m' => ¬ LockedOut .part3 defaultKernel m')
        (.init 4) hugeWrite := by
  have hwaits (v : Version) : exec v defaultKernel (.init 4) [.read readOne 0] =
      some ⟨0, 1, [], [⟨readOne, false⟩], .free, 4, [], []⟩ := by cases v <;> rfl
  have hlocked (v : Version) (buf : List UInt8) (hbuf : defaultKernel.capacity < buf.length) :
      ¬ EveryStep (Step v defaultKernel) (fun _ _ m' => ¬ LockedOut v defaultKernel m')
        (.init 4) [.read readOne 0, .write buf] := by
    intro h
    refine h [.read readOne 0] (.write buf) [] _ ⟨0, 1, [], [⟨readOne, false⟩], .writing buf, 4, [], []⟩
      rfl (run_of_exec (hwaits v)) rfl ((lockedOut_iff rfl).mpr ?_)
    show defaultKernel.capacity < 0 + buf.length
    omega
  have hbuf : defaultKernel.capacity < (List.replicate 0x34001 (65 : UInt8)).length := by
    rw [List.length_replicate]
    decide
  exact ⟨hlocked .lib _ hbuf, hlocked .part3 _ hbuf⟩

/-- **Zero means closed** exactly when no wait without a time limit ends by its time, with
nothing queued and the paired descriptor open. -/
theorem zero_means_closed_iff (pairInit : Nat) (es : List Event) :
    EveryStep (Step v K) ZeroIsClosed (.init pairInit) es ↔
      EveryStep (Step v K) WaitsOn (.init pairInit) es := by
  refine EveryStep.congr fun hr hs => hs.zeroIsClosed_iff ?_ ?_
  · exact hr.invariant (I := ClosedIdle) ClosedIdle.step (closedIdle_init pairInit)
  · exact hr.invariant (I := PairKnown) PairKnown.step (.inl (Int.natCast_nonneg pairInit))

/-- A reader waits for a byte, and its time is over at once. -/
theorem zero_without_close : ¬ EveryStep (Step .lib defaultKernel) ZeroIsClosed (.init 4)
    [.read readOne 0, .readTimesOut 1 0] := by
  have hwaits : exec .lib defaultKernel (.init 4) [.read readOne 0] =
      some ⟨0, 1, [], [⟨readOne, false⟩], .free, 4, [], []⟩ := rfl
  have hreturns : Step .lib defaultKernel ⟨0, 1, [], [⟨readOne, false⟩], .free, 4, [], []⟩
      (.readTimesOut 1 0) ⟨0, 0, [], [], .free, 4, [], [.read readOne []]⟩ := rfl
  intro h
  have hpair : (4 : Int) = -2 := h [.read readOne 0] (.readTimesOut 1 0) [] _ _ rfl
    (run_of_exec hwaits) hreturns readOne ⟨by decide, by decide, rfl, rfl⟩ rfl
  exact absurd hpair (by decide)

end YModem.MyIO
