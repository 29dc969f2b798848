import Mathlib.Data.List.Infix
import YModem.MyIO.Delivery

/-!
# Waiting until the data is drained

`draining` does not look at the counters again when it has been notified. The fast path of
`reading` and `closing` notify when nothing is left to wait for; the waiting path notifies
whenever it is entered.
-/

namespace YModem.MyIO

open YModem.Lib YModem.Peer

/-- What was written is read or covered by the pending reads, or the descriptor that is read
is closed. -/
def Drained (m : SocketInfo) : Prop := m.totalWritten ≤ m.maxTotalCanRead ∨ m.pair < 0

instance (m : SocketInfo) : Decidable (Drained m) := inferInstanceAs (Decidable (_ ∨ _))

/-- A call of `reading` goes to the waiting path. -/
def EntersWait (m : SocketInfo) (r : ReadCall) : Prop :=
  m.pair ≠ -2 ∧ ¬ (m.maxTotalCanRead = 0 ∧ r.min ≤ m.totalWritten)

/-- How a step changes the list of the drainers. -/
inductive DrainEffect (m : SocketInfo) : Event → SocketInfo → Prop where
  | same {e m'} (hcv : m'.cvDrain = m.cvDrain) : DrainEffect m e m'
  | notified {e m'} (hcv : m'.cvDrain = m.cvDrain.notifyAll) (hd : Drained m') : DrainEffect m e m'
  | entered {r pick m'} (he : EntersWait m r) (hcv : m'.cvDrain = m.cvDrain.notifyAll)
      (hw : m'.totalWritten = m.totalWritten)
      (hmax : m'.maxTotalCanRead = uadd m.maxTotalCanRead r.n) : DrainEffect m (.read r pick) m'
  | waits {tid} (hd : ¬ Drained m) (hi : m.idle tid = true) :
      DrainEffect m (.tcdrain tid) { m with cvDrain := m.cvDrain.wait tid }
  | returns {tid before after} (hcv : m.cvDrain = before ++ ⟨tid, true⟩ :: after) :
      DrainEffect m (.drainWakes tid)
        { m with cvDrain := before ++ after, returns := m.returns ++ [.drained tid] }

section Steps

variable {v : Version} {K : Kernel} {m m' : SocketInfo} {e : Event} {pick : Nat} {r : ReadCall}

@[simp] theorem SocketInfo.leaveWait_cvDrain : (m.leaveWait pick r).cvDrain = m.cvDrain := by
  unfold SocketInfo.leaveWait
  dsimp only
  split_ifs <;> rfl

@[simp] theorem SocketInfo.afterRead_cvDrain (a : Answer) :
    (m.afterRead pick r a).cvDrain = m.cvDrain := by
  cases a <;> exact leaveWait_cvDrain

@[simp] theorem SocketInfo.afterWait_cvDrain : (m.afterWait v pick r).cvDrain = m.cvDrain := by
  unfold SocketInfo.afterWait
  split_ifs
  · exact afterRead_cvDrain _
  · rfl

theorem SocketInfo.leaveWait_totalWritten : (m.leaveWait pick r).totalWritten = m.totalWritten := by
  unfold SocketInfo.leaveWait
  dsimp only
  split_ifs <;> rfl

/-- A reader that finds nothing leaves a drained object behind. -/
theorem SocketInfo.afterRead_none_drained (h : m.totalWritten = 0) :
    Drained (m.afterRead pick r (.bytes 0)) := by
  have hzero : usub 0 0 = 0 := usub_eq (Nat.le_refl 0) (by decide)
  left
  rw [afterRead, leaveWait_totalWritten, h, hzero]
  exact Nat.zero_le _

theorem Effect.drains (h : Effect v K m e m') : DrainEffect m e m' := by
  cases h with
  | write => exact .same rfl
  | @wrote buf written pick =>
    cases written with
    | none => exact .same rfl
    | some k =>
      unfold SocketInfo.afterWrite
      dsimp only
      split_ifs <;> exact .same rfl
  | @read r pick hm hp hi hx =>
    unfold SocketInfo.reading
    dsimp only
    split_ifs with hclosed hfast hnone hsat
    · exact .same rfl
    · exact .same rfl
    · exact .same rfl
    · unfold SocketInfo.afterWait
      split_ifs with hempty
      · exact .notified (SocketInfo.afterRead_cvDrain _) (SocketInfo.afterRead_none_drained hempty.2)
      · exact .entered ⟨hclosed, hfast⟩ rfl rfl rfl
    · exact .entered ⟨hclosed, hfast⟩ rfl rfl rfl
  | @gotFast r a pick hm ha =>
    cases a with
    | bytes k =>
      unfold SocketInfo.afterFastRead
      dsimp only
      split_ifs with hpos hd
      · exact .notified rfl (.inl hd)
      · exact .same rfl
      · exact .same rfl
    | _ => exact .same rfl
  | gotWaited => exact .same (SocketInfo.afterRead_cvDrain _)
  | wakes => exact .same SocketInfo.afterWait_cvDrain
  | wakesAgain => exact .same rfl
  | timesOut => exact .same SocketInfo.afterWait_cvDrain
  | @tcdrain tid hm hp hi =>
    unfold SocketInfo.draining
    split_ifs with hw
    · refine .waits (fun hd => ?_) hi
      rcases hd with hd | hd <;> omega
    · exact .same rfl
  | drainWakes hm hcv => exact .returns hcv
  | close =>
    unfold SocketInfo.closing
    dsimp only
    split_ifs
    · exact .notified rfl (.inr (show (-1 : Int) < 0 by decide))
    · exact .same rfl
  | closePair =>
    unfold SocketInfo.closingPair
    dsimp only
    split_ifs <;> exact .same rfl

/-! ## A drainer that is woken -/

/-- The thread is blocked in `draining` and has not been notified. -/
def Asleep (tid : Nat) (m : SocketInfo) : Prop :=
  (∃ w ∈ m.cvDrain, w.who = tid) ∧ ∀ w ∈ m.cvDrain, w.who = tid → w.awake = false

/-- Who enters the waiting path while a drainer sleeps asks for all that is queued. -/
def CoversQueue (m : SocketInfo) (e : Event) (_ : SocketInfo) : Prop :=
  ∀ r pick, e = .read r pick → EntersWait m r → (∃ w ∈ m.cvDrain, w.awake = false) →
    m.totalWritten ≤ uadd m.maxTotalCanRead r.n

/-- A drainer sleeps on until the object is drained. -/
theorem Asleep.step {tid : Nat} (h : Asleep tid m) (hs : Step v K m e m') (he : e ≠ .tcdrain tid)
    (hc : CoversQueue m e m') : Drained m' ∨ Asleep tid m' := by
  obtain ⟨⟨w, hw, htid⟩, hall⟩ := h
  cases hs.effect.drains with
  | same hcv => exact .inr (by rw [Asleep, hcv]; exact ⟨⟨w, hw, htid⟩, hall⟩)
  | notified hcv hd => exact .inl hd
  | entered henter hcv hkept hmax =>
    refine .inl (.inl ?_)
    rw [hkept, hmax]
    exact hc _ _ rfl henter ⟨w, hw, hall w hw htid⟩
  | @waits other hd hi =>
    refine .inr ⟨⟨w, CondVar.mem_wait.mpr (.inl hw), htid⟩, fun u hu hut => ?_⟩
    rcases CondVar.mem_wait.mp hu with hu | rfl
    · exact hall u hu hut
    · rfl
  | @returns other before after hcv =>
    -- the drainer that returns is awake, so it is another one
    have hother : other ≠ tid := by
      rintro rfl
      have hasleep := hall ⟨other, true⟩ (by rw [hcv]; simp) rfl
      cases hasleep
    refine .inr ⟨⟨w, ?_, htid⟩, fun u hu hut => hall u ?_ hut⟩
    · rw [hcv] at hw
      rcases List.mem_append.mp hw with hw | hw
      · exact List.mem_append_left _ hw
      · rcases List.mem_cons.mp hw with rfl | hw
        · exact absurd htid hother
        · exact List.mem_append_right _ hw
    · rw [hcv]
      rcases List.mem_append.mp hu with hu | hu
      · exact List.mem_append_left _ hu
      · exact List.mem_append_right _ (List.mem_cons_of_mem _ hu)

/-- A call of `draining` goes to sleep, or the object is drained. -/
theorem asleep_of_tcdrain {tid : Nat} (hs : Step v K m (.tcdrain tid) m') :
    Drained m' ∨ Asleep tid m' := by
  cases hs.effect with
  | tcdrain hm hp hi =>
    unfold SocketInfo.draining
    split_ifs with hw
    · have hnone : ∀ w ∈ m.cvDrain, w.who ≠ tid := by
        simpa using (Bool.and_eq_true_iff.mp hi).2
      refine .inr ⟨⟨⟨tid, false⟩, by simp, rfl⟩, fun w hw htid => ?_⟩
      rcases CondVar.mem_wait.mp hw with hw | rfl
      · exact absurd htid (hnone w hw)
      · rfl
    · left
      by_cases hp' : m.pair < 0
      · exact .inr hp'
      · exact .inl (Nat.le_of_not_lt fun h => hw ⟨by omega, h⟩)

/-- A drainer sleeps on along a run until the object is drained. -/
theorem asleep_until_drained {tid : Nat} {es : List Event} (h : Drained m ∨ Asleep tid m)
    (hr : Run (Step v K) m es m') (hno : .tcdrain tid ∉ es)
    (hc : EveryStep (Step v K) CoversQueue m es) :
    (∃ es₄ t, es₄ <+: es ∧ Run (Step v K) m es₄ t ∧ Drained t) ∨ Asleep tid m' := by
  induction hr with
  | refl =>
    rcases h with hd | hasleep
    · exact .inl ⟨[], m, List.prefix_rfl, .refl, hd⟩
    · exact .inr hasleep
  | @tail t u es e hr hst ih =>
    rcases ih (fun hmem => hno (List.mem_append_left _ hmem)) hc.init with h | hasleep
    · obtain ⟨es₄, w, hpre, hr₄, hd⟩ := h
      exact .inl ⟨es₄, w, hpre.trans (List.prefix_append _ _), hr₄, hd⟩
    · have hne : e ≠ .tcdrain tid := fun heq => hno (by simp [heq])
      rcases hasleep.step hst hne (hc.last hr hst) with hd | hasleep
      · exact .inl ⟨es ++ [e], u, List.prefix_rfl, hr.tail hst, hd⟩
      · exact .inr hasleep

end Steps

/-- Whenever a call of `draining` has returned, the object was drained at an instant between
the call and the return. -/
def DrainSound (v : Version) (K : Kernel) (m₀ : SocketInfo) (es : List Event) : Prop :=
  ∀ es₁ tid es₂ es₃ m, es = es₁ ++ .tcdrain tid :: es₂ ++ es₃ → .tcdrain tid ∉ es₂ →
    Run (Step v K) m₀ (es₁ ++ .tcdrain tid :: es₂) m → (∀ w ∈ m.cvDrain, w.who ≠ tid) →
    ∃ es₄ t, es₄ <+: es₂ ∧ Run (Step v K) m₀ (es₁ ++ .tcdrain tid :: es₄) t ∧ Drained t

variable {v : Version} {K : Kernel}

/-- **Drain is sound** in every run in which the waiting path is never entered while a
drainer sleeps and more is queued than all readers have asked for. -/
theorem drain_sound {m₀ : SocketInfo} {es : List Event}
    (hc : EveryStep (Step v K) CoversQueue m₀ es) : DrainSound v K m₀ es := by
  intro es₁ tid es₂ es₃ m heq hno hr hret
  obtain ⟨s, hr₁, hr⟩ := hr.append_inv
  obtain ⟨s₁, hcall, hr₂⟩ := hr.cons_inv
  have hcalled : Run (Step v K) m₀ (es₁ ++ [.tcdrain tid]) s₁ := hr₁.tail hcall
  have hc₂ : EveryStep (Step v K) CoversQueue s₁ es₂ := by
    have hc' : EveryStep (Step v K) CoversQueue m₀ ((es₁ ++ [.tcdrain tid]) ++ (es₂ ++ es₃)) := by
      simpa [heq] using hc
    exact (hc'.drop hcalled).init
  rcases asleep_until_drained (asleep_of_tcdrain hcall) hr₂ hno hc₂ with h | ⟨⟨w, hw, htid⟩, -⟩
  · obtain ⟨es₄, t, hpre, hr₄, hd⟩ := h
    exact ⟨es₄, t, hpre, by simpa using hcalled.append hr₄, hd⟩
  · exact absurd htid (hret w hw)

/-- A call that reads forty bytes. -/
def readForty : ReadCall := ⟨1, 40, 40, 0, 0, by decide, by decide⟩

/-- Thirty bytes are written and a drainer goes to sleep. A reader of forty bytes enters the waiting
path, which wakes the drainer, and goes on when there are ten bytes more. -/
def coveredRun : List Event :=
  [.write (List.replicate 30 65), .wrote (some 30) 0, .tcdrain 2, .read readForty 0, .drainWakes 2,
    .write (List.replicate 10 66), .wrote (some 10) 0, .readWakes 1 0, .gotRead (.bytes 40) 0]

/-- `CoversQueue`, computed, for whoever calls `reading`. -/
def covers (m : SocketInfo) : Event → Bool
  | .read r _ => m.totalWritten ≤ uadd m.maxTotalCanRead r.n
  | _ => true

theorem coversQueue_of_covers {m m' : SocketInfo} {e : Event} (h : covers m e = true) :
    CoversQueue m e m' := by
  rintro r pick rfl - -
  exact of_decide_eq_true h

theorem drain_sound_covered :
    (∃ m, Run (Step .lib defaultKernel) (.init 4) (coveredRun.take 3) m ∧ EntersWait m readForty ∧
      ∃ w ∈ m.cvDrain, w.awake = false) ∧
    (∃ m, Run (Step .lib defaultKernel) (.init 4) coveredRun m ∧ m.cvDrain = []) ∧
    DrainSound .lib defaultKernel (.init 4) coveredRun := by
  have hasleep : exec .lib defaultKernel (.init 4) (coveredRun.take 3) = some ⟨30, 0, [⟨2, false⟩], [],
      .free, 4, List.replicate 30 65, [.wrote (List.replicate 30 65)]⟩ := rfl
  have hrun : (coveredRun.foldlM (fun m e =>
      if covers m e then step .lib defaultKernel m e else none) (.init 4)).map SocketInfo.cvDrain =
        some [] := by decide +kernel
  obtain ⟨m, hm, hnone⟩ := Option.map_eq_some_iff.mp hrun
  obtain ⟨hr, hc⟩ := @Run.of_checked _ _ (Step .lib defaultKernel) (step .lib defaultKernel) covers
    CoversQueue Iff.rfl (fun hok _ => coversQueue_of_covers hok) _ _ _ hm
  refine ⟨⟨_, run_of_exec hasleep, ⟨by decide, by decide⟩, ⟨2, false⟩, ?_, rfl⟩, ⟨m, hr, hnone⟩,
    drain_sound hc⟩
  exact List.mem_singleton_self _

/-- A reader of ten bytes waits and thirty are written; a drainer goes to sleep, and a reader
of five bytes calls before the first one runs. -/
def greedyRun : List Event :=
  [.read readTen 0, .write (List.replicate 30 65), .wrote (some 30) 0, .tcdrain 2,
    .read ⟨3, 5, 1, 0, 0, by decide, readOne.min_lt⟩ 0, .gotRead (.bytes 5) 0, .drainWakes 2]

/-- The call of the second reader wakes the drainer, although twenty bytes and more are
queued that nobody has asked for. -/
theorem drain_returns_early : ¬ DrainSound .lib defaultKernel (.init 4) greedyRun ∧
    ¬ DrainSound .part3 defaultKernel (.init 4) greedyRun := by
  have hearly (v : Version) : ¬ DrainSound v defaultKernel (.init 4) greedyRun := by
    have hend : (exec v defaultKernel (.init 4) greedyRun).any
        (fun m => m.cvDrain.all fun w => w.who != 2) = true := by cases v <;> decide +kernel
    have hnever : ((greedyRun.drop 4).inits.all fun es₄ =>
        (exec v defaultKernel (.init 4) (greedyRun.take 4 ++ es₄)).all
          fun t => !decide (Drained t)) = true := by cases v <;> decide +kernel
    intro h
    obtain ⟨m, hm, hret⟩ := (Option.any_eq_true _ _).mp hend
    obtain ⟨es₄, t, hpre, hr, hd⟩ := h (greedyRun.take 3) 2 (greedyRun.drop 4) [] m rfl (by decide)
      (run_of_exec hm) (by simpa using hret)
    have hall := List.all_eq_true.mp hnever es₄ ((List.mem_inits _ _).mpr hpre)
    have hexec : exec v defaultKernel (.init 4) (greedyRun.take 4 ++ es₄) = some t :=
      exec_of_run hr
    rw [hexec] at hall
    simp [hd] at hall
  exact ⟨hearly .lib, hearly .part3⟩

/-! ## A drainer that sleeps -/

/-- The readers in the waiting path ask for fewer bytes than an `unsigned` can count. -/
def Fits (m : SocketInfo) : Prop := asked m.cvRead + m.socketInfoMutex.asked < UINT_RANGE

instance : DecidablePred Fits := fun m =>
  inferInstanceAs (Decidable (asked m.cvRead + m.socketInfoMutex.asked < UINT_RANGE))

/-- Whoever sleeps in `draining` has something to wait for. -/
def SleepsRightly (m : SocketInfo) : Prop :=
  ∀ w ∈ m.cvDrain, w.awake = false → m.maxTotalCanRead < m.totalWritten ∧ 0 ≤ m.pair

section Steps

variable {m m' : SocketInfo} {e : Event} {pick : Nat} {r : ReadCall}

theorem SleepsRightly.of_le {m m' : SocketInfo} (h : SleepsRightly m) (hcv : m'.cvDrain = m.cvDrain)
    (hp : m'.pair = m.pair)
    (hlt : m.maxTotalCanRead < m.totalWritten → m'.maxTotalCanRead < m'.totalWritten) :
    SleepsRightly m' := by
  intro w hw hasleep
  obtain ⟨hd, hopen⟩ := h w (hcv ▸ hw) hasleep
  exact ⟨hlt hd, hp ▸ hopen⟩

theorem SleepsRightly.of_notifyAll {cv : CondVar Nat} (hcv : m'.cvDrain = cv.notifyAll) :
    SleepsRightly m' := by
  intro w hw hasleep
  rw [CondVar.awake_of_mem_notifyAll (hcv ▸ hw)] at hasleep
  cases hasleep

theorem SocketInfo.leaveWait_maxTotalCanRead :
    (m.leaveWait pick r).maxTotalCanRead = usub m.maxTotalCanRead r.n := by
  unfold SocketInfo.leaveWait
  dsimp only
  split_ifs <;> rfl

/-- A reader leaves the waiting path with at most what it had asked for. -/
theorem SleepsRightly.afterRead {a : Answer} (h : SleepsRightly m) (hc : Counted K m)
    (hm : m.socketInfoMutex = .waited r) (hf : Fits m) (hd : m.delivers r.n a = true) :
    SleepsRightly (m.afterRead pick r a) := by
  refine h.of_le (SocketInfo.afterRead_cvDrain a) (SocketInfo.afterRead_pair a) fun hlt => ?_
  have hmax : r.n ≤ m.maxTotalCanRead ∧ m.maxTotalCanRead < UINT_RANGE := by
    rw [Fits] at hf
    have hcan := hc.canRead
    rw [Nat.mod_eq_of_lt hf] at hcan
    rw [hm] at hcan hf
    simp only [Holder.asked] at hcan hf
    omega
  have hleft : usub m.maxTotalCanRead r.n = m.maxTotalCanRead - r.n := usub_eq hmax.1 hmax.2
  cases a with
  | bytes k =>
    obtain ⟨hk, -, -⟩ := of_decide_eq_true hd
    rw [SocketInfo.afterRead, SocketInfo.leaveWait_maxTotalCanRead,
      SocketInfo.leaveWait_totalWritten, hleft, usub_eq (by omega) hc.written_lt]
    show m.maxTotalCanRead - r.n < m.totalWritten - k
    omega
  | reset =>
    rw [SocketInfo.afterRead, SocketInfo.leaveWait_maxTotalCanRead,
      SocketInfo.leaveWait_totalWritten, hleft]
    exact Nat.lt_of_le_of_lt (Nat.sub_le _ _) hlt
  | error =>
    rw [SocketInfo.afterRead, SocketInfo.leaveWait_maxTotalCanRead,
      SocketInfo.leaveWait_totalWritten, hleft]
    exact Nat.lt_of_le_of_lt (Nat.sub_le _ _) hlt

/-- While a drainer sleeps there is something to read behind a wait. -/
theorem SleepsRightly.afterWait (h : SleepsRightly m) : SleepsRightly (m.afterWait v pick r) := by
  unfold SocketInfo.afterWait
  split_ifs with hempty
  · intro w hw hasleep
    rw [SocketInfo.afterRead_cvDrain] at hw
    have := (h w hw hasleep).1
    omega
  · exact h

theorem SleepsRightly.step (h : SleepsRightly m) (hc : Counted K m) (hf : Fits m)
    (hs : Step v K m e m') : SleepsRightly m' := by
  cases hs.effect with
  | write => exact h
  | @wrote buf written pick hm hk =>
    cases written with
    | none => exact h
    | some k =>
      unfold SocketInfo.afterWrite
      dsimp only
      split_ifs
      · intro w hw hasleep
        obtain ⟨hd, hp⟩ := h w hw hasleep
        obtain ⟨-, hroom⟩ := of_decide_eq_true hk
        have hcap : K.capacity < UINT_RANGE := Nat.lt_trans K.capacity_lt (by decide)
        have hlen := hc.written (by omega)
        refine ⟨?_, hp⟩
        show m.maxTotalCanRead < uadd m.totalWritten k
        rw [uadd_eq (by omega)]
        omega
      · exact h
  | read =>
    unfold SocketInfo.reading
    dsimp only
    split_ifs
    · exact h
    · exact h
    · exact h
    · exact SleepsRightly.of_notifyAll SocketInfo.afterWait_cvDrain
    · exact SleepsRightly.of_notifyAll rfl
  | @gotFast r a pick hm ha =>
    cases a with
    | bytes k =>
      unfold SocketInfo.afterFastRead
      dsimp only
      split_ifs with hpos hd
      · exact SleepsRightly.of_notifyAll rfl
      · exact h.of_le rfl rfl fun _ => Nat.lt_of_not_le hd
      · exact h
    | _ => exact h
  | gotWaited hm ha => exact h.afterRead hc hm hf ha
  | wakes => exact SleepsRightly.afterWait h
  | wakesAgain => exact h
  | timesOut => exact SleepsRightly.afterWait h
  | tcdrain =>
    unfold SocketInfo.draining
    split_ifs with hw
    · intro w hmem hasleep
      exact ⟨hw.2, hw.1⟩
    · exact h
  | drainWakes hm hcv =>
    intro w hw hasleep
    refine h w ?_ hasleep
    rw [hcv]
    rcases List.mem_append.mp hw with hw | hw
    · exact List.mem_append_left _ hw
    · exact List.mem_append_right _ (List.mem_cons_of_mem _ hw)
  | close =>
    unfold SocketInfo.closing
    dsimp only
    split_ifs with hd
    · exact SleepsRightly.of_notifyAll rfl
    · intro w hw hasleep
      exact absurd (h w hw hasleep).1 hd
  | closePair hm hp hnone =>
    unfold SocketInfo.closingPair
    dsimp only
    have hno : SleepsRightly { m with pair := -2 } := by
      intro w hw
      rw [show m.cvDrain = [] from hnone] at hw
      cases hw
    split_ifs <;> exact hno

end Steps

/-- **No drainer is left behind** in a run whose readers never ask for more bytes than an
`unsigned` can count. -/
theorem no_drainer_left {pairInit : Nat} {es : List Event} {m : SocketInfo}
    (hr : Run (Step v K) (.init pairInit) es m)
    (hf : EveryStep (Step v K) (fun m _ _ => Fits m) (.init pairInit) es) : SleepsRightly m := by
  have hI : Counted K m ∧ SleepsRightly m := by
    refine hr.invariant_of_everyStep (I := fun m => Counted K m ∧ SleepsRightly m)
      (fun h hf hs => ⟨h.1.step hs, h.2.step h.1 hf hs⟩) hf ⟨counted_init K pairInit, ?_⟩
    intro w hw
    cases hw
  exact hI.2

/-- Two readers wait for fifteen bytes, thirty are written, and a drainer goes to sleep. -/
def twoReaders : List Event :=
  [.read readTen 0, .read ⟨3, 5, 5, 0, 0, by decide, by decide⟩ 0, .write (List.replicate 30 65),
    .wrote (some 30) 0, .tcdrain 2]

theorem no_drainer_left_two : ∃ m, Run (Step .lib defaultKernel) (.init 4) twoReaders m ∧
    m.cvRead.length = 2 ∧ (∃ w ∈ m.cvDrain, w.awake = false) ∧ SleepsRightly m := by
  have hrun : (twoReaders.foldlM (fun m e =>
      if decide (Fits m) then step .lib defaultKernel m e else none) (.init 4)).map
        (fun m => (m.cvRead.length, m.cvDrain)) = some (2, [⟨2, false⟩]) := by decide +kernel
  obtain ⟨m, hm, hend⟩ := Option.map_eq_some_iff.mp hrun
  obtain ⟨hlen, hdrain⟩ := Prod.mk.inj hend
  obtain ⟨hr, hf⟩ := @Run.of_checked _ _ (Step .lib defaultKernel) (step .lib defaultKernel)
    (fun m _ => decide (Fits m)) (fun m _ _ => Fits m) Iff.rfl (fun hok _ => of_decide_eq_true hok)
    _ _ _ hm
  refine ⟨m, hr, hlen, ⟨⟨2, false⟩, ?_, rfl⟩, no_drainer_left hr hf⟩
  rw [hdrain]
  exact List.mem_singleton_self _

/-- A call that reads 2 GiB less a byte. -/
def readMost (tid : Nat) : ReadCall := ⟨tid, 0x7fffffff, 0x7fffffff, 0, 0, by decide, by decide⟩

/-- A call that reads seven bytes. -/
def readSeven : ReadCall := ⟨3, 7, 7, 0, 0, by decide, by decide⟩

/-- Two readers of 2 GiB less a byte and one of seven bytes: `maxTotalCanRead` is 5. Seven
bytes are written, a drainer goes to sleep, and the small reader gets them. -/
def wrappedRun : List Event :=
  [.read (readMost 1) 0, .read (readMost 2) 0, .read readSeven 0, .write (List.replicate 7 65),
    .wrote (some 7) 2, .tcdrain 4, .readWakes 3 0, .gotRead (.bytes 7) 0]

/-- The drainer sleeps although nothing is queued. -/
theorem drainer_left_when_wrapped :
    (∃ m, Run (Step .lib defaultKernel) (.init 4) wrappedRun m ∧ ¬ SleepsRightly m) ∧
      ∃ m, Run (Step .part3 defaultKernel) (.init 4) wrappedRun m ∧ ¬ SleepsRightly m := by
  have hleft (v : Version) :
      ∃ m, Run (Step v defaultKernel) (.init 4) wrappedRun m ∧ ¬ SleepsRightly m := by
    have hrun : (exec v defaultKernel (.init 4) wrappedRun).any (fun m =>
        decide (m.totalWritten = 0 ∧ m.cvDrain = [⟨4, false⟩])) = true := by
      cases v <;> decide +kernel
    obtain ⟨m, hm, hend⟩ := (Option.any_eq_true _ _).mp hrun
    obtain ⟨hw, hcv⟩ := of_decide_eq_true hend
    refine ⟨m, run_of_exec hm, fun h => ?_⟩
    have hlt := (h ⟨4, false⟩ (by rw [hcv]; simp) rfl).1
    omega
  exact ⟨hleft .lib, hleft .part3⟩

end YModem.MyIO
