import YModem.MyIO.Delivery

/-!
# Readers that sleep on what is there

`writing` notifies one of the waiting readers, whatever it waits for. A reader that finishes
hands on to another one; a reader that finds too little goes back to sleep and does not.
-/

namespace YModem.MyIO

open YModem.Lib YModem.Peer

/-- When no reader is about to run, none waits for what is there. -/
def NoneLeft (m : SocketInfo) : Prop :=
  m.socketInfoMutex = .free → (∀ w ∈ m.cvRead, w.awake = false) →
    ∀ w ∈ m.cvRead, ¬ m.Satisfied w.who

/-- One of the readers has been notified, or none of them waits for what is there. -/
def SocketInfo.Handed (m : SocketInfo) (cv : CondVar ReadCall) : Prop :=
  (∃ w ∈ cv, w.awake = true) ∨ ∀ w ∈ cv, ¬ m.Satisfied w.who

/-- A reader goes back to sleep only if another one has been notified or none of the others
waits for what is there, and so does a close that notifies nobody. -/
def HandsOn (m : SocketInfo) (e : Event) (_ : SocketInfo) : Prop :=
  (∀ tid pick r, e = .readWakes tid pick → m.cvRead.waiter (·.tid == tid) = some ⟨r, true⟩ →
    ¬ m.Satisfied r → m.Handed (m.cvRead.leave (·.tid == tid))) ∧
  ∀ pick, e = .closePair pick → m.maxTotalCanRead = 0 →
    m.cvRead = [] ∨ ∃ w ∈ m.cvRead, w.awake = true

section Steps

variable {v : Version} {K : Kernel} {m m' : SocketInfo} {e : Event} {pick : Nat} {r : ReadCall}
  {cv : CondVar ReadCall}

theorem SocketInfo.handed_nil : m.Handed [] := .inr fun _ h => absurd h List.not_mem_nil

theorem SocketInfo.handed_notifyOne : m.Handed (cv.notifyOne pick) := by
  cases cv with
  | nil => exact handed_nil
  | cons w cv => exact .inl (CondVar.exists_awake_notifyOne pick (List.mem_cons_self ..))

theorem SocketInfo.Handed.wait (h : m.Handed cv) (hr : ¬ m.Satisfied r) : m.Handed (cv.wait r) := by
  rcases h with ⟨w, hw, hawake⟩ | hnone
  · exact .inl ⟨w, CondVar.mem_wait.mpr (.inl hw), hawake⟩
  · refine .inr fun w hw => ?_
    rcases CondVar.mem_wait.mp hw with hw | rfl
    · exact hnone w hw
    · exact hr

/-- Fewer bytes satisfy no more readers. -/
theorem SocketInfo.Handed.of_le (h : m.Handed cv) (hp : m'.pair = m.pair)
    (hle : 0 ≤ m.pair → m'.totalWritten ≤ m.totalWritten) : m'.Handed cv := by
  refine h.imp_right fun hnone w hw hsat => hnone w hw ?_
  by_cases hneg : m.pair < 0
  · exact .inr hneg
  · rcases hsat with hmin | hclosed
    · exact .inl (Nat.le_trans hmin (hle (by omega)))
    · exact .inr (hp ▸ hclosed)

theorem Step.readWakes_inv {tid : Nat} (hs : Step v K m (.readWakes tid pick) m') :
    m.socketInfoMutex = .free ∧ ∃ r, m.cvRead.waiter (·.tid == tid) = some ⟨r, true⟩ ∧
      m' = if m.Satisfied r then
          { m with cvRead := m.cvRead.leave (·.tid == tid) }.afterWait v pick r
        else { m with cvRead := CondVar.wait (m.cvRead.leave (·.tid == tid)) r } := by
  unfold Step step at hs
  split at hs
  case h_6 tid' pick' he hm =>
    cases he
    split at hs
    case h_1 r hw =>
      cases hs
      exact ⟨hm, r, hw, rfl⟩
    case h_2 => cases hs
  all_goals contradiction

/-! ## Who waits -/

@[simp] theorem SocketInfo.leaveWait_who :
    (m.leaveWait pick r).cvRead.map Waiter.who = m.cvRead.map Waiter.who := by
  unfold SocketInfo.leaveWait
  dsimp only
  split_ifs
  · exact CondVar.map_who_notifyOne pick
  · rfl

@[simp] theorem SocketInfo.afterRead_who (a : Answer) :
    (m.afterRead pick r a).cvRead.map Waiter.who = m.cvRead.map Waiter.who := by
  cases a <;> exact leaveWait_who

@[simp] theorem SocketInfo.afterWait_who :
    (m.afterWait v pick r).cvRead.map Waiter.who = m.cvRead.map Waiter.who := by
  unfold SocketInfo.afterWait
  split_ifs
  · exact afterRead_who _
  · rfl

@[simp] theorem SocketInfo.afterWrite_who (buf : List UInt8) (written : Option Nat) :
    (m.afterWrite pick buf written).cvRead.map Waiter.who = m.cvRead.map Waiter.who := by
  cases written with
  | none => rfl
  | some k =>
    unfold SocketInfo.afterWrite
    dsimp only
    split_ifs
    · exact CondVar.map_who_notifyOne pick
    · rfl

@[simp] theorem SocketInfo.afterFastRead_cvRead (a : Answer) :
    (m.afterFastRead r a).cvRead = m.cvRead := by
  cases a with
  | bytes k =>
    unfold SocketInfo.afterFastRead
    dsimp only
    split_ifs <;> rfl
  | _ => rfl

@[simp] theorem SocketInfo.draining_cvRead (tid : Nat) : (m.draining tid).cvRead = m.cvRead := by
  unfold SocketInfo.draining
  split_ifs <;> rfl

@[simp] theorem SocketInfo.closing_cvRead : m.closing.cvRead = m.cvRead := by
  unfold SocketInfo.closing
  dsimp only
  split_ifs <;> rfl

@[simp] theorem SocketInfo.closingPair_who :
    (m.closingPair pick).cvRead.map Waiter.who = m.cvRead.map Waiter.who := by
  unfold SocketInfo.closingPair
  dsimp only
  split_ifs
  · exact CondVar.map_who_notifyOne pick
  · rfl

/-- The caller joins those who wait, or does not. -/
theorem SocketInfo.reading_who :
    (m.reading v pick r).cvRead.map Waiter.who = m.cvRead.map Waiter.who ∨
      (m.reading v pick r).cvRead.map Waiter.who = m.cvRead.map Waiter.who ++ [r] := by
  unfold SocketInfo.reading
  dsimp only
  split_ifs
  · exact .inl rfl
  · exact .inl rfl
  · exact .inl rfl
  · exact .inl afterWait_who
  · exact .inr (CondVar.map_who_wait r)

/-- Who waits has waited before, or has just called. -/
theorem Step.who_waits (hs : Step v K m e m') (h : r ∈ m'.cvRead.map Waiter.who) :
    r ∈ m.cvRead.map Waiter.who ∨ ∃ pick, e = .read r pick := by
  have hleft {before after : CondVar ReadCall} {w : Waiter ReadCall}
      (hcv : m.cvRead = before ++ w :: after) (h : r ∈ (before ++ after).map Waiter.who) :
      r ∈ m.cvRead.map Waiter.who := by
    rw [hcv]
    simp only [List.map_append, List.map_cons, List.mem_append, List.mem_cons] at h ⊢
    exact h.imp_right .inr
  cases hs.effect with
  | @read r' pick =>
    rcases SocketInfo.reading_who with heq | heq
    · exact .inl (heq ▸ h)
    · rw [heq, List.mem_append] at h
      exact h.imp_right fun h => ⟨pick, by rw [List.mem_singleton.mp h]⟩
  | wakes hm hcv | timesOut hm _ hcv =>
    rw [SocketInfo.afterWait_who] at h
    exact .inl (hleft hcv h)
  | @wakesAgain r' pick before after hm hcv =>
    rw [show _ = (before ++ after).map Waiter.who ++ [r'] from CondVar.map_who_wait r',
      List.mem_append] at h
    rcases h with h | h
    · exact .inl (hleft hcv h)
    · left
      rw [hcv, List.mem_singleton.mp h]
      simp
  | write | drainWakes => exact .inl h
  | _ =>
    left
    simpa using h

/-! ## Handing over -/

/-- What a run of hand-overs keeps. The reader behind its wait will hand on. -/
structure HandedOver (K : Kernel) (m : SocketInfo) : Prop where
  counted : Counted K m
  idle : ClosedIdle m
  known : PairKnown m
  waits : ∀ w ∈ m.cvRead, 1 ≤ w.who.min
  handed : (∃ r, m.socketInfoMutex = .waited r) ∨ m.Handed m.cvRead

theorem HandedOver.noneLeft (h : HandedOver K m) : NoneLeft m := by
  intro hm hasleep
  rcases h.handed with ⟨r, hr⟩ | ⟨w, hw, hawake⟩ | hnone
  · rw [hm] at hr
    cases hr
  · rw [hasleep w hw] at hawake
    cases hawake
  · exact hnone

theorem HandedOver.of_mutex (h : HandedOver K m) (hm : ∀ r, m.socketInfoMutex ≠ .waited r) :
    m.Handed m.cvRead :=
  h.handed.resolve_left fun ⟨r, hr⟩ => hm r hr

/-- A reader that leaves the waiting path hands on if there is something to hand on. -/
theorem SocketInfo.leaveWait_handed (hp : m.pair ≠ -1) (hk : PairKnown m)
    (hmin : ∀ w ∈ m.cvRead, 1 ≤ w.who.min) : (m.leaveWait pick r).Handed (m.leaveWait pick r).cvRead := by
  unfold SocketInfo.leaveWait
  dsimp only
  split_ifs with h
  · exact handed_notifyOne
  · refine .inr fun w hw hsat => ?_
    have hw := hmin w hw
    rcases hsat with hle | hneg
    · have hle : w.who.min ≤ m.totalWritten := hle
      exact h (.inl (by omega))
    · have hneg : m.pair < 0 := hneg
      rcases hk with h' | h' | h'
      · omega
      · exact hp h'
      · exact h (.inr h')

theorem HandedOver.step (h : HandedOver K m) (hs : Step .part3 K m e m') (hc : HandsOn m e m')
    (hmin : ∀ r pick, e = .read r pick → 1 ≤ r.min) : HandedOver K m' := by
  refine ⟨h.counted.step hs, h.idle.step hs, h.known.step hs, fun w hw => ?_, ?_⟩
  · rcases hs.who_waits (List.mem_map_of_mem hw) with hmem | ⟨pick, he⟩
    · obtain ⟨w', hw', heq⟩ := List.mem_map.mp hmem
      exact heq ▸ h.waits w' hw'
    · exact hmin _ pick he
  cases hs.effect with
  | write hm | drainWakes hm => exact .inr (h.of_mutex (by simp [hm]))
  | tcdrain hm =>
    have hh := h.of_mutex (by simp [hm])
    unfold SocketInfo.draining
    split_ifs <;> exact .inr hh
  | @wrote buf written pick hm hk =>
    have hh := h.of_mutex (by simp [hm])
    cases written with
    | none => exact .inr hh
    | some k =>
      unfold SocketInfo.afterWrite
      dsimp only
      split_ifs
      · exact .inr SocketInfo.handed_notifyOne
      · exact .inr hh
  | @read r pick hm =>
    have hh := h.of_mutex (by simp [hm])
    unfold SocketInfo.reading
    dsimp only
    split_ifs with _ _ _ hsat
    · exact .inr hh
    · exact .inr hh
    · exact .inr hh
    · exact .inl ⟨r, rfl⟩
    · exact .inr (hh.wait hsat)
  | @gotFast r a pick hm ha =>
    have hh := h.of_mutex (by simp [hm])
    cases a with
    | bytes k =>
      have htaken : 0 ≤ m.pair → usub m.totalWritten k ≤ m.totalWritten := by
        intro hp
        have hlen := h.counted.written (by omega)
        have hk := le_of_delivers ha
        rw [usub_eq (hlen ▸ hk) h.counted.written_lt]
        exact Nat.sub_le _ _
      unfold SocketInfo.afterFastRead
      dsimp only
      split_ifs
      · exact .inr (hh.of_le rfl htaken)
      · exact .inr (hh.of_le rfl htaken)
      · exact .inr hh
    | _ => exact .inr hh
  | @gotWaited r a pick hm ha =>
    have hp : m.pair ≠ -1 := by
      intro hp
      rw [(h.idle hp).1] at hm
      cases hm
    cases a <;> exact .inr (SocketInfo.leaveWait_handed hp h.known h.waits)
  | @wakes r => exact .inl ⟨r, rfl⟩
  | @wakesAgain r pick before after hm hcv hsat =>
    obtain ⟨-, r', hw, heq⟩ := hs.readWakes_inv
    rw [heq]
    split_ifs with hsat'
    · exact .inl ⟨r', rfl⟩
    · exact .inr ((hc.1 _ pick r' rfl hw hsat').wait hsat')
  | timesOut _ hv => cases hv
  | close hm hp hr =>
    right
    rw [SocketInfo.closing_cvRead, hr]
    exact SocketInfo.handed_nil
  | @closePair pick hm hp =>
    unfold SocketInfo.closingPair
    dsimp only
    split_ifs with hmax
    · exact .inr SocketInfo.handed_notifyOne
    · right
      rcases hc.2 pick rfl (by omega) with hnil | hawake
      · show SocketInfo.Handed _ m.cvRead
        rw [hnil]
        exact SocketInfo.handed_nil
      · exact .inl hawake

theorem handedOver_init (K : Kernel) (pairInit : Nat) : HandedOver K (.init pairInit) where
  counted := counted_init K pairInit
  idle := closedIdle_init pairInit
  known := .inl (Int.natCast_nonneg pairInit)
  waits := fun _ h => absurd h List.not_mem_nil
  handed := .inr SocketInfo.handed_nil

/-- A step that leaves nobody behind has handed on. -/
theorem Step.handsOn_of_noneLeft (hs : Step v K m e m') (h : NoneLeft m') : HandsOn m e m' := by
  constructor
  · rintro tid pick r rfl hw hsat
    obtain ⟨hm, r', hw', heq⟩ := hs.readWakes_inv
    obtain rfl : r = r' := by
      rw [hw] at hw'
      cases hw'
      rfl
    rw [if_neg hsat] at heq
    subst heq
    by_cases hawake : ∃ w ∈ m.cvRead.leave (·.tid == tid), w.awake = true
    · exact .inl hawake
    · have hasleep : ∀ w ∈ CondVar.wait (m.cvRead.leave (·.tid == tid)) r, w.awake = false := by
        intro w hw
        rcases CondVar.mem_wait.mp hw with hw | rfl
        · exact Bool.eq_false_iff.mpr fun ht => hawake ⟨w, hw, ht⟩
        · rfl
      exact .inr fun w hw => h hm hasleep w (CondVar.mem_wait.mpr (.inl hw))
  · rintro pick rfl hmax
    cases hs.effect with
    | closePair hm hp =>
      unfold SocketInfo.closingPair at h
      rw [if_neg (by show ¬ m.maxTotalCanRead > 0; omega)] at h
      by_cases hawake : ∃ w ∈ m.cvRead, w.awake = true
      · exact .inr hawake
      · left
        refine List.eq_nil_iff_forall_not_mem.mpr fun w hw => ?_
        have hasleep : ∀ w ∈ m.cvRead, w.awake = false :=
          fun w hw => Bool.eq_false_iff.mpr fun ht => hawake ⟨w, hw, ht⟩
        exact h hm hasleep w hw (.inr (show (-2 : Int) < 0 by decide))

end Steps

/-- **No reader sleeps on what is there**, in every state of a run, exactly when every
reader that goes back to sleep, and every close, leaves the others to somebody. -/
theorem noneLeft_iff {K : Kernel} {es : List Event} (pairInit : Nat)
    (hmin : ∀ r pick, .read r pick ∈ es → 1 ≤ r.min ∧ r.min ≤ r.n) :
    EveryStep (Step .part3 K) (fun _ _ m' => NoneLeft m') (.init pairInit) es ↔
      EveryStep (Step .part3 K) HandsOn (.init pairInit) es := by
  constructor
  · intro h es₁ e es₂ t u heq hr hs
    exact hs.handsOn_of_noneLeft (h es₁ e es₂ t u heq hr hs)
  · intro h es₁ e es₂ t u heq hr hs
    have hlabels : EveryStep (Step .part3 K)
        (fun _ e _ => ∀ r pick, e = .read r pick → 1 ≤ r.min) (.init pairInit) es := by
      refine EveryStep.of_labels fun e he r pick hread => (hmin r pick ?_).1
      exact hread ▸ he
    have hstep := h.and hlabels
    rw [heq, List.append_cons] at hstep
    have hI : HandedOver K u := (hr.tail hs).invariant_of_everyStep
      (fun h hc hs => h.step hs hc.1 hc.2) hstep.init (handedOver_init K pairInit)
    exact hI.noneLeft

/-- A byte is written for a reader that waits for one. -/
def wakeRun : List Event :=
  [.read readOne 0, .write [65], .wrote (some 1) 0, .readWakes 1 0]

theorem noneLeft_wakeRun :
    EveryStep (Step .part3 defaultKernel) (fun _ _ m' => NoneLeft m') (.init 4) wakeRun := by
  refine (noneLeft_iff 4 ?_).mpr ?_
  · intro r pick h
    simp only [wakeRun, List.mem_cons, List.not_mem_nil, or_false] at h
    rcases h with h | h | h | h <;> cases h
    decide
  · refine .cons fun t ht => ⟨⟨by simp, by simp⟩, ?_⟩
    cases ht
    refine .cons fun t ht => ⟨⟨by simp, by simp⟩, ?_⟩
    cases ht
    refine .cons fun t ht => ⟨⟨by simp, by simp⟩, ?_⟩
    cases ht
    refine .cons fun t ht => ⟨⟨fun tid pick r he hw hsat => ?_, by simp⟩, .nil⟩
    cases he
    cases hw
    exact absurd (.inl (Nat.le_refl 1)) hsat

/-- A reader of ten bytes and a reader of one byte wait, and five bytes are written. -/
def sleepRun : List Event :=
  [.read readTen 0, .read { readOne with tid := 2 } 0, .write (List.replicate 5 65),
    .wrote (some 5) 0, .readWakes 1 0]

/-- The first reader is notified and goes back to sleep, and the second one sleeps on. -/
theorem reader_left_asleep :
    ¬ EveryStep (Step .part3 defaultKernel) (fun _ _ m' => NoneLeft m') (.init 4) sleepRun := by
  have hrun : (exec .part3 defaultKernel (.init 4) sleepRun).any (fun m => decide
      (m.socketInfoMutex = .free ∧ m.totalWritten = 5 ∧
        m.cvRead = [⟨{ readOne with tid := 2 }, false⟩, ⟨readTen, false⟩])) = true := by
    decide +kernel
  obtain ⟨m, hm, hend⟩ := (Option.any_eq_true _ _).mp hrun
  obtain ⟨hfree, hw, hcv⟩ := of_decide_eq_true hend
  intro h
  have hlast : Run (Step .part3 defaultKernel) (.init 4)
      (sleepRun.dropLast ++ [.readWakes 1 0]) m := run_of_exec hm
  obtain ⟨t, hr, hs⟩ := hlast.snoc_inv
  have hnone := h sleepRun.dropLast (.readWakes 1 0) [] t m rfl hr hs hfree
    (by rw [hcv]; decide) ⟨{ readOne with tid := 2 }, false⟩ (by rw [hcv]; simp)
  exact hnone (.inl (by rw [hw]; decide))

end YModem.MyIO
