import YModem.MyIO.SocketInfo

/-!
# What one step does

`Effect` lists the steps with the conditions under which they are taken, and the lemmas
behind it say what each piece of a member function leaves alone.
-/

namespace YModem.MyIO

open YModem.Lib YModem.Peer

inductive Effect (v : Version) (K : Kernel) (m : SocketInfo) : Event → SocketInfo → Prop where
  | write {buf} (hm : m.socketInfoMutex = .free) (hp : 0 ≤ m.pair) :
      Effect v K m (.write buf) (m.writing buf)
  | wrote {buf written pick} (hm : m.socketInfoMutex = .writing buf)
      (hk : K.accepts m buf written = true) :
      Effect v K m (.wrote written pick) (m.afterWrite pick buf written)
  | read {r pick} (hm : m.socketInfoMutex = .free) (hp : m.pair ≠ -1)
      (hi : m.idle r.tid = true) (hx : ¬ m.exits v r) :
      Effect v K m (.read r pick) (m.reading v pick r)
  | gotFast {r a pick} (hm : m.socketInfoMutex = .reading r) (ha : m.delivers r.n a = true) :
      Effect v K m (.gotRead a pick) (m.afterFastRead r a)
  | gotWaited {r a pick} (hm : m.socketInfoMutex = .waited r) (ha : m.delivers r.n a = true) :
      Effect v K m (.gotRead a pick) (m.afterRead pick r a)
  | wakes {r pick before after} (hm : m.socketInfoMutex = .free)
      (hcv : m.cvRead = before ++ ⟨r, true⟩ :: after) (hs : m.Satisfied r) :
      Effect v K m (.readWakes r.tid pick)
        ({ m with cvRead := before ++ after }.afterWait v pick r)
  | wakesAgain {r pick before after} (hm : m.socketInfoMutex = .free)
      (hcv : m.cvRead = before ++ ⟨r, true⟩ :: after) (hs : ¬ m.Satisfied r) :
      Effect v K m (.readWakes r.tid pick)
        { m with cvRead := CondVar.wait (before ++ after) r }
  | timesOut {r pick before after} (hm : m.socketInfoMutex = .free) (hv : v = .lib)
      (hcv : m.cvRead = before ++ ⟨r, false⟩ :: after) :
      Effect v K m (.readTimesOut r.tid pick)
        ({ m with cvRead := before ++ after }.afterWait v pick r)
  | tcdrain {tid} (hm : m.socketInfoMutex = .free) (hp : m.pair ≠ -2)
      (hi : m.idle tid = true) : Effect v K m (.tcdrain tid) (m.draining tid)
  | drainWakes {tid before after} (hm : m.socketInfoMutex = .free)
      (hcv : m.cvDrain = before ++ ⟨tid, true⟩ :: after) :
      Effect v K m (.drainWakes tid)
        { m with cvDrain := before ++ after, returns := m.returns ++ [.drained tid] }
  | close (hm : m.socketInfoMutex = .free) (hp : 0 ≤ m.pair) (hr : m.cvRead = []) :
      Effect v K m .close m.closing
  | closePair {pick} (hm : m.socketInfoMutex = .free) (hp : 0 ≤ m.pair) (hd : m.cvDrain = []) :
      Effect v K m (.closePair pick) (m.closingPair pick)

variable {v : Version} {K : Kernel} {m m' : SocketInfo} {e : Event} {pick : Nat} {r : ReadCall}

/-- **One step, one effect.** -/
theorem Step.effect (h : Step v K m e m') : Effect v K m e m' := by
  unfold Step step at h
  split at h
  case h_1 buf hm =>
    split_ifs at h with hp
    cases h
    exact .write hm hp
  case h_2 written pick buf hm =>
    split_ifs at h with hk
    cases h
    exact .wrote hm hk
  case h_3 r pick hm =>
    split_ifs at h with hp
    cases h
    exact .read hm hp.1 hp.2.1 hp.2.2
  case h_4 a pick r hm =>
    split_ifs at h with ha
    cases h
    exact .gotFast hm ha
  case h_5 a pick r hm =>
    split_ifs at h with ha
    cases h
    exact .gotWaited hm ha
  case h_6 tid pick hm =>
    split at h
    case h_1 r hw =>
      obtain ⟨htid, before, after, hcv, hleave⟩ := CondVar.leave_spec hw
      obtain rfl : r.tid = tid := by simpa using htid
      cases h
      simp only [hleave]
      split_ifs with hs
      · exact .wakes hm hcv hs
      · exact .wakesAgain hm hcv hs
    case h_2 => cases h
  case h_7 tid pick hm =>
    split at h
    case h_1 r hw =>
      obtain ⟨htid, before, after, hcv, hleave⟩ := CondVar.leave_spec hw
      obtain rfl : r.tid = tid := by simpa using htid
      cases h
      simp only [hleave]
      exact .timesOut hm rfl hcv
    case h_2 => cases h
  case h_8 tid hm =>
    split_ifs at h with hp
    cases h
    exact .tcdrain hm hp.1 hp.2
  case h_9 tid hm =>
    split at h
    case h_1 who hw =>
      obtain ⟨htid, before, after, hcv, hleave⟩ := CondVar.leave_spec hw
      obtain rfl : who = tid := by simpa using htid
      cases h
      rw [hleave]
      exact .drainWakes hm hcv
    case h_2 => cases h
  case h_10 hm =>
    split_ifs at h with hp
    cases h
    exact .close hm hp.1 hp.2
  case h_11 pick hm =>
    split_ifs at h with hp
    cases h
    exact .closePair hm hp.1 hp.2
  case h_12 => cases h

/-! ## The descriptors -/

section Pieces

@[simp] theorem SocketInfo.leaveWait_pair : (m.leaveWait pick r).pair = m.pair := by
  unfold SocketInfo.leaveWait
  dsimp only
  split_ifs <;> rfl

theorem SocketInfo.leaveWait_mutex : (m.leaveWait pick r).socketInfoMutex = .free := by
  unfold SocketInfo.leaveWait
  dsimp only
  split_ifs <;> rfl

@[simp] theorem SocketInfo.afterRead_pair (a : Answer) : (m.afterRead pick r a).pair = m.pair := by
  cases a <;> exact leaveWait_pair

theorem SocketInfo.afterRead_mutex (a : Answer) :
    (m.afterRead pick r a).socketInfoMutex = .free := by
  cases a <;> exact leaveWait_mutex

@[simp] theorem SocketInfo.afterWait_pair : (m.afterWait v pick r).pair = m.pair := by
  unfold SocketInfo.afterWait
  split_ifs
  · exact afterRead_pair _
  · rfl

@[simp] theorem SocketInfo.reading_pair : (m.reading v pick r).pair = m.pair := by
  unfold SocketInfo.reading
  dsimp only
  split_ifs
  · rfl
  · rfl
  · rfl
  · exact afterWait_pair
  · rfl

@[simp] theorem SocketInfo.afterWrite_pair (buf : List UInt8) (written : Option Nat) :
    (m.afterWrite pick buf written).pair = m.pair := by
  cases written with
  | none => rfl
  | some k =>
    unfold SocketInfo.afterWrite
    dsimp only
    split_ifs <;> rfl

@[simp] theorem SocketInfo.afterFastRead_pair (a : Answer) :
    (m.afterFastRead r a).pair = m.pair := by
  cases a with
  | bytes k =>
    unfold SocketInfo.afterFastRead
    dsimp only
    split_ifs <;> rfl
  | _ => rfl

@[simp] theorem SocketInfo.draining_pair (tid : Nat) : (m.draining tid).pair = m.pair := by
  unfold SocketInfo.draining
  split_ifs <;> rfl

@[simp] theorem SocketInfo.closing_pair : m.closing.pair = -1 := by
  unfold SocketInfo.closing
  dsimp only
  split_ifs <;> rfl

@[simp] theorem SocketInfo.closingPair_pair : (m.closingPair pick).pair = -2 := by
  unfold SocketInfo.closingPair
  dsimp only
  split_ifs <;> rfl

theorem SocketInfo.afterWrite_mutex (buf : List UInt8) (written : Option Nat) :
    (m.afterWrite pick buf written).socketInfoMutex = .free := by
  cases written with
  | none => rfl
  | some k =>
    unfold SocketInfo.afterWrite
    dsimp only
    split_ifs <;> rfl

theorem SocketInfo.afterFastRead_mutex (a : Answer) :
    (m.afterFastRead r a).socketInfoMutex = .free := by
  cases a with
  | bytes k =>
    unfold SocketInfo.afterFastRead
    dsimp only
    split_ifs <;> rfl
  | _ => rfl

@[simp] theorem SocketInfo.draining_mutex (tid : Nat) :
    (m.draining tid).socketInfoMutex = m.socketInfoMutex := by
  unfold SocketInfo.draining
  split_ifs <;> rfl

@[simp] theorem SocketInfo.closing_mutex : m.closing.socketInfoMutex = m.socketInfoMutex := by
  unfold SocketInfo.closing
  dsimp only
  split_ifs <;> rfl

@[simp] theorem SocketInfo.closingPair_mutex :
    (m.closingPair pick).socketInfoMutex = m.socketInfoMutex := by
  unfold SocketInfo.closingPair
  dsimp only
  split_ifs <;> rfl

theorem SocketInfo.afterWait_mutex :
    (m.afterWait v pick r).socketInfoMutex = .free ∨
      (m.afterWait v pick r).socketInfoMutex = .waited r := by
  unfold SocketInfo.afterWait
  split_ifs
  · exact .inl (afterRead_mutex _)
  · exact .inr rfl

/-- A thread in `reading` keeps the mutex only for a call of `read`. -/
theorem SocketInfo.reading_mutex (hm : m.socketInfoMutex = .free) :
    (m.reading v pick r).socketInfoMutex = .free ∨
      (m.reading v pick r).socketInfoMutex = .reading r ∨
      (m.reading v pick r).socketInfoMutex = .waited r := by
  unfold SocketInfo.reading
  dsimp only
  split_ifs
  · exact .inl hm
  · exact .inl hm
  · exact .inr (.inl rfl)
  · exact afterWait_mutex.imp_right .inr
  · exact .inl hm

end Pieces

/-- Only `closing` changes `pair`. -/
theorem Effect.pair_eq (h : Effect v K m e m') :
    m'.pair = m.pair ∨ (0 ≤ m.pair ∧ m.socketInfoMutex = .free ∧
      ((e = .close ∧ m.cvRead = [] ∧ m' = m.closing) ∨
        ∃ pick, e = .closePair pick ∧ m.cvDrain = [] ∧ m' = m.closingPair pick)) := by
  cases h with
  | close hm hp hr => exact .inr ⟨hp, hm, .inl ⟨rfl, hr, rfl⟩⟩
  | @closePair pick hm hp hd => exact .inr ⟨hp, hm, .inr ⟨pick, rfl, hd, rfl⟩⟩
  | wakes => exact .inl SocketInfo.afterWait_pair
  | timesOut => exact .inl SocketInfo.afterWait_pair
  | write | wakesAgain | drainWakes => exact .inl rfl
  | _ => exact .inl (by simp)

/-- Nobody reads or writes on the object of a closed descriptor. -/
def ClosedIdle (m : SocketInfo) : Prop :=
  m.pair = -1 → m.socketInfoMutex = .free ∧ m.cvRead = []

theorem closedIdle_init (pairInit : Nat) : ClosedIdle (.init pairInit) := fun _ => ⟨rfl, rfl⟩

/-- The values of `pair`. -/
def PairKnown (m : SocketInfo) : Prop := 0 ≤ m.pair ∨ m.pair = -1 ∨ m.pair = -2

theorem PairKnown.step (h : PairKnown m) (hs : Step v K m e m') : PairKnown m' := by
  rcases hs.effect.pair_eq with heq | ⟨-, -, ⟨-, -, rfl⟩ | ⟨pick, -, -, rfl⟩⟩
  · rwa [PairKnown, heq]
  · exact .inr (.inl SocketInfo.closing_pair)
  · exact .inr (.inr SocketInfo.closingPair_pair)

theorem ClosedIdle.step (h : ClosedIdle m) (hs : Step v K m e m') : ClosedIdle m' := by
  have heff := hs.effect
  intro hp
  rcases heff.pair_eq with heq | ⟨-, hm, ⟨-, hr, rfl⟩ | ⟨pick, -, -, rfl⟩⟩
  · obtain ⟨hfree, hnone⟩ := h (heq ▸ hp)
    cases heff with
    | tcdrain =>
      unfold SocketInfo.draining
      split_ifs <;> exact ⟨hfree, hnone⟩
    | drainWakes => exact ⟨hfree, hnone⟩
    | write _ hp' => omega
    | read _ hp' => exact absurd (heq ▸ hp) hp'
    | wrote hm | gotFast hm | gotWaited hm =>
      rw [hfree] at hm
      cases hm
    | wakes _ hcv | wakesAgain _ hcv | timesOut _ _ hcv =>
      rw [hnone] at hcv
      simp at hcv
    | close _ hp' => omega
    | closePair _ hp' => omega
  · unfold SocketInfo.closing
    dsimp only
    split_ifs <;> exact ⟨hm, hr⟩
  · simp at hp

/-! ## Runs on given events -/

/-- The steps of a list of events, if they can all be taken. -/
def exec (v : Version) (K : Kernel) (m : SocketInfo) (es : List Event) : Option SocketInfo :=
  es.foldlM (step v K) m

theorem run_of_exec {es : List Event} (h : exec v K m es = some m') : Run (Step v K) m es m' :=
  Run.foldlM_iff.mp h

theorem exec_of_run {es : List Event} (h : Run (Step v K) m es m') : exec v K m es = some m' :=
  Run.foldlM_iff.mpr h

end YModem.MyIO
