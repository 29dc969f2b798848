import YModem.MyIO.DesInfoMap
import YModem.MyIO.Drain

/-!
# The map pairs the descriptors, and the objects count for them

An object that the map holds has its own descriptor, and names the descriptor of its pair
until that is closed. This rests on what `myClose` asks of its callers: while a call of
`mySocketpair` is in progress, nobody closes the descriptors that it will return.
-/

namespace YModem.MyIO

open YModem.Lib YModem.Peer

/-- No descriptor stands for the end. -/
def Sys.Closed (s : Sys) (o : End) : Prop := ∀ des, s.table des ≠ some (.sock o)

/-- Every entry has an object; its pair is in the map and names it, or has been closed. -/
def Sys.Symmetric (s : Sys) : Prop :=
  ∀ des entry, s.desInfoMap des = some entry → ∃ o, entry = some o ∧
    ((∃ p q, 0 ≤ p ∧ (s.objs o).pair = p ∧ s.desInfoMap p = some (some q) ∧ (s.objs q).pair = des) ∨
      ((s.objs o).pair = -2 ∧ s.Closed o.mate))

/-- `myClose` is not called on a descriptor of a call of `mySocketpair` in progress. -/
def ClosesReturned (s : Sys) (e : SysEvent) (_ : Sys) : Prop :=
  ∀ des pick, e = .myClose des pick → ∀ x ∈ s.opening, des ≠ x.des0 ∧ des ≠ x.des1

/-- The entry of `des`, whose object is `o`. -/
def Sys.Entry (s : Sys) (des : Int) (o : End) : Prop :=
  (0 ≤ (s.objs o).pair ∧ s.desInfoMap (s.objs o).pair = some (some o.mate) ∧
      (s.objs o.mate).pair = des) ∨
    ((s.objs o).pair = -2 ∧ s.Closed o.mate)

structure Coherent (s : Sys) : Prop where
  sound : s.fault = false
  nonneg : ∀ des o, s.table des = some (.sock o) → 0 ≤ des
  made : ∀ des o, s.table des = some (.sock o) → o.idx < s.made
  unique : ∀ des des' o, s.table des = some (.sock o) → s.table des' = some (.sock o) → des = des'
  opening : ∀ x ∈ s.opening, s.table x.des0 = some (.sock ⟨x.idx, false⟩) ∧
    s.table x.des1 = some (.sock ⟨x.idx, true⟩) ∧
    s.desInfoMap x.des0 = none ∧ s.desInfoMap x.des1 = none
  entries : ∀ des entry, s.desInfoMap des = some entry →
    ∃ o, entry = some o ∧ s.table des = some (.sock o) ∧ s.Entry des o

@[simp] theorem End.mate_mate (o : End) : o.mate.mate = o := by
  simp [End.mate]

theorem End.mate_ne (o : End) : o.mate ≠ o := by
  intro h
  have hside : (!o.side) = o.side := congrArg End.side h
  simp at hside

section Steps

variable {v : Version} {K : Kernel} {s s' : Sys} {e : SysEvent} {des : Int} {o : End}

/-! ## Every object is a monitor -/

/-- A step of the process is at most one step of each object, or makes the object. -/
theorem SysEffect.objs_cases (h : SysEffect v K s e s') (o : End) :
    s'.objs o = s.objs o ∨ (∃ e', Step v K (s.objs o) e' (s'.objs o)) ∨
      ∃ pairInit : Nat, s'.objs o = .init pairInit := by
  cases h with
  | socketpair | opens | closeOther | closeSecond => exact .inl rfl
  | wrongObject _ _ hobjs | wrongPair _ _ _ _ hobjs => exact .inl (congrFun hobjs o)
  | @enter x =>
    by_cases ht : o = ⟨x.idx, true⟩
    · subst ht
      exact .inr (.inr ⟨x.des0, Function.update_self ..⟩)
    by_cases hf : o = ⟨x.idx, false⟩
    · subst hf
      refine .inr (.inr ⟨x.des1, (Function.update_of_ne ht ..).trans (Function.update_self ..)⟩)
    · exact .inl ((Function.update_of_ne ht ..).trans (Function.update_of_ne hf ..))
  | @call _ o' e' m hs =>
    by_cases ho : o = o'
    · subst ho
      refine .inr (.inl ⟨e', ?_⟩)
      show Step v K (s.objs o) e' (Function.update s.objs o m o)
      rwa [Function.update_self]
    · exact .inl (Function.update_of_ne ho ..)
  | @closeFirst des pick o' q m m' _ _ _ _ _ hs hs' =>
    by_cases hq : o = q
    · subst hq
      refine .inr (.inl ⟨.closePair pick, ?_⟩)
      show Step v K (s.objs o) _ (Function.update (Function.update s.objs o' m) o m' o)
      rwa [Function.update_self]
    by_cases ho : o = o'
    · subst ho
      refine .inr (.inl ⟨.close, ?_⟩)
      show Step v K (s.objs o) _ (Function.update (Function.update s.objs o m) q m' o)
      rwa [Function.update_of_ne hq, Function.update_self]
    · exact .inl ((Function.update_of_ne hq ..).trans (Function.update_of_ne ho ..))

/-- **Every object is reached by steps of its own**, so that what holds in all runs of one
object holds of all objects. -/
theorem component {es : List SysEvent} (hr : Run (SysStep v K) .init es s) (o : End) :
    ∃ (pairInit : Nat) (es' : List Event), Run (Step v K) (.init pairInit) es' (s.objs o) := by
  refine hr.invariant (I := fun s => ∀ o, ∃ (pairInit : Nat) (es' : List Event),
    Run (Step v K) (.init pairInit) es' (s.objs o)) (fun {s e s'} h hs o => ?_)
    (fun o => ⟨0, [], .refl⟩) o
  obtain ⟨p, es', hr'⟩ := h o
  rcases hs.effect.2.objs_cases o with heq | ⟨e', hs'⟩ | ⟨p', heq⟩
  · exact ⟨p, es', heq ▸ hr'⟩
  · exact ⟨p, es' ++ [e'], hr'.tail hs'⟩
  · exact ⟨p', [], heq ▸ .refl⟩

end Steps

/-! ## The counters -/

/-- For a descriptor whose pair is open and whose mutex is free, the bytes queued are counted
as written, and the bytes that the waiting readers have asked for as those that can be read. -/
def Sys.CountersRight (s : Sys) : Prop :=
  ∀ des o, s.desInfoMap des = some (some o) → 0 ≤ (s.objs o).pair →
    (s.objs o).socketInfoMutex = .free →
    (s.objs o).totalWritten = (s.objs o).queue.length ∧
      (s.objs o).maxTotalCanRead = asked (s.objs o).cvRead

/-- The same up to the width of an `unsigned`; and what is taken off a counter is there. -/
structure CountersWrap (m : SocketInfo) : Prop where
  written : m.socketInfoMutex = .free → m.totalWritten = m.queue.length
  canRead : m.socketInfoMutex = .free → m.maxTotalCanRead = asked m.cvRead % UINT_RANGE
  exact : Fits m → m.socketInfoMutex = .free → m.maxTotalCanRead = asked m.cvRead
  taken : ∀ n k, m.delivers n (.bytes k) = true → k ≤ m.totalWritten
  left : Fits m → ∀ r, (∃ w ∈ m.cvRead, w.who = r) ∨ m.socketInfoMutex = .waited r →
    r.n ≤ m.maxTotalCanRead

theorem le_asked {cv : CondVar ReadCall} {w : Waiter ReadCall} (h : w ∈ cv) :
    w.who.n ≤ asked cv := by
  obtain ⟨before, after, rfl⟩ := List.append_of_mem h
  rw [asked_split]
  exact Nat.le_add_left _ _

theorem Counted.countersWrap {K : Kernel} {m : SocketInfo} (h : Counted K m) (hp : 0 ≤ m.pair) :
    CountersWrap m := by
  have hlen : m.totalWritten = m.queue.length := h.written (by omega)
  have hcan : m.socketInfoMutex = .free → m.maxTotalCanRead = asked m.cvRead % UINT_RANGE := by
    intro hm
    simpa [hm, Holder.asked] using h.canRead
  have hexact : Fits m → m.maxTotalCanRead = asked m.cvRead + m.socketInfoMutex.asked := by
    intro hf
    rw [h.canRead, Nat.mod_eq_of_lt hf]
  refine ⟨fun _ => hlen, hcan, fun hf hm => ?_, fun n k hd => hlen ▸ le_of_delivers hd, ?_⟩
  · simpa [hm, Holder.asked] using hexact hf
  · rintro hf r (⟨w, hw, rfl⟩ | hm)
    · rw [hexact hf]
      exact Nat.le_trans (le_asked hw) (Nat.le_add_right _ _)
    · rw [hexact hf, hm]
      exact Nat.le_add_left _ _

variable {v : Version} {K : Kernel}

/-- **The counters are right**, up to the width of an `unsigned`. -/
theorem counters_right {s : Sys} {es : List SysEvent} (hr : Run (SysStep v K) .init es s) :
    ∀ des o, s.desInfoMap des = some (some o) → 0 ≤ (s.objs o).pair → CountersWrap (s.objs o) := by
  intro des o _ hp
  obtain ⟨pairInit, es', hr'⟩ := component hr o
  exact ((counted_init K pairInit).run hr').countersWrap hp

/-- Two bytes are written on descriptor 3. -/
def writtenSys : List SysEvent :=
  [.socketpair 3 4, .mySocketpair 0, .myWrite 3 [65, 66], .inside ⟨0, true⟩ (.wrote (some 2) 0)]

theorem counters_right_written : ∃ s, Run (SysStep .lib defaultKernel) .init writtenSys s ∧
    (s.objs ⟨0, true⟩).totalWritten = 2 ∧ CountersWrap (s.objs ⟨0, true⟩) := by
  have hrun : (writtenSys.foldlM (sysStep .lib defaultKernel) .init).any (fun s => decide
      (s.desInfoMap 4 = some (some ⟨0, true⟩) ∧ (s.objs ⟨0, true⟩).pair = 3 ∧
        (s.objs ⟨0, true⟩).totalWritten = 2)) = true := by decide +kernel
  obtain ⟨s, hs, hend⟩ := (Option.any_eq_true _ _).mp hrun
  obtain ⟨hd, hp, hw⟩ := of_decide_eq_true hend
  exact ⟨s, Run.foldlM_iff.mp hs, hw, counters_right (Run.foldlM_iff.mp hs) 4 _ hd (by omega)⟩

/-- Two readers of 2 GiB less a byte and one of seven bytes wait on descriptor 4. -/
def wrappedSys : List SysEvent :=
  [.socketpair 3 4, .mySocketpair 0, .myRead 4 (readMost 1) 0, .myRead 4 (readMost 2) 0,
    .myRead 4 readSeven 0]

/-- They have asked for more bytes than an `unsigned` can count: `maxTotalCanRead` is 5. -/
theorem counters_wrap_around :
    (∃ s, Run (SysStep .lib defaultKernel) .init wrappedSys s ∧ ¬ s.CountersRight) ∧
      ∃ s, Run (SysStep .part3 defaultKernel) .init wrappedSys s ∧ ¬ s.CountersRight := by
  have hwrap (v : Version) :
      ∃ s, Run (SysStep v defaultKernel) .init wrappedSys s ∧ ¬ s.CountersRight := by
    have hrun : (wrappedSys.foldlM (sysStep v defaultKernel) .init).any (fun s => decide
        (s.desInfoMap 4 = some (some ⟨0, true⟩) ∧ (s.objs ⟨0, true⟩).pair = 3 ∧
          (s.objs ⟨0, true⟩).socketInfoMutex = .free ∧ (s.objs ⟨0, true⟩).maxTotalCanRead = 5 ∧
          asked (s.objs ⟨0, true⟩).cvRead = 0x100000005)) = true := by
      cases v <;> decide +kernel
    obtain ⟨s, hs, hend⟩ := (Option.any_eq_true _ _).mp hrun
    obtain ⟨hd, hp, hm, hmax, hasked⟩ := of_decide_eq_true hend
    refine ⟨s, Run.foldlM_iff.mp hs, fun h => ?_⟩
    have hcan := (h 4 _ hd (by omega) hm).2
    omega
  exact ⟨hwrap .lib, hwrap .part3⟩

/-! ## The pairing -/

section Steps

variable {s s' : Sys} {e : SysEvent} {des : Int} {o : End}

theorem coherent_init : Coherent .init := by
  refine ⟨rfl, ?_, ?_, ?_, ?_, ?_⟩ <;> simp [Sys.init]

theorem Coherent.own (h : Coherent s) (hd : s.desInfoMap des = some (some o)) :
    s.table des = some (.sock o) ∧ s.Entry des o := by
  obtain ⟨o', ho, ht, he⟩ := h.entries des _ hd
  cases ho
  exact ⟨ht, he⟩

/-- Descriptors of other ends have other numbers. -/
theorem Coherent.ne_of_ne {des' : Int} {o' : End} (h : s.table des = some (.sock o))
    (h' : s.table des' = some (.sock o')) (hne : o ≠ o') : des ≠ des' := by
  rintro rfl
  rw [h] at h'
  cases h'
  exact hne rfl

/-- A step inside an object leaves the pairing alone. -/
theorem Coherent.call (h : Coherent s) {m : SocketInfo} (hp : m.pair = (s.objs o).pair) :
    Coherent { s with objs := Function.update s.objs o m } := by
  have hpair (o' : End) : (Function.update s.objs o m o').pair = (s.objs o').pair := by
    by_cases ho : o' = o
    · rw [ho, Function.update_self, hp]
    · rw [Function.update_of_ne ho]
  refine ⟨h.sound, h.nonneg, h.made, h.unique, h.opening, fun des entry hd => ?_⟩
  obtain ⟨o', rfl, ht, he⟩ := h.entries des entry hd
  refine ⟨o', rfl, ht, ?_⟩
  simp only [Sys.Entry, hpair]
  exact he

theorem Coherent.socketpair (h : Coherent s) {des0 des1 : Nat} (hne : des0 ≠ des1)
    (h0 : s.table des0 = none) (h1 : s.table des1 = none) : Coherent { s with
      made := s.made + 1
      table := Function.update (Function.update s.table des0 (some (.sock ⟨s.made, false⟩)))
        des1 (some (.sock ⟨s.made, true⟩))
      opening := s.opening ++ [⟨s.made, des0, des1⟩] } := by
  have hne' : (des0 : Int) ≠ des1 := by omega
  have hsock (des : Int) (o : End) :
      Function.update (Function.update s.table des0 (some (.sock ⟨s.made, false⟩)))
          des1 (some (.sock ⟨s.made, true⟩)) des = some (.sock o) ↔
        (des = des0 ∧ o = ⟨s.made, false⟩) ∨ (des = des1 ∧ o = ⟨s.made, true⟩) ∨
          s.table des = some (.sock o) := by
    by_cases hd1 : des = des1
    · subst hd1
      simp [h1, hne'.symm, eq_comm]
    by_cases hd0 : des = des0
    · subst hd0
      simp [h0, hne', eq_comm]
    · simp [hd0, hd1]
  have hfree {des : Int} (hd : s.table des = none) : s.desInfoMap des = none := by
    refine Option.eq_none_iff_forall_not_mem.mpr fun entry he => ?_
    obtain ⟨o, -, ht, -⟩ := h.entries des entry he
    rw [hd] at ht
    cases ht
  refine ⟨h.sound, fun des o ht => ?_, fun des o ht => ?_, fun des des' o ht ht' => ?_,
    fun x hx => ?_, fun des entry hd => ?_⟩
  · rcases (hsock des o).mp ht with ⟨rfl, -⟩ | ⟨rfl, -⟩ | ht
    · exact Int.natCast_nonneg _
    · exact Int.natCast_nonneg _
    · exact h.nonneg des o ht
  · rcases (hsock des o).mp ht with ⟨-, rfl⟩ | ⟨-, rfl⟩ | ht
    · exact Nat.lt_succ_self _
    · exact Nat.lt_succ_self _
    · exact Nat.lt_succ_of_lt (h.made des o ht)
  · rcases (hsock des o).mp ht with ⟨rfl, rfl⟩ | ⟨rfl, rfl⟩ | ht <;>
      rcases (hsock des' _).mp ht' with ⟨rfl, ho⟩ | ⟨rfl, ho⟩ | ht'
    · rfl
    · cases ho
    · exact absurd (h.made _ _ ht') (Nat.lt_irrefl _)
    · cases ho
    · rfl
    · exact absurd (h.made _ _ ht') (Nat.lt_irrefl _)
    · exact absurd (ho ▸ h.made _ _ ht) (Nat.lt_irrefl _)
    · exact absurd (ho ▸ h.made _ _ ht) (Nat.lt_irrefl _)
    · exact h.unique des des' o ht ht'
  · rcases List.mem_append.mp hx with hx | hx
    · obtain ⟨ht0, ht1, hd0, hd1⟩ := h.opening x hx
      exact ⟨(hsock ..).mpr (.inr (.inr ht0)), (hsock ..).mpr (.inr (.inr ht1)), hd0, hd1⟩
    · obtain rfl := List.mem_singleton.mp hx
      exact ⟨(hsock ..).mpr (.inl ⟨rfl, rfl⟩), (hsock ..).mpr (.inr (.inl ⟨rfl, rfl⟩)),
        hfree h0, hfree h1⟩
  · obtain ⟨o, rfl, ht, he⟩ := h.entries des entry hd
    refine ⟨o, rfl, (hsock ..).mpr (.inr (.inr ht)), he.imp_right fun ⟨hp, hclosed⟩ => ⟨hp, ?_⟩⟩
    have hlt : o.mate.idx < s.made := h.made des o ht
    intro des' ht'
    rcases (hsock ..).mp ht' with ⟨-, ho⟩ | ⟨-, ho⟩ | ht'
    · exact absurd (ho ▸ hlt) (Nat.lt_irrefl _)
    · exact absurd (ho ▸ hlt) (Nat.lt_irrefl _)
    · exact hclosed des' ht'

theorem Coherent.enter (h : Coherent s) {x : Opening} (hx : x ∈ s.opening) :
    Coherent (s.enter x) := by
  obtain ⟨ht0, ht1, hd0, hd1⟩ := h.opening x hx
  have hne : (x.des0 : Int) ≠ x.des1 := Coherent.ne_of_ne ht0 ht1 (by simp)
  have hmap {des : Int} (h0 : des ≠ x.des0) (h1 : des ≠ x.des1) :
      (s.enter x).desInfoMap des = s.desInfoMap des :=
    (Function.update_of_ne h1 ..).trans (Function.update_of_ne h0 ..)
  have hmap0 : (s.enter x).desInfoMap x.des0 = some (some ⟨x.idx, false⟩) :=
    (Function.update_of_ne hne ..).trans (Function.update_self ..)
  have hmap1 : (s.enter x).desInfoMap x.des1 = some (some ⟨x.idx, true⟩) := Function.update_self ..
  have hobj0 : (s.enter x).objs ⟨x.idx, false⟩ = .init x.des1 :=
    (Function.update_of_ne (by simp) ..).trans (Function.update_self ..)
  have hobj1 : (s.enter x).objs ⟨x.idx, true⟩ = .init x.des0 := Function.update_self ..
  have hobj {o : End} (ho : o.idx ≠ x.idx) : (s.enter x).objs o = s.objs o :=
    (Function.update_of_ne (fun heq => ho (congrArg End.idx heq)) ..).trans
      (Function.update_of_ne (fun heq => ho (congrArg End.idx heq)) ..)
  -- whose number is that of `x` has one of the two descriptors of `x`
  have hother {des : Int} {o : End} (ht : s.table des = some (.sock o)) (h0 : des ≠ x.des0)
      (h1 : des ≠ x.des1) : o.idx ≠ x.idx := by
    intro hidx
    obtain ⟨idx, side⟩ := o
    obtain rfl : idx = x.idx := hidx
    cases side with
    | false => exact h0 (h.unique _ _ _ ht ht0)
    | true => exact h1 (h.unique _ _ _ ht ht1)
  refine ⟨h.sound, h.nonneg, h.made, h.unique, fun y hy => ?_, fun des entry hd => ?_⟩
  · obtain ⟨hy, hyx⟩ : y ∈ s.opening ∧ y ≠ x := by simpa [Sys.enter] using hy
    obtain ⟨hyt0, hyt1, hyd0, hyd1⟩ := h.opening y hy
    have hidx : y.idx ≠ x.idx := by
      intro hidx
      have h0 : (y.des0 : Int) = x.des0 := h.unique _ _ _ hyt0 (hidx ▸ ht0)
      have h1 : (y.des1 : Int) = x.des1 := h.unique _ _ _ hyt1 (hidx ▸ ht1)
      obtain ⟨idx, des0, des1⟩ := y
      obtain ⟨idx', des0', des1'⟩ := x
      simp only at hidx h0 h1
      exact hyx (by rw [hidx, Int.ofNat_inj.mp h0, Int.ofNat_inj.mp h1])
    have hends (side side' : Bool) : (⟨y.idx, side⟩ : End) ≠ ⟨x.idx, side'⟩ :=
      fun heq => hidx (congrArg End.idx heq)
    refine ⟨hyt0, hyt1, ?_, ?_⟩
    · rw [hmap (Coherent.ne_of_ne hyt0 ht0 (hends _ _)) (Coherent.ne_of_ne hyt0 ht1 (hends _ _))]
      exact hyd0
    · rw [hmap (Coherent.ne_of_ne hyt1 ht0 (hends _ _)) (Coherent.ne_of_ne hyt1 ht1 (hends _ _))]
      exact hyd1
  · by_cases h1 : des = x.des1
    · subst h1
      refine ⟨⟨x.idx, true⟩, Option.some.inj (hd.symm.trans hmap1), ht1, .inl ?_⟩
      rw [hobj1]
      exact ⟨Int.natCast_nonneg _, hmap0, by rw [End.mate, Bool.not_true, hobj0]; rfl⟩
    by_cases h0 : des = x.des0
    · subst h0
      refine ⟨⟨x.idx, false⟩, Option.some.inj (hd.symm.trans hmap0), ht0, .inl ?_⟩
      rw [hobj0]
      exact ⟨Int.natCast_nonneg _, hmap1, by rw [End.mate, Bool.not_false, hobj1]; rfl⟩
    · rw [hmap h0 h1] at hd
      obtain ⟨o, rfl, ht, he⟩ := h.entries des entry hd
      have hidx := hother ht h0 h1
      refine ⟨o, rfl, ht, ?_⟩
      unfold Sys.Entry
      rw [hobj hidx, hobj (o := o.mate) hidx]
      refine he.imp_left fun ⟨hp, hpd, hback⟩ => ⟨hp, ?_, hback⟩
      rw [hmap, hpd]
      · intro heq
        rw [heq, hd0] at hpd
        cases hpd
      · intro heq
        rw [heq, hd1] at hpd
        cases hpd

theorem Coherent.opens (h : Coherent s) (hd : s.table des = none) :
    Coherent { s with table := Function.update s.table des (some .file) } := by
  have hsock (des' : Int) (o : End) :
      Function.update s.table des (some .file) des' = some (.sock o) ↔ s.table des' = some (.sock o) := by
    by_cases hdes : des' = des
    · subst hdes
      simp [hd]
    · simp [hdes]
  refine ⟨h.sound, fun des' o ht => h.nonneg des' o ((hsock ..).mp ht),
    fun des' o ht => h.made des' o ((hsock ..).mp ht),
    fun des' des'' o ht ht' => h.unique des' des'' o ((hsock ..).mp ht) ((hsock ..).mp ht'),
    fun x hx => ?_, fun des' entry hd' => ?_⟩
  · obtain ⟨ht0, ht1, hd0, hd1⟩ := h.opening x hx
    exact ⟨(hsock ..).mpr ht0, (hsock ..).mpr ht1, hd0, hd1⟩
  · obtain ⟨o, rfl, ht, he⟩ := h.entries des' entry hd'
    exact ⟨o, rfl, (hsock ..).mpr ht,
      he.imp_right fun ⟨hp, hclosed⟩ => ⟨hp, fun d ht' => hclosed d ((hsock ..).mp ht')⟩⟩

/-- A descriptor is closed, and the other entries stay right. -/
theorem Coherent.close (h : Coherent s) (objs : End → SocketInfo)
    (hopen : ∀ x ∈ s.opening, des ≠ x.des0 ∧ des ≠ x.des1)
    (hentry : ∀ des' o', des' ≠ des → s.desInfoMap des' = some (some o') →
      s.table des' = some (.sock o') → s.Entry des' o' →
      ({ s.erase des with objs := objs }.kernelClose des).Entry des' o') :
    Coherent ({ s.erase des with objs := objs }.kernelClose des) := by
  have hsock {des' : Int} {o' : End} (ht : Function.update s.table des none des' = some (.sock o')) :
      s.table des' = some (.sock o') := by
    by_cases hdes : des' = des
    · simp [hdes] at ht
    · simpa [hdes] using ht
  refine ⟨h.sound, fun des' o ht => h.nonneg des' o (hsock ht), fun des' o ht => h.made des' o (hsock ht),
    fun des' des'' o ht ht' => h.unique des' des'' o (hsock ht) (hsock ht'), fun x hx => ?_,
    fun des' entry hd' => ?_⟩
  · obtain ⟨ht0, ht1, hd0, hd1⟩ := h.opening x hx
    obtain ⟨hne0, hne1⟩ := hopen x hx
    exact ⟨(Function.update_of_ne hne0.symm ..).trans ht0, (Function.update_of_ne hne1.symm ..).trans ht1,
      (Function.update_of_ne hne0.symm ..).trans hd0, (Function.update_of_ne hne1.symm ..).trans hd1⟩
  · have hd' : Function.update s.desInfoMap des none des' = some entry := hd'
    have hne : des' ≠ des := by
      rintro rfl
      rw [Function.update_self] at hd'
      cases hd'
    rw [Function.update_of_ne hne] at hd'
    obtain ⟨o', rfl, ht, he⟩ := h.entries des' entry hd'
    exact ⟨o', rfl, (Function.update_of_ne hne ..).trans ht, hentry des' o' hne hd' ht he⟩

theorem Sys.Closed.kernelClose (h : s.Closed o) (objs : End → SocketInfo) :
    ({ s.erase des with objs := objs }.kernelClose des).Closed o := by
  intro des' ht
  have ht : Function.update s.table des none des' = some (.sock o) := ht
  by_cases hdes : des' = des
  · simp [hdes] at ht
  · exact h des' (by simpa [hdes] using ht)

/-- The other entries stay right when neither their objects nor the entries they name change. -/
theorem Sys.Entry.kernelClose {des' : Int} {o' : End} {objs : End → SocketInfo}
    (h : s.Entry des' o') (ho : (objs o').pair = (s.objs o').pair)
    (hmate : (objs o'.mate).pair = (s.objs o'.mate).pair)
    (hne : s.desInfoMap des ≠ some (some o'.mate)) :
    ({ s.erase des with objs := objs }.kernelClose des).Entry des' o' := by
  rcases h with ⟨hp, hd, hback⟩ | ⟨hp, hclosed⟩
  · have hdes : (objs o').pair ≠ des := by
      rintro rfl
      rw [← ho] at hd
      exact hne hd
    refine .inl ⟨?_, ?_, ?_⟩
    · show 0 ≤ (objs o').pair
      rwa [ho]
    · show Function.update s.desInfoMap des none (objs o').pair = _
      rw [Function.update_of_ne hdes, ho, hd]
    · show (objs o'.mate).pair = des'
      rwa [hmate]
  · refine .inr ⟨?_, hclosed.kernelClose objs⟩
    show (objs o').pair = -2
    rwa [ho]

theorem Coherent.step {v : Version} {K : Kernel} (h : Coherent s) (hc : ClosesReturned s e s')
    (hs : SysStep v K s e s') : Coherent s' := by
  cases hs.effect.2 with
  | socketpair hne h0 h1 => exact h.socketpair hne h0 h1
  | enter hx => exact h.enter hx
  | opens hd ht => exact h.opens ht
  | call hs hp => exact h.call hp
  | @closeOther des pick hd =>
    refine h.close s.objs (hc des pick rfl) fun des' o' hne hd' ht he => ?_
    exact he.kernelClose rfl rfl (hd _)
  | @closeSecond des pick o hd ht hp =>
    refine h.close s.objs (hc des pick rfl) fun des' o' hne hd' ht' he => ?_
    refine he.kernelClose rfl rfl fun hmate => ?_
    obtain rfl : o = o'.mate := Option.some.inj (Option.some.inj (hd.symm.trans hmate))
    -- the pair of `des` was closed before, so that no other entry names `des`
    rcases he with ⟨-, -, hback⟩ | ⟨-, hclosed⟩
    · have hnonneg := h.nonneg des' o' ht'
      omega
    · exact hclosed des ht
  | @closeFirst des pick o q m m' hd ht hp hq hm hs hs' =>
    rcases (h.own hd).2 with ⟨hopen, hpair, hback⟩ | ⟨hp', -⟩
    · obtain rfl : q = o.mate := Option.some.inj (Option.some.inj (hq.symm.trans hpair))
      have hm' : m'.pair = -2 := by
        cases hs'.effect with
        | closePair => exact SocketInfo.closingPair_pair
      refine h.close _ (hc des pick rfl) fun des' o' hne hd' ht' he => ?_
      by_cases ho : o' = o.mate
      · -- the paired descriptor stays behind
        subst ho
        refine .inr ⟨?_, fun d htd => ?_⟩
        · show (Function.update (Function.update s.objs o m) o.mate m' o.mate).pair = -2
          rwa [Function.update_self]
        · have htd : Function.update s.table des none d = some (.sock o) := by
            rwa [End.mate_mate] at htd
          by_cases hdd : d = des
          · simp [hdd] at htd
          · rw [Function.update_of_ne hdd] at htd
            exact hdd (h.unique d des o htd ht)
      · have ho' : o' ≠ o := by
          rintro rfl
          exact hne (h.unique des' des o' ht' ht)
        have hmate : o'.mate ≠ o.mate := fun heq => ho' (by simpa using congrArg End.mate heq)
        have hmate' : o'.mate ≠ o := fun heq => ho (by simpa using congrArg End.mate heq)
        refine he.kernelClose ?_ ?_ fun heq => ?_
        · rw [Function.update_of_ne ho, Function.update_of_ne ho']
        · rw [Function.update_of_ne hmate, Function.update_of_ne hmate']
        · exact hmate' (Option.some.inj (Option.some.inj (heq.symm.trans hd)))
    · exact absurd hp' hp
  | wrongObject hd ht => exact absurd (h.own hd).1 ht
  | @wrongPair _ des o s' hd ht hp hq =>
    rcases (h.own hd).2 with ⟨hp', hpair, hback⟩ | ⟨hp', -⟩
    · refine absurd (ht.trans (by rw [End.mate_mate])) (hq _ hpair fun heq => ?_)
      -- both ends would have the same descriptor
      rw [heq, hd] at hpair
      exact o.mate_ne (Option.some.inj (Option.some.inj hpair)).symm
    · exact absurd hp' hp

end Steps

/-- **The map pairs the descriptors**, in every run in which nobody closes a descriptor that
a call of `mySocketpair` is about to return; and no look-up fails or leads to another pair. -/
theorem map_pairs {v : Version} {K : Kernel} {s : Sys} {es : List SysEvent}
    (hr : Run (SysStep v K) .init es s) (hc : EveryStep (SysStep v K) ClosesReturned .init es) :
    s.Symmetric ∧ s.fault = false := by
  have h : Coherent s := hr.invariant_of_everyStep (fun h hc hs => h.step hc hs) hc coherent_init
  refine ⟨fun des entry hd => ?_, h.sound⟩
  obtain ⟨o, rfl, -, ⟨hp, hpair, hback⟩ | hclosed⟩ := h.entries des entry hd
  · exact ⟨o, rfl, .inl ⟨_, _, hp, rfl, hpair, hback⟩⟩
  · exact ⟨o, rfl, .inr hclosed⟩

/-- Descriptor 3 is closed, and its number is given to another pair. -/
def recycledSys : List SysEvent :=
  [.socketpair 3 4, .mySocketpair 0, .myClose 3 0, .socketpair 3 5, .mySocketpair 1]

theorem map_pairs_recycled : ∃ s, Run (SysStep .lib defaultKernel) .init recycledSys s ∧
    s.desInfoMap 3 = some (some ⟨1, false⟩) ∧ s.Symmetric ∧ s.fault = false := by
  have hrun : (recycledSys.foldlM (sysStep .lib defaultKernel) .init).any (fun s =>
      decide (s.desInfoMap 3 = some (some ⟨1, false⟩))) = true := by decide +kernel
  obtain ⟨s, hs, hend⟩ := (Option.any_eq_true _ _).mp hrun
  refine ⟨s, Run.foldlM_iff.mp hs, of_decide_eq_true hend, map_pairs (Run.foldlM_iff.mp hs) ?_⟩
  refine .cons fun t ht => ⟨by simp [ClosesReturned], ?_⟩
  cases ht
  refine .cons fun t ht => ⟨by simp [ClosesReturned], ?_⟩
  cases ht
  refine .cons fun t ht => ⟨fun des pick _ x hx => ?_, ?_⟩
  · simp [Sys.enter, Sys.init] at hx
  · exact .cons fun t ht => ⟨by simp [ClosesReturned],
      .cons fun t ht => ⟨by simp [ClosesReturned], .nil⟩⟩

/-- Descriptor 3 is closed between `socketpair` and the end of `mySocketpair`, and its number
is given to another pair. -/
def racySys : List SysEvent :=
  [.socketpair 3 4, .myClose 3 0, .mySocketpair 0, .socketpair 3 5, .mySocketpair 1]

/-- Descriptor 4 names 3, which names 5, and a write on 4 uses the object of the other pair. -/
theorem map_of_another_pair :
    (∃ s, Run (SysStep .lib defaultKernel) .init racySys s ∧ ¬ s.Symmetric) ∧
      ∃ s, Run (SysStep .lib defaultKernel) .init (racySys ++ [.myWrite 4 [65]]) s ∧ s.fault = true := by
  constructor
  · have hrun : (racySys.foldlM (sysStep .lib defaultKernel) .init).any (fun s => decide
        (s.desInfoMap 4 = some (some ⟨0, true⟩) ∧ (s.objs ⟨0, true⟩).pair = 3 ∧
          s.desInfoMap 3 = some (some ⟨1, false⟩) ∧ (s.objs ⟨1, false⟩).pair = 5)) = true := by
      decide +kernel
    obtain ⟨s, hs, hend⟩ := (Option.any_eq_true _ _).mp hrun
    obtain ⟨hd, hp, hd', hp'⟩ := of_decide_eq_true hend
    refine ⟨s, Run.foldlM_iff.mp hs, fun h => ?_⟩
    obtain ⟨o, ho, ⟨p, q, hpos, hpair, hq, hback⟩ | ⟨hclosed, -⟩⟩ := h 4 _ hd
    · obtain rfl := Option.some.inj ho
      obtain rfl : 3 = p := hp.symm.trans hpair
      obtain rfl : ⟨1, false⟩ = q := Option.some.inj (Option.some.inj (hd'.symm.trans hq))
      omega
    · obtain rfl := Option.some.inj ho
      omega
  · have hrun : ((racySys ++ [SysEvent.myWrite 4 [65]]).foldlM (sysStep .lib defaultKernel)
        .init).any Sys.fault = true := by decide +kernel
    obtain ⟨s, hs, hend⟩ := (Option.any_eq_true _ _).mp hrun
    exact ⟨s, Run.foldlM_iff.mp hs, hend⟩

end YModem.MyIO
