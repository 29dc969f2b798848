import YModem.Lib.Statechart
import YModem.SmartState.Chart

/-!
# A generated chart does what the drawn chart says

A generated chart implements a drawn one when it has its states and entry actions, and when the
handlers of each state react exactly as the arrows out of it do. Then the runtime, with its list of
active leaves, its history pointers and its list of posted messages, does with each event what the
drawn chart may do with it, and nothing else.
-/

namespace YModem.SmartState

open YModem.Lib

variable {σ μ ε γ : Type}

/-- What the handler of the state `s` does for one of its arrows. -/
def reactionOf [DecidableEq σ] (s : σ) (env : ε) (a : Arrow σ μ ε γ Fault) : Reaction σ γ :=
  if a.target = some s then .stay (a.action env) else .go a.target (a.action env)

theorem length_ancestorsOf_le (parent : σ → Option σ) (n : Nat) (s : σ) :
    (ancestorsOf parent n s).length ≤ n + 1 := by
  induction n generalizing s with
  | zero => exact Nat.le_refl 1
  | succ n ih =>
    rw [ancestorsOf]
    cases parent s with
    | none => simp
    | some p => exact Nat.succ_le_succ (ih p)

variable [DecidableEq σ] {ch : Chart σ μ ε γ} {sc : Statechart σ μ ε γ Fault}

namespace Chart

variable (ch)

/-- What a drawn chart shows of a machine. -/
def view (m : StateMgr σ μ γ) : ChartState σ γ :=
  ⟨m.active.head?.elim [] ch.ancestors, m.history, m.ctx⟩

/-- At most one leaf is active, one exactly when the machine runs, and a history pointer leads to
a state inside its own. -/
structure Single (m : StateMgr σ μ γ) : Prop where
  alone : m.active.length ≤ 1
  running : m.running = true ↔ m.active ≠ []
  inside : ∀ p h, m.history p = some h → ch.parent h = some p

end Chart

/-- When `leaf` is active, the history pointers remember what the history marks do, whichever arrow
is taken for the message. -/
def Remembers (ch : Chart σ μ ε γ) (sc : Statechart σ μ ε γ Fault) (leaf : σ) (mesg : μ) : Prop :=
  ∀ caller ∈ ch.ancestors leaf, ∀ a ∈ sc.arrows caller, (∃ ctx, a.guard mesg ctx = true) →
    ∀ tgt root, a.target = some tgt → tgt ≠ caller → ch.getRoot caller tgt = some root →
      ∀ m : StateMgr σ μ γ, m.active = [leaf] → (ch.removeActiveStates caller root m).history =
        sc.remember m.history ((ch.ancestors leaf).takeWhile fun p => !decide (p = root))

/-- Along the run of `es` from `m`, the history pointers remember what the history marks do. -/
def RemembersAlong (ch : Chart σ μ ε γ) (sc : Statechart σ μ ε γ Fault) (m : StateMgr σ μ γ)
    (es : List (ε × μ)) : Prop :=
  ∀ es₁ e es₂ t, es = es₁ ++ e :: es₂ → Run ch.Step m es₁ t →
    ∀ leaf ∈ t.active, Remembers ch sc leaf e.2

/-- The posted messages that an event causes are not more than the model of the runtime allows
for. -/
def EnoughRounds (ch : Chart σ μ ε γ) (m : StateMgr σ μ γ) (e : ε × μ) : Prop :=
  ∀ m₁, ch.fireMessage e.1 e.2 { m with posted := [] } = .ok m₁ →
    ch.sendPostedMessages e.1 ch.rounds 0 m₁ ≠ .error .rounds

/-- The generated chart `ch` has the states of the drawn chart `sc`. -/
structure SameTree (ch : Chart σ μ ε γ) (sc : Statechart σ μ ε γ Fault) : Prop where
  top : ch.top = sc.top
  parent : ch.parent = sc.parent
  path : ∀ s, Statechart.Path sc.parent s (ch.ancestors s)
  initial : ∀ s, (ch.subStates s).head? = sc.initial s
  inside : ∀ s i, sc.initial s = some i → sc.parent i = some s
  history : ch.myHistory = sc.history

/-- The generated chart `ch` implements the drawn chart `sc`. -/
structure Implements (ch : Chart σ μ ε γ) (sc : Statechart σ μ ε γ Fault) : Prop
    extends SameTree ch sc where
  entry : ch.onEntry = sc.entry
  reaction : ∀ env s mesg ctx r, ch.onMessage env s mesg ctx = some r ↔
    ∃ a ∈ sc.arrows s, a.guard mesg ctx = true ∧ reactionOf s env a = r
  /-- No arrow leads into the state that it starts from. -/
  outward : ∀ s, ∀ a ∈ sc.arrows s, ∀ tgt, a.target = some tgt → tgt ≠ s → s ∉ ch.ancestors tgt
  posts : ∀ env s ctx ctx' posts, sc.entry env s ctx = .ok (ctx', posts) →
    ∀ mesg ∈ posts, ∀ leaf, Remembers ch sc leaf mesg

omit [DecidableEq σ] in
theorem Chart.view_leaf {m : StateMgr σ μ γ} {leaf : σ} (h : m.active = [leaf]) :
    ch.view m = ⟨ch.ancestors leaf, m.history, m.ctx⟩ := by
  rw [Chart.view, h]
  rfl

omit [DecidableEq σ] in
theorem Chart.view_nil {m : StateMgr σ μ γ} (h : m.active = []) :
    ch.view m = ⟨[], m.history, m.ctx⟩ := by
  rw [Chart.view, h]
  rfl

omit [DecidableEq σ] in
theorem Chart.Single.cases {m : StateMgr σ μ γ} (hm : ch.Single m) :
    m.active = [] ∨ ∃ leaf, m.active = [leaf] := by
  rcases Nat.le_one_iff_eq_zero_or_eq_one.mp hm.alone with h | h
  · exact .inl (List.length_eq_zero_iff.mp h)
  · exact .inr (List.length_eq_one_iff.mp h)

omit [DecidableEq σ] in
/-- Some state takes a message first, or none does. -/
theorem exists_first {β : Type} (f : σ → Option β) (l : List σ) : (∀ s ∈ l, f s = none) ∨
    ∃ below s above r, l = below ++ s :: above ∧ (∀ b ∈ below, f b = none) ∧ f s = some r := by
  induction l with
  | nil => exact .inl (by simp)
  | cons s l ih =>
    cases hs : f s with
    | some r => exact .inr ⟨[], s, l, r, rfl, by simp, hs⟩
    | none =>
      rcases ih with hnone | ⟨below, a, above, r, rfl, hbelow, hr⟩
      · exact .inl (List.forall_mem_cons.mpr ⟨hs, hnone⟩)
      · exact .inr ⟨s :: below, a, above, r, rfl, List.forall_mem_cons.mpr ⟨hs, hbelow⟩, hr⟩

/-! ## The handlers -/

theorem find?_cons_map {α β : Type} (p : α → Bool) (f : α → β) (a : α) (l : List α) :
    ((a :: l).find? p).map f = if p a = true then some (f a) else (l.find? p).map f := by
  rw [List.find?_cons]
  cases p a <;> rfl

/-- Of alternatives that exclude each other, the first one that holds is the only one. -/
theorem find?_eq_some_of_pairwise {α : Type} {p : α → Bool} {a : α} {l : List α}
    (hl : l.Pairwise fun a b => ¬ (p a = true ∧ p b = true)) (ha : a ∈ l) (hp : p a = true) :
    l.find? p = some a := by
  induction l with
  | nil => cases ha
  | cons b l ih =>
    obtain ⟨hb, hl⟩ := List.pairwise_cons.mp hl
    rcases List.mem_cons.mp ha with rfl | hmem
    · rw [List.find?_cons, hp]
    · have hpb : p b = false := Bool.eq_false_iff.mpr fun hpb => hb a hmem ⟨hpb, hp⟩
      rw [List.find?_cons, hpb]
      exact ih hl hmem

/-- A handler that tries the guards of its arrows one after the other reacts as the arrows do, when
the guards exclude each other. -/
theorem reaction_of_find? {env : ε} {s : σ} {mesg : μ} {ctx : γ}
    (hfind : ch.onMessage env s mesg ctx =
      ((sc.arrows s).find? (·.guard mesg ctx)).map (reactionOf s env))
    (hapart : (sc.arrows s).Pairwise fun a b => ¬ (a.guard mesg ctx = true ∧ b.guard mesg ctx = true))
    (r : Reaction σ γ) : ch.onMessage env s mesg ctx = some r ↔
      ∃ a ∈ sc.arrows s, a.guard mesg ctx = true ∧ reactionOf s env a = r := by
  rw [hfind, Option.map_eq_some_iff]
  constructor
  · intro ⟨a, hsome, hr⟩
    have hg := List.find?_some hsome
    exact ⟨a, List.mem_of_find?_eq_some hsome, hg, hr⟩
  · intro ⟨a, ha, hg, hr⟩
    exact ⟨a, find?_eq_some_of_pairwise hapart ha hg, hr⟩

/-! ## The tree of states -/

namespace SameTree

variable {s caller tgt root leaf : σ} {m : StateMgr σ μ γ} {back : σ → Option σ}

variable (hi : SameTree ch sc)
include hi

omit [DecidableEq σ] in
theorem ancestors_inner {p : σ} (h : sc.parent s = some p) : ch.ancestors s = s :: ch.ancestors p :=
  (hi.path s).functional (.inner h (hi.path p))

omit [DecidableEq σ] in
theorem ancestors_suffix {p : σ} {below above : List σ} (h : ch.ancestors s = below ++ p :: above) :
    ch.ancestors p = p :: above :=
  (hi.path p).functional ((hi.path s).suffix h)

omit [DecidableEq σ] in
/-- The descent of `initialState` ends in a leaf, with the states that are entered on the way. -/
theorem opens_initialState {n : Nat} (hback : ∀ p h, back p = some h → ch.parent h = some p)
    (hn : ch.height + 1 ≤ n + (ch.ancestors s).length) :
    ∃ inside, sc.Opens back s inside ∧
      ch.ancestors (ch.initialState back n s) = inside ++ ch.ancestors s := by
  induction n generalizing s with
  | zero =>
    refine ⟨[], .leaf ?_, rfl⟩
    cases hinit : sc.initial s with
    | none => rfl
    | some i =>
      have hlen := congrArg List.length (hi.ancestors_inner (hi.inside s i hinit))
      have hle := length_ancestorsOf_le ch.parent ch.height i
      rw [List.length_cons] at hlen
      rw [← Chart.ancestors] at hle
      omega
  | succ n ih =>
    have hhead := hi.initial s
    rw [Chart.initialState]
    cases hsub : ch.subStates s with
    | nil =>
      rw [hsub] at hhead
      exact ⟨[], .leaf hhead.symm, rfl⟩
    | cons first _ =>
      rw [hsub] at hhead
      have hstep {t : σ} (ht : (back s).getD first = t) (hparent : sc.parent t = some s) :
          ∃ inside, sc.Opens back s inside ∧
            ch.ancestors (ch.initialState back n t) = inside ++ ch.ancestors s := by
        have hanc := hi.ancestors_inner hparent
        obtain ⟨inside, hopens, heq⟩ := @ih t (by rw [hanc, List.length_cons]; omega)
        refine ⟨inside ++ [t], ht ▸ .inner hhead.symm (ht ▸ hopens), ?_⟩
        rw [heq, hanc, List.append_assoc]
        rfl
      cases hb : back s with
      | none => exact hstep (by rw [hb]; rfl) (hi.inside s first hhead.symm)
      | some h => exact hstep (by rw [hb]; rfl) (hi.parent ▸ hback s h hb)

/-- `getRoot` is the innermost state that is around the caller and around the target. -/
theorem getRoot_eq_some_iff : ch.getRoot caller tgt = some root ↔
    ∃ left common entered, ch.ancestors caller = left ++ root :: common ∧
      ch.ancestors tgt = entered ++ root :: common ∧ ∀ s ∈ left, s ∉ ch.ancestors tgt := by
  rw [Chart.getRoot, List.find?_eq_some_iff_append]
  constructor
  · intro ⟨hroot, left, common, hcaller, hleft⟩
    obtain ⟨entered, common', htgt⟩ := List.append_of_mem (of_decide_eq_true hroot)
    obtain ⟨-, rfl⟩ := List.cons.inj
      ((hi.ancestors_suffix hcaller).symm.trans (hi.ancestors_suffix htgt))
    exact ⟨left, common, entered, hcaller, htgt, fun s hs => by simpa using hleft s hs⟩
  · intro ⟨left, common, entered, hcaller, htgt, hleft⟩
    refine ⟨by simp [htgt], left, common, hcaller, fun s hs => by simpa using hleft s hs⟩

theorem takeWhile_ancestors {l l' : List σ} {p : σ} (h : ch.ancestors s = l ++ p :: l') :
    (ch.ancestors s).takeWhile (fun q => !decide (q = p)) = l := by
  have hnodup := (hi.path s).nodup
  rw [h] at hnodup ⊢
  have hp : p ∉ l := fun hmem => (List.nodup_append.mp hnodup).2.2 p hmem p (by simp) rfl
  rw [List.takeWhile_append_of_pos, List.takeWhile_cons_of_neg (by simp), List.append_nil]
  intro q hq
  have hne : q ≠ p := fun he => hp (he ▸ hq)
  simpa using hne

/-- The states that a transition enters, from the outermost to the new leaf. -/
theorem constructTree_eq {entered common inside : List σ}
    (htgt : ch.ancestors tgt = entered ++ root :: common)
    (hleaf : ch.ancestors (ch.initialState back ch.height tgt) = inside ++ ch.ancestors tgt) :
    ch.constructTree back root tgt = (inside ++ entered).reverse := by
  obtain ⟨above, habove⟩ := Chart.ancestors_eq_cons ch tgt
  rw [Chart.constructTree, hi.takeWhile_ancestors htgt, List.reverse_append]
  rw [habove] at hleaf
  rw [hi.takeWhile_ancestors hleaf]

omit hi in
/-- What a transition makes the runtime remember: the leaf, unless it is the caller itself. -/
theorem removeActiveStates_history (hactive : m.active = [leaf]) (hmem : caller ∈ ch.ancestors leaf)
    (hne : caller ≠ root) : (ch.removeActiveStates caller root m).history =
      if leaf = caller then m.history else ch.remember m.history leaf := by
  split_ifs with hleaf
  · subst hleaf
    rw [Chart.removeActiveStates_self hactive]
  · obtain ⟨above, habove⟩ := Chart.ancestors_eq_cons ch caller
    have herase : m.active.erase caller = [leaf] := by
      rw [hactive, List.erase_cons_tail (by simpa using hleaf)]
      rfl
    have hparent : ch.isParent leaf caller = true :=
      decide_eq_true (Chart.mem_tail_ancestors hmem (Ne.symm hleaf))
    have hswept : ch.sweep { m with active := m.active.erase caller } caller =
        { m with active := [], history := ch.remember m.history leaf } := by
      simp [Chart.sweep, herase, hparent]
    rw [Chart.removeActiveStates, habove, List.takeWhile_cons_of_pos (by simpa using hne),
      List.foldl_cons, hswept, Chart.foldl_sweep_nil _ rfl]

/-- Where the marks are so that the history pointers remember what they should: among the states
that are left, at most the one around the leaf has a mark, and none when the leaf is the caller. -/
def Marked (ch : Chart σ μ ε γ) (leaf caller : σ) (gone : List σ) : Prop :=
  (leaf = caller → ∀ p ∈ gone.tail, ch.myHistory p = false) ∧
    ∀ p ∈ gone.tail.tail, ch.myHistory p = false

omit hi in
theorem remember_unmarked {l : List σ} (h : ∀ p ∈ l.tail, sc.history p = false) :
    sc.remember back l = back := by
  induction l with
  | nil => rfl
  | cons c l ih =>
    cases l with
    | nil => rfl
    | cons p l =>
      rw [Statechart.remember, h p List.mem_cons_self, if_neg (by simp)]
      exact ih fun q hq => h q (List.mem_cons_of_mem _ hq)

theorem remembers {mesg : μ} (h : ∀ caller ∈ ch.ancestors leaf, ∀ a ∈ sc.arrows caller,
    (∃ ctx, a.guard mesg ctx = true) → ∀ tgt root, a.target = some tgt → tgt ≠ caller →
      ch.getRoot caller tgt = some root → caller ≠ root ∧
        Marked ch leaf caller ((ch.ancestors leaf).takeWhile fun p => !decide (p = root))) :
    Remembers ch sc leaf mesg := by
  intro caller hmem a ha hg tgt root ht hself hroot m hactive
  obtain ⟨hne, hcaller, hmarks⟩ := h caller hmem a ha hg tgt root ht hself hroot
  rw [removeActiveStates_history hactive hmem hne]
  obtain ⟨left, common, -, hanc, -, -⟩ := hi.getRoot_eq_some_iff.mp hroot
  obtain ⟨below, above, hsplit⟩ := List.append_of_mem hmem
  have hgone : ch.ancestors leaf = below ++ left ++ root :: common := by
    rw [hsplit, ← hi.ancestors_suffix hsplit, hanc, List.append_assoc]
  rw [hi.takeWhile_ancestors hgone] at hcaller hmarks ⊢
  rw [hi.history] at hcaller hmarks
  split_ifs with hleaf
  · exact (remember_unmarked (hcaller hleaf)).symm
  · -- The leaf is inside the caller, so that the state around it is left too.
    obtain ⟨around, haround⟩ := Chart.ancestors_eq_cons ch leaf
    obtain ⟨outside, houtside⟩ := Chart.ancestors_eq_cons ch caller
    have htwo : ∃ p rest, below ++ left = leaf :: p :: rest := by
      cases below with
      | nil => exact absurd (List.cons.inj (haround.symm.trans hsplit)).1 hleaf
      | cons b below =>
        obtain ⟨rfl, -⟩ := List.cons.inj (haround.symm.trans hsplit)
        cases left with
        | nil => exact absurd (List.cons.inj (houtside.symm.trans hanc)).1 hne
        | cons c left =>
          cases below with
          | nil => exact ⟨c, left, rfl⟩
          | cons d below => exact ⟨d, below ++ c :: left, rfl⟩
    obtain ⟨p, rest, htwo⟩ := htwo
    rw [htwo] at hmarks hgone ⊢
    have hchain := (hi.path leaf).isChain
    rw [hgone] at hchain
    have hparent : ch.parent leaf = some p := by
      rw [hi.parent]
      exact (List.isChain_cons_cons.mp hchain).1
    rw [Chart.remember, hparent, Statechart.remember, hi.history]
    exact (remember_unmarked (l := p :: rest) hmarks).symm

end SameTree

namespace Implements

variable {env : ε} {mesg : μ} {s leaf caller tgt root : σ} {m m' : StateMgr σ μ γ}
  {back : σ → Option σ} {posts : List μ} {v v' : ChartState σ γ}

section Tree

variable (hi : Implements ch sc)
include hi

theorem enterAll_eq (ss : List σ) (m : StateMgr σ μ γ) : ch.enterAll env ss m =
    sc.enter env ss m.ctx >>= fun p => .ok { m with ctx := p.1, posted := m.posted ++ p.2 } := by
  induction ss generalizing m with
  | nil => simp [Chart.enterAll, Statechart.enter, ok_bind]
  | cons s ss ih =>
    rw [Chart.enterAll, Statechart.enter, hi.entry]
    cases sc.entry env s m.ctx with
    | error f => rfl
    | ok p =>
      rw [ok_bind, ok_bind]
      simp only [ih]
      cases sc.enter env ss p.1 with
      | error f => rfl
      | ok q => simp [ok_bind, List.append_assoc, Pure.pure, Except.pure]

/-- A transition to a state, when the states it leaves and enters are known. -/
theorem react_go {effect : γ → Except Fault γ} {common entered inside : List σ}
    (hactive : m.active = [leaf]) (hmem : caller ∈ ch.ancestors leaf) (hne : caller ≠ root)
    (hroot : ch.getRoot caller tgt = some root)
    (htgt : ch.ancestors tgt = entered ++ root :: common)
    (hhist : (ch.removeActiveStates caller root m).history = back)
    (hleaf : ch.ancestors (ch.initialState back ch.height tgt) = inside ++ ch.ancestors tgt) :
    ch.react env caller m (.go (some tgt) effect) = effect m.ctx >>= fun ctx =>
      sc.enter env (inside ++ entered).reverse ctx >>= fun p =>
        .ok ⟨[ch.initialState back ch.height tgt], back, m.running, m.posted ++ p.2, p.1⟩ := by
  have hgone := Chart.removeActiveStates_active hactive hmem hne
  obtain ⟨hposted, hrunning, hctx⟩ := Chart.removeActiveStates_keeps ch m caller root
  have hexit : ch.executeExit caller (some tgt) m =
      .ok (some root, ⟨[], back, m.running, m.posted, m.ctx⟩) := by
    rw [Chart.executeExit, hroot]
    show Except.ok (some root, ch.removeActiveStates caller root m) = _
    rw [← hgone, ← hhist, ← hposted, ← hrunning, ← hctx]
  show (ch.executeExit caller (some tgt) m >>= fun p => effect p.2.ctx >>= fun ctx =>
    ch.executeEntry env p.1 (some tgt) { p.2 with ctx := ctx }) = _
  rw [hexit, ok_bind]
  simp only [Chart.executeEntry, hi.enterAll_eq, hi.constructTree_eq htgt hleaf,
    Chart.getInitialStates, List.nil_append]

end Tree

theorem exists_getRoot (ch : Chart σ μ ε γ) (caller tgt : σ) :
    ∃ root, ch.getRoot caller tgt = some root := by
  have htop (s : σ) : ch.top ∈ ch.ancestors s := List.mem_of_getLast? (ch.rooted s)
  refine Option.isSome_iff_exists.mp (List.find?_isSome.mpr ⟨ch.top, htop caller, ?_⟩)
  exact decide_eq_true (htop tgt)

/-! ## One message -/

/-- A transition of the machine `m` from `caller` to `tgt`, with `below` active inside the caller
and `above` around it: the states that are left and entered, and the new leaf. -/
structure Moves (ch : Chart σ μ ε γ) (sc : Statechart σ μ ε γ Fault) (env : ε) (m : StateMgr σ μ γ)
    (below above : List σ) (caller tgt : σ) (left common entered inside : List σ) (leaf' : σ) :
    Prop where
  common_ne : common ≠ []
  left_eq : caller :: above = left ++ common
  entered_eq : ch.ancestors tgt = entered ++ common
  apart : ∀ s ∈ left, s ∉ entered ++ common
  opens : sc.Opens (sc.remember m.history (below ++ left)) tgt inside
  leaf_eq : ch.ancestors leaf' = inside ++ entered ++ common
  back_inside : ∀ p h, sc.remember m.history (below ++ left) p = some h → ch.parent h = some p
  react : ∀ effect, ch.react env caller m (.go (some tgt) effect) = effect m.ctx >>= fun ctx =>
    sc.enter env (inside ++ entered).reverse ctx >>= fun p =>
      .ok ⟨[leaf'], sc.remember m.history (below ++ left), m.running, m.posted ++ p.2, p.1⟩

section Message

variable (hi : Implements ch sc)
include hi

theorem onMessage_none_iff {ctx : γ} : ch.onMessage env s mesg ctx = none ↔
    ∀ a ∈ sc.arrows s, a.guard mesg ctx = false := by
  constructor
  · intro h a ha
    refine Bool.eq_false_iff.mpr fun hg => ?_
    rw [(hi.reaction env s mesg ctx _).mpr ⟨a, ha, hg, rfl⟩] at h
    cases h
  · intro h
    cases hr : ch.onMessage env s mesg ctx with
    | none => rfl
    | some r =>
      obtain ⟨a, ha, hg, -⟩ := (hi.reaction env s mesg ctx r).mp hr
      rw [h a ha] at hg
      cases hg

/-- The runtime finds the way of an arrow that leads to another state. -/
theorem moves {below above : List σ} {a : Arrow σ μ ε γ Fault} (hm : ch.Single m)
    (hactive : m.active = [leaf]) (hrem : Remembers ch sc leaf mesg)
    (hsplit : ch.ancestors leaf = below ++ caller :: above) (ha : a ∈ sc.arrows caller)
    (hg : a.guard mesg m.ctx = true) (ht : a.target = some tgt) (hne : tgt ≠ caller) :
    ∃ left common entered inside leaf',
      Moves ch sc env m below above caller tgt left common entered inside leaf' := by
  obtain ⟨root, hroot⟩ := exists_getRoot ch caller tgt
  obtain ⟨left, common, entered, hcaller, htgt, hapart⟩ := hi.getRoot_eq_some_iff.mp hroot
  have hanc := hi.ancestors_suffix hsplit
  have hleaf : ch.ancestors leaf = below ++ left ++ root :: common := by
    rw [hsplit, ← hanc, hcaller, List.append_assoc]
  have hmem : caller ∈ ch.ancestors leaf := by simp [hsplit]
  have hcr : caller ≠ root := by
    intro he
    exact hi.outward caller a ha tgt ht hne (by simp [htgt, he])
  have hhist := hrem caller hmem a ha ⟨m.ctx, hg⟩ tgt root ht hne hroot m hactive
  rw [hi.takeWhile_ancestors hleaf] at hhist
  have hchain := (hi.path leaf).isChain
  rw [hleaf] at hchain
  have hback := sc.remember_inside (l := below ++ left)
    (fun p h hp => hi.parent ▸ hm.inside p h hp) (List.IsChain.left_of_append hchain)
  rw [← hi.parent] at hback
  have hle : ch.height + 1 ≤ ch.height + (ch.ancestors tgt).length := by
    rw [htgt, List.length_append, List.length_cons]
    omega
  obtain ⟨inside, hopens, hinside⟩ := hi.opens_initialState hback hle
  exact ⟨left, root :: common, entered, inside, _, List.cons_ne_nil _ _, by rw [← hanc, hcaller], htgt,
    fun s hs => htgt ▸ hapart s hs, hopens, by rw [hinside, htgt, List.append_assoc], hback,
    fun effect => hi.react_go hactive hmem hcr hroot htgt hhist hinside⟩

omit hi in
/-- The drawn chart has no other way for that transition. -/
theorem Moves.unique {below above left left' common common' entered entered' inside inside' : List σ}
    {leaf' : σ} (h : Moves ch sc env m below above caller tgt left common entered inside leaf')
    (hleft : caller :: above = left' ++ common')
    (hentered : ch.ancestors tgt = entered' ++ common')
    (hapart : ∀ s ∈ left', s ∉ entered' ++ common')
    (hopens : sc.Opens (sc.remember m.history (below ++ left')) tgt inside') :
    left' = left ∧ common' = common ∧ entered' = entered ∧ inside' = inside := by
  obtain ⟨root, rest, rfl⟩ := List.exists_cons_of_ne_nil h.common_ne
  have hroot : root ∈ ch.ancestors tgt := by simp [h.entered_eq]
  have hsame : left' = left ∧ common' = root :: rest := by
    cases common' with
    | nil =>
      have hmem : root ∈ left' := by
        rw [← List.append_nil left', ← hleft, h.left_eq]
        simp
      rw [hentered] at hroot
      exact absurd hroot (hapart root hmem)
    | cons root' rest' =>
      obtain ⟨rfl, rfl, rfl⟩ := Statechart.split_unique (P := (· ∈ ch.ancestors tgt))
        (hleft.symm.trans h.left_eq) (fun s hs => hentered ▸ hapart s hs)
        (fun s hs => h.entered_eq ▸ h.apart s hs) (by simp [hentered]) hroot
      exact ⟨rfl, rfl⟩
  obtain ⟨rfl, rfl⟩ := hsame
  exact ⟨rfl, rfl, List.append_cancel_right (hentered.symm.trans h.entered_eq),
    sc.opens_functional hopens h.opens⟩

omit hi in
theorem react_stay {effect : γ → Except Fault γ} : ch.react env caller m (.stay effect) =
    effect m.ctx >>= fun ctx => .ok { m with ctx := ctx } := rfl

omit hi in
theorem react_final {effect : γ → Except Fault γ} : ch.react env caller m (.go none effect) =
    effect m.ctx >>= fun ctx => .ok { m with active := [], ctx := ctx, running := false } := rfl

/-- What the runtime does with a message, the drawn chart may do. -/
theorem reacts_of_fireMessage (hm : ch.Single m)
    (hrem : ∀ leaf ∈ m.active, Remembers ch sc leaf mesg)
    (h : ch.fireMessage env mesg m = .ok m') :
    ∃ posts, sc.Reacts env mesg (ch.view m) (ch.view m') posts ∧ m'.posted = m.posted ++ posts ∧
      ch.Single m' := by
  rcases hm.cases with hact | ⟨leaf, hact⟩
  · have hsame : m' = m := by
      simp only [Chart.fireMessage, hact, List.foldlM_nil] at h
      exact (Except.ok.inj h).symm
    subst hsame
    refine ⟨[], .ignored ?_, (List.append_nil _).symm, hm⟩
    rw [Chart.view_nil hact]
    simp
  rw [Chart.fireMessage_leaf hact] at h
  rw [Chart.view_leaf hact]
  rcases exists_first (ch.onMessage env · mesg m.ctx) (ch.ancestors leaf) with
    hnone | ⟨below, caller, above, r, hsplit, hbelow, hsome⟩
  · rw [Chart.onMessageOf_ignored hnone] at h
    cases h
    refine ⟨[], ?_, (List.append_nil _).symm, hm⟩
    rw [Chart.view_leaf hact]
    exact .ignored fun s hs => hi.onMessage_none_iff.mp (hnone s hs)
  · obtain ⟨a, ha, hg, rfl⟩ := (hi.reaction env caller mesg m.ctx r).mp hsome
    have htakes : sc.Takes mesg m.ctx below caller a :=
      ⟨ha, hg, fun s hs => hi.onMessage_none_iff.mp (hbelow s hs)⟩
    rw [Chart.onMessageOf_eq below hsplit hbelow hsome, reactionOf] at h
    rw [hsplit]
    by_cases hself : a.target = some caller
    · rw [if_pos hself, react_stay] at h
      obtain ⟨ctx', hctx, h⟩ := bind_inv h
      cases h
      refine ⟨[], ?_, (List.append_nil _).symm, hm.alone, hm.running, hm.inside⟩
      rw [@Chart.view_leaf _ _ _ _ ch { m with ctx := ctx' } leaf hact, hsplit]
      exact .internal htakes hself hctx
    rw [if_neg hself] at h
    cases ht : a.target with
    | none =>
      rw [ht, react_final] at h
      obtain ⟨ctx', hctx, h⟩ := bind_inv h
      cases h
      exact ⟨[], .final htakes ht hctx, (List.append_nil _).symm, Nat.zero_le _, by simp, hm.inside⟩
    | some tgt =>
      have hne : tgt ≠ caller := fun he => hself (he ▸ ht)
      obtain ⟨left, common, entered, inside, leaf', hmv⟩ :=
        @moves _ _ _ _ _ ch sc env mesg _ _ _ _ hi _ _ _ hm hact (hrem leaf (by simp [hact])) hsplit
          ha hg ht hne
      rw [ht, hmv.react] at h
      obtain ⟨ctx', hctx, h⟩ := bind_inv h
      obtain ⟨⟨ctx'', posts⟩, henter, h⟩ := bind_inv h
      cases h
      have hrunning : m.running = true := hm.running.mpr (by simp [hact])
      refine ⟨posts, ?_, rfl, Nat.le_refl 1, by simp [hrunning], hmv.back_inside⟩
      rw [Chart.view_leaf rfl, hmv.leaf_eq]
      exact .external htakes ht hne hmv.left_eq (hmv.entered_eq ▸ hi.path tgt) hmv.apart hctx
        hmv.opens henter

/-- What the drawn chart may do with a message, the runtime does. -/
theorem fireMessage_of_reacts (hm : ch.Single m)
    (hrem : ∀ leaf ∈ m.active, Remembers ch sc leaf mesg)
    (h : sc.Reacts env mesg (ch.view m) v' posts) :
    ∃ m', ch.fireMessage env mesg m = .ok m' ∧ ch.view m' = v' ∧ m'.posted = m.posted ++ posts := by
  rcases hm.cases with hact | ⟨leaf, hact⟩
  · have hfire : ch.fireMessage env mesg m = .ok m := by
      simp only [Chart.fireMessage, hact, List.foldlM_nil]
      rfl
    generalize hv : ch.view m = v at h
    rw [Chart.view_nil hact] at hv
    cases h with
    | ignored => exact ⟨m, hfire, by rw [Chart.view_nil hact, hv], (List.append_nil _).symm⟩
    | internal | final | external => simp at hv
  rw [Chart.fireMessage_leaf hact]
  generalize hv : ch.view m = v at h
  rw [Chart.view_leaf hact] at hv
  -- The arrow that is taken belongs to the first state with a handler.
  have hfires {below above : List σ} {caller : σ} {a : Arrow σ μ ε γ Fault}
      (hsplit : ch.ancestors leaf = below ++ caller :: above)
      (ha : sc.Takes mesg m.ctx below caller a) :
      ch.onMessageOf env mesg leaf m = ch.react env caller m (reactionOf caller env a) :=
    Chart.onMessageOf_eq below hsplit
      (fun b hb => hi.onMessage_none_iff.mpr (ha.innermost b hb))
      ((hi.reaction env caller mesg m.ctx _).mpr ⟨a, ha.mem, ha.guard, rfl⟩)
  cases h with
  | ignored hnone =>
    subst hv
    refine ⟨m, ?_, Chart.view_leaf hact, (List.append_nil _).symm⟩
    exact Chart.onMessageOf_ignored fun s hs => hi.onMessage_none_iff.mpr (hnone s hs)
  | @internal _ _ _ _ _ ctx' _ ha ht hctx =>
    obtain ⟨hsplit, rfl, rfl⟩ := ChartState.mk.inj hv
    refine ⟨{ m with ctx := ctx' }, ?_, ?_, (List.append_nil _).symm⟩
    · rw [hfires hsplit ha, reactionOf, if_pos ht, react_stay, hctx]
      rfl
    · rw [@Chart.view_leaf _ _ _ _ ch { m with ctx := ctx' } leaf hact, hsplit]
  | @final _ _ _ _ _ ctx' _ ha ht hctx =>
    obtain ⟨hsplit, rfl, rfl⟩ := ChartState.mk.inj hv
    refine ⟨{ m with active := [], ctx := ctx', running := false }, ?_, ?_,
      (List.append_nil _).symm⟩
    · rw [hfires hsplit ha, reactionOf, if_neg (by simp [ht]), ht, react_final, hctx]
      rfl
    · rfl
  | @external below _ _ _ _ _ ctx'' _ _ left _ _ _ posts ha ht hne hleft hpath hapart hctx hopens henter =>
    obtain ⟨hsplit, rfl, rfl⟩ := ChartState.mk.inj hv
    obtain ⟨_, _, _, _, leaf', hmv⟩ :=
      @moves _ _ _ _ _ ch sc env mesg _ _ _ _ hi _ _ _ hm hact (hrem leaf (by simp [hact])) hsplit
        ha.mem ha.guard ht hne
    obtain ⟨rfl, rfl, rfl, rfl⟩ := hmv.unique hleft ((hi.path _).functional hpath) hapart hopens
    refine ⟨⟨[leaf'], sc.remember m.history (below ++ left), m.running, m.posted ++ posts, ctx''⟩,
      ?_, ?_, rfl⟩
    · rw [hfires hsplit ha, reactionOf, if_neg (by simp [ht, hne]), ht, hmv.react, hctx, ok_bind,
        henter]
      rfl
    · rw [Chart.view_leaf rfl, hmv.leaf_eq]

end Message

/-! ## One event -/

section Event

variable (hi : Implements ch sc)
include hi

/-- Whatever is active when a posted message is handled, the history pointers remember what they
should. -/
theorem reacts_posts (h : sc.Reacts env mesg v v' posts) :
    ∀ mesg ∈ posts, ∀ leaf, Remembers ch sc leaf mesg :=
  h.forall_posts sc (hi.posts env)

omit [DecidableEq σ] hi in
theorem drop_posted {i : Nat} (hmesg : m.posted[i]? = some mesg) :
    m.posted.drop i = mesg :: m.posted.drop (i + 1) ∧ i + 1 ≤ m.posted.length := by
  obtain ⟨hlt, rfl⟩ := List.getElem?_eq_some_iff.mp hmesg
  exact ⟨List.drop_eq_getElem_cons hlt, hlt⟩

/-- The messages that are left behind one that has been handled. -/
theorem posted_left {i : Nat} {m₁ : StateMgr σ μ γ} (hle : i + 1 ≤ m.posted.length)
    (hrem : ∀ mesg ∈ m.posted.drop (i + 1), ∀ leaf, Remembers ch sc leaf mesg)
    (h : sc.Reacts env mesg v v' posts) (hposted : m₁.posted = m.posted ++ posts) :
    m₁.posted.drop (i + 1) = m.posted.drop (i + 1) ++ posts ∧
      ∀ mesg ∈ m₁.posted.drop (i + 1), ∀ leaf, Remembers ch sc leaf mesg := by
  have hqueue : m₁.posted.drop (i + 1) = m.posted.drop (i + 1) ++ posts := by
    rw [hposted, List.drop_append_of_le_length hle]
  refine ⟨hqueue, fun mesg hmem => ?_⟩
  rw [hqueue] at hmem
  rcases List.mem_append.mp hmem with hold | hnew
  · exact hrem mesg hold
  · exact hi.reacts_posts h mesg hnew

theorem completes_of_sendPostedMessages {n i : Nat} (hm : ch.Single m)
    (hrem : ∀ mesg ∈ m.posted.drop i, ∀ leaf, Remembers ch sc leaf mesg)
    (h : ch.sendPostedMessages env n i m = .ok m') :
    sc.Completes env (m.posted.drop i) (ch.view m) (ch.view m') ∧ ch.Single m' := by
  induction n generalizing i m with
  | zero =>
    rw [Chart.sendPostedMessages] at h
    split_ifs at h with hlt
    cases h
    rw [List.drop_eq_nil_of_le (by omega)]
    exact ⟨.done, hm⟩
  | succ n ih =>
    rw [Chart.sendPostedMessages] at h
    cases hmesg : m.posted[i]? with
    | none =>
      rw [hmesg] at h
      cases h
      rw [List.drop_eq_nil_of_le (List.getElem?_eq_none_iff.mp hmesg)]
      exact ⟨.done, hm⟩
    | some mesg =>
      rw [hmesg] at h
      obtain ⟨m₁, hfire, h⟩ := bind_inv h
      obtain ⟨hdrop, hle⟩ := drop_posted hmesg
      rw [hdrop] at hrem ⊢
      obtain ⟨posts, hreacts, hposted, hm₁⟩ :=
        hi.reacts_of_fireMessage hm (fun leaf _ => hrem mesg List.mem_cons_self leaf) hfire
      obtain ⟨hqueue, hrem₁⟩ := hi.posted_left hle
        (fun mesg' hmem => hrem mesg' (List.mem_cons_of_mem _ hmem)) hreacts hposted
      obtain ⟨hrest, hm'⟩ := ih hm₁ hrem₁ h
      exact ⟨.next hreacts (hqueue ▸ hrest), hm'⟩

theorem sendPostedMessages_of_completes {n i : Nat} (hm : ch.Single m)
    (hrem : ∀ mesg ∈ m.posted.drop i, ∀ leaf, Remembers ch sc leaf mesg)
    (hrounds : ch.sendPostedMessages env n i m ≠ .error .rounds)
    (h : sc.Completes env (m.posted.drop i) (ch.view m) v') :
    ∃ m', ch.sendPostedMessages env n i m = .ok m' ∧ ch.view m' = v' := by
  induction n generalizing i m with
  | zero =>
    rw [Chart.sendPostedMessages] at hrounds ⊢
    split_ifs at hrounds ⊢ with hlt
    · exact absurd rfl hrounds
    · rw [List.drop_eq_nil_of_le (by omega)] at h
      cases h
      exact ⟨m, rfl, rfl⟩
  | succ n ih =>
    cases hmesg : m.posted[i]? with
    | none =>
      rw [List.drop_eq_nil_of_le (List.getElem?_eq_none_iff.mp hmesg)] at h
      cases h
      rw [Chart.sendPostedMessages, hmesg]
      exact ⟨m, rfl, rfl⟩
    | some mesg =>
      obtain ⟨hdrop, hle⟩ := drop_posted hmesg
      rw [hdrop] at hrem h
      cases h with
      | next hreacts hrest =>
        have hrem₀ : ∀ leaf ∈ m.active, Remembers ch sc leaf mesg :=
          fun leaf _ => hrem mesg List.mem_cons_self leaf
        obtain ⟨m₁, hfire, rfl, hposted⟩ := hi.fireMessage_of_reacts hm hrem₀ hreacts
        obtain ⟨-, -, -, hm₁⟩ := hi.reacts_of_fireMessage hm hrem₀ hfire
        rw [Chart.sendPostedMessages_next hmesg hfire] at hrounds ⊢
        obtain ⟨hqueue, hrem₁⟩ := hi.posted_left hle
          (fun mesg' hmem => hrem mesg' (List.mem_cons_of_mem _ hmem)) hreacts hposted
        exact ih hm₁ hrem₁ hrounds (hqueue ▸ hrest)

theorem step_of_postEvent (hm : ch.Single m) (hrem : ∀ leaf ∈ m.active, Remembers ch sc leaf mesg)
    (h : ch.postEvent env mesg m = .ok m') :
    sc.Step (ch.view m) (env, mesg) (ch.view m') ∧ ch.Single m' := by
  rw [Chart.postEvent] at h
  split_ifs at h with hrunning
  obtain ⟨m₁, hfire, h⟩ := bind_inv h
  obtain ⟨posts, hreacts, hposted, hm₁⟩ := @reacts_of_fireMessage _ _ _ _ _ ch sc env mesg
    { m with posted := [] } m₁ hi ⟨hm.alone, hm.running, hm.inside⟩ hrem hfire
  have hposted : m₁.posted = posts := hposted
  obtain ⟨hrest, hm'⟩ := hi.completes_of_sendPostedMessages (i := 0) hm₁
    (by rw [List.drop_zero, hposted]; exact hi.reacts_posts hreacts) h
  rw [List.drop_zero, hposted] at hrest
  refine ⟨⟨?_, .next hreacts hrest⟩, hm'⟩
  rcases hm.cases with hact | ⟨leaf, hact⟩
  · exact absurd hact (hm.running.mp hrunning)
  · rw [Chart.view_leaf hact]
    obtain ⟨above, habove⟩ := Chart.ancestors_eq_cons ch leaf
    simp [habove]

theorem postEvent_of_step (hm : ch.Single m) (hrem : ∀ leaf ∈ m.active, Remembers ch sc leaf mesg)
    (hrounds : EnoughRounds ch m (env, mesg)) (h : sc.Step (ch.view m) (env, mesg) v') :
    ∃ m', ch.postEvent env mesg m = .ok m' ∧ ch.view m' = v' := by
  obtain ⟨hactive, hcompletes⟩ := h
  have hrunning : m.running = true := by
    rw [hm.running]
    intro hact
    rw [Chart.view_nil hact] at hactive
    exact hactive rfl
  cases hcompletes with
  | next hreacts hrest =>
    have hm₀ : ch.Single { m with posted := [] } := ⟨hm.alone, hm.running, hm.inside⟩
    obtain ⟨m₁, hfire, rfl, hposted⟩ := @fireMessage_of_reacts _ _ _ _ _ ch sc env mesg
      { m with posted := [] } _ _ hi hm₀ hrem hreacts
    obtain ⟨-, -, -, hm₁⟩ := hi.reacts_of_fireMessage hm₀ hrem hfire
    rw [Chart.postEvent_eq hrunning hfire]
    have hposted : m₁.posted = _ := hposted
    refine hi.sendPostedMessages_of_completes (i := 0) hm₁ ?_ (hrounds m₁ hfire) ?_
    · rw [List.drop_zero, hposted]
      exact hi.reacts_posts hreacts
    · rw [List.drop_zero, hposted]
      exact hrest

/-- When no entry action posts a message, there is nothing to allow for. -/
theorem enoughRounds (hm : ch.Single m) (hrem : ∀ leaf ∈ m.active, Remembers ch sc leaf mesg)
    (hquiet : ∀ env s ctx ctx' posts, sc.entry env s ctx = .ok (ctx', posts) → posts = []) :
    EnoughRounds ch m (env, mesg) := by
  intro m₁ hfire
  have hm₀ : ch.Single { m with posted := [] } := ⟨hm.alone, hm.running, hm.inside⟩
  obtain ⟨posts, hreacts, hposted, -⟩ := hi.reacts_of_fireMessage hm₀ hrem hfire
  have hnone := hreacts.forall_posts sc (P := fun _ => False) fun s ctx ctx' posts hentry => by
    simp [hquiet env s ctx ctx' posts hentry]
  rw [List.eq_nil_iff_forall_not_mem.mpr hnone] at hposted
  rw [Chart.sendPostedMessages_nil (by rw [hposted]; exact Nat.le_refl 0)]
  nofun

end Event

/-! ## The start -/

section Start

variable {ctx : γ}
variable (hi : Implements ch sc)
include hi

theorem ancestors_top : ch.ancestors ch.top = [ch.top] := by
  obtain ⟨above, habove⟩ := Chart.ancestors_eq_cons ch ch.top
  have hlast : (ch.ancestors ch.top).getLast? = some ch.top := ch.rooted ch.top
  have hnodup := (hi.path ch.top).nodup
  rw [habove] at hlast hnodup
  cases above with
  | nil => exact habove
  | cons p above =>
    rw [List.getLast?_cons_cons] at hlast
    exact absurd (List.mem_of_getLast? hlast) (List.nodup_cons.mp hnodup).1

omit [DecidableEq σ] hi in
/-- States whose entry actions post no message. -/
theorem enter_quiet {ss : List σ} {ctx' : γ} (hquiet : ∀ s ∈ ss, ∀ ctx ctx' posts,
    sc.entry env s ctx = .ok (ctx', posts) → posts = [])
    (h : sc.enter env ss.reverse ctx = .ok (ctx', posts)) : posts = [] := by
  refine List.eq_nil_iff_forall_not_mem.mpr (sc.forall_posts (P := fun _ => False) ?_ h)
  intro s hs ctx ctx' posts hentry
  simp [hquiet s (List.mem_reverse.mp hs) ctx ctx' posts hentry]

/-- The start of a machine, when the states that are entered first post no message. -/
theorem start_eq {inside : List σ} (hopens : sc.Opens (fun _ => none) sc.top inside)
    (hquiet : ∀ s ∈ inside ++ [sc.top], ∀ ctx ctx' posts,
      sc.entry env s ctx = .ok (ctx', posts) → posts = []) :
    ∃ leaf, ch.ancestors leaf = inside ++ [sc.top] ∧ ch.start env ctx =
      sc.enter env (inside ++ [sc.top]).reverse ctx >>= fun p =>
        .ok ⟨[leaf], fun _ => none, true, [], p.1⟩ := by
  obtain ⟨inside', hopens', hleaf⟩ : ∃ inside', sc.Opens (fun _ => none) ch.top inside' ∧
      ch.ancestors (ch.initialState (fun _ => none) ch.height ch.top) =
        inside' ++ ch.ancestors ch.top :=
    hi.opens_initialState (by simp) (by rw [hi.ancestors_top]; exact Nat.le_refl _)
  rw [hi.top] at hopens'
  obtain rfl := sc.opens_functional hopens hopens'
  rw [hi.ancestors_top] at hleaf
  generalize hinit : ch.initialState (fun _ => none) ch.height ch.top = leaf at hleaf
  rw [hi.top] at hleaf
  refine ⟨leaf, hleaf, ?_⟩
  show (ch.enterAll env (ch.ancestors (ch.initialState (fun _ => none) ch.height ch.top)).reverse
    ⟨[ch.initialState (fun _ => none) ch.height ch.top], fun _ => none, false, [], ctx⟩ >>= fun m =>
      ch.sendPostedMessages env ch.rounds 0 m >>= fun m => .ok { m with running := true }) = _
  rw [hinit, hleaf, hi.enterAll_eq]
  cases henter : sc.enter env (inside ++ [sc.top]).reverse ctx with
  | error f => rfl
  | ok p =>
    rw [ok_bind, ok_bind, ok_bind, enter_quiet hquiet henter,
      Chart.sendPostedMessages_nil (Nat.le_refl 0)]
    rfl

/-- The machine and the drawn chart start alike. -/
theorem start_iff {inside : List σ} (hopens : sc.Opens (fun _ => none) sc.top inside)
    (hquiet : ∀ s ∈ inside ++ [sc.top], ∀ ctx ctx' posts,
      sc.entry env s ctx = .ok (ctx', posts) → posts = []) :
    (∃ m, ch.start env ctx = .ok m ∧ ch.view m = v) ↔ sc.Starts env ctx v := by
  obtain ⟨leaf, hleaf, hstart⟩ : ∃ leaf, ch.ancestors leaf = inside ++ [sc.top] ∧
      ch.start env ctx = _ := hi.start_eq hopens hquiet
  rw [hstart]
  constructor
  · intro ⟨m, hm, hv⟩
    obtain ⟨⟨ctx', posts⟩, henter, hm⟩ := bind_inv hm
    cases hm
    rw [Chart.view_leaf rfl, hleaf] at hv
    subst hv
    obtain rfl := enter_quiet hquiet henter
    exact .start hopens henter .done
  · intro h
    cases h with
    | start hopens' henter hrest =>
      obtain rfl := sc.opens_functional hopens hopens'
      obtain rfl := enter_quiet hquiet henter
      cases hrest
      rw [henter]
      exact ⟨_, rfl, by rw [Chart.view_leaf rfl, hleaf]⟩

theorem start_single {inside : List σ} (hopens : sc.Opens (fun _ => none) sc.top inside)
    (hquiet : ∀ s ∈ inside ++ [sc.top], ∀ ctx ctx' posts,
      sc.entry env s ctx = .ok (ctx', posts) → posts = [])
    (h : ch.start env ctx = .ok m) : ch.Single m := by
  obtain ⟨leaf, -, hstart⟩ : ∃ leaf, ch.ancestors leaf = inside ++ [sc.top] ∧
      ch.start env ctx = _ := hi.start_eq hopens hquiet
  rw [hstart] at h
  obtain ⟨p, -, h⟩ := bind_inv h
  cases h
  exact ⟨Nat.le_refl 1, by simp, by simp⟩

end Start

/-! ## Whole runs -/

section Runs

variable {es : List (ε × μ)}
variable (hi : Implements ch sc)
include hi

theorem run_of_run (hm : ch.Single m) (hrem : RemembersAlong ch sc m es) (h : Run ch.Step m es m') :
    Run sc.Step (ch.view m) es (ch.view m') ∧ ch.Single m' := by
  induction h with
  | refl => exact ⟨.refl, hm⟩
  | @tail t u es e hr hs ih =>
    have hinit : RemembersAlong ch sc m es := fun es₁ e' es₂ t' he =>
      hrem es₁ e' (es₂ ++ [e]) t' (by simp [he])
    obtain ⟨hrun, ht⟩ := ih hinit
    obtain ⟨hstep, hu⟩ := hi.step_of_postEvent ht (hrem es e [] t rfl hr) hs
    exact ⟨hrun.tail hstep, hu⟩

/-- The runs of the machine are the runs of the drawn chart, as long as the history pointers
remember what the history marks do. -/
theorem run_iff (hm : ch.Single m) (hrem : RemembersAlong ch sc m es)
    (hrounds : ∀ es₁ t e, Run ch.Step m es₁ t → EnoughRounds ch t e) :
    (∃ m', Run ch.Step m es m' ∧ ch.view m' = v') ↔ Run sc.Step (ch.view m) es v' := by
  constructor
  · intro ⟨m', h, hv⟩
    exact hv ▸ (hi.run_of_run hm hrem h).1
  · intro h
    generalize hv : ch.view m = v at h
    induction h with
    | refl => exact ⟨m, .refl, hv⟩
    | @tail w v' es e hr hs ih =>
      have hinit : RemembersAlong ch sc m es := fun es₁ e' es₂ t' he =>
        hrem es₁ e' (es₂ ++ [e]) t' (by simp [he])
      obtain ⟨t, ht, rfl⟩ := ih hinit
      obtain ⟨-, hsingle⟩ := hi.run_of_run hm hinit ht
      obtain ⟨m', hstep, hview⟩ :=
        hi.postEvent_of_step hsingle (hrem es e [] t rfl ht) (hrounds es t e ht) hs
      exact ⟨m', ht.tail hstep, hview⟩

/-- **The sessions of a machine are the sessions of the drawn chart**, as long as the history
pointers remember what the history marks do. -/
theorem session_iff {ctx : γ} {inside : List σ} (hopens : sc.Opens (fun _ => none) sc.top inside)
    (hquiet : ∀ s ∈ inside ++ [sc.top], ∀ ctx ctx' posts,
      sc.entry env s ctx = .ok (ctx', posts) → posts = [])
    (hrem : ∀ m₀, ch.start env ctx = .ok m₀ → RemembersAlong ch sc m₀ es)
    (hrounds : ∀ m₀ es₁ t e, ch.start env ctx = .ok m₀ → Run ch.Step m₀ es₁ t → EnoughRounds ch t e) :
    (∃ m₀ m, ch.start env ctx = .ok m₀ ∧ Run ch.Step m₀ es m ∧ ch.view m = v') ↔
      ∃ v₀, sc.Starts env ctx v₀ ∧ Run sc.Step v₀ es v' := by
  constructor
  · intro ⟨m₀, m, hstart, hr, hv⟩
    refine ⟨ch.view m₀, (hi.start_iff hopens hquiet).mp ⟨m₀, hstart, rfl⟩, ?_⟩
    exact (hi.run_iff (hi.start_single hopens hquiet hstart) (hrem m₀ hstart)
      (fun es₁ t e => hrounds m₀ es₁ t e hstart)).mp ⟨m, hr, hv⟩
  · intro ⟨v₀, hstarts, hr⟩
    obtain ⟨m₀, hstart, rfl⟩ := (hi.start_iff hopens hquiet).mpr hstarts
    obtain ⟨m, hrun, hv⟩ := (hi.run_iff (hi.start_single hopens hquiet hstart) (hrem m₀ hstart)
      (fun es₁ t e => hrounds m₀ es₁ t e hstart)).mpr hr
    exact ⟨m₀, m, hstart, hrun, hv⟩

end Runs

end Implements

end YModem.SmartState
