import YModem.SmartState.Chart

/-!
# Who posted a message, and who took it

The list of posted messages of a `StateMgr` does not tell which state posted a message, and
nothing records which state took one. `Chart.tagged` is a chart with the same states, entry
actions and handlers whose messages carry the state that posted them and whose context keeps a
ledger of what has been taken; the runtime runs it like any other chart. Without the tags and
the ledger it is the chart itself, event by event.
-/

namespace YModem.SmartState

variable {σ μ ε γ : Type}

/-- A context, with the poster of each message that has been taken (none for an event from
outside) and the state whose handler took it. -/
structure Ledger (σ γ : Type) where
  ctx : γ
  taken : List (Option σ × σ)

/-- An effect that enters into the ledger that `taker` has taken a message from `poster`. -/
def recorded (poster : Option σ) (taker : σ) (effect : γ → Except Fault γ) (l : Ledger σ γ) :
    Except Fault (Ledger σ γ) := do
  let ctx ← effect l.ctx
  return ⟨ctx, l.taken ++ [(poster, taker)]⟩

def Reaction.recorded (poster : Option σ) (taker : σ) :
    Reaction σ γ → Reaction σ (Ledger σ γ)
  | .stay effect => .stay (SmartState.recorded poster taker effect)
  | .go next effect => .go next (SmartState.recorded poster taker effect)

/-- The chart with tagged messages. -/
def Chart.tagged (ch : Chart σ μ ε γ) : Chart σ (μ × Option σ) ε (Ledger σ γ) where
  top := ch.top
  parent := ch.parent
  subStates := ch.subStates
  myHistory := ch.myHistory
  height := ch.height
  rounds := ch.rounds
  onEntry env s l := do
    let (ctx, posts) ← ch.onEntry env s l.ctx
    return ({ l with ctx := ctx }, posts.map (·, some s))
  onMessage env s mesg l :=
    (ch.onMessage env s mesg.1 l.ctx).map (Reaction.recorded mesg.2 s)
  rooted := ch.rooted

namespace StateMgr

/-- A machine, with an empty ledger. -/
def tag (m : StateMgr σ μ γ) : StateMgr σ (μ × Option σ) (Ledger σ γ) :=
  ⟨m.active, m.history, m.running, m.posted.map (·, none), ⟨m.ctx, []⟩⟩

def untag (t : StateMgr σ (μ × Option σ) (Ledger σ γ)) : StateMgr σ μ γ :=
  ⟨t.active, t.history, t.running, t.posted.map Prod.fst, t.ctx.ctx⟩

@[simp] theorem untag_tag (m : StateMgr σ μ γ) : m.tag.untag = m := by
  simp [tag, untag, Function.comp_def]

end StateMgr

namespace Chart

variable {ch : Chart σ μ ε γ} {env : ε} {t : StateMgr σ (μ × Option σ) (Ledger σ γ)}

/-! ## Without the tags -/

/-- A bind, seen without the tags. -/
theorem untag_bind {α β α' β' : Type} {x : Except Fault α} {x' : Except Fault α'}
    {f : α → Except Fault β} {f' : α' → Except Fault β'} {g : α → α'} {h : β → β'}
    (hx : g <$> x = x') (hf : ∀ a, h <$> f a = f' (g a)) : h <$> (x >>= f) = x' >>= f' := by
  rw [← hx, map_bind, bind_map_left]
  exact bind_congr hf

theorem onEntry_untag (s : σ) (l : Ledger σ γ) :
    (fun p => (p.1.ctx, p.2.map Prod.fst)) <$> ch.tagged.onEntry env s l =
      ch.onEntry env s l.ctx := by
  change _ <$> (ch.onEntry env s l.ctx >>= _) = _
  cases ch.onEntry env s l.ctx with
  | error f => rfl
  | ok p => simp [Bind.bind, Except.bind, Functor.map, Except.map, pure, Except.pure,
      Function.comp_def]

theorem enterAll_untag (ss : List σ) :
    StateMgr.untag <$> ch.tagged.enterAll env ss t = ch.enterAll env ss t.untag := by
  induction ss generalizing t with
  | nil => rfl
  | cons s ss ih =>
    refine untag_bind (onEntry_untag s t.ctx) fun p => ?_
    rw [ih]
    simp [StateMgr.untag]

theorem initialState_tagged (history : σ → Option σ) (n : Nat) (s : σ) :
    ch.tagged.initialState history n s = ch.initialState history n s := by
  induction n generalizing s with
  | zero => rfl
  | succ n ih =>
    have hsub : ch.tagged.subStates s = ch.subStates s := rfl
    simp only [initialState, hsub]
    cases ch.subStates s with
    | nil => rfl
    | cons first rest => cases history s <;> exact ih _

theorem getInitialStates_tagged (history : σ → Option σ) (s : σ) :
    ch.tagged.getInitialStates history s = ch.getInitialStates history s :=
  congrArg (fun s => [s]) (initialState_tagged history ch.height s)

section Posts

variable {posts : σ → List μ} {t' : StateMgr σ (μ × Option σ) (Ledger σ γ)} {poster : Option σ}
  {caller : σ} {effect : γ → Except Fault γ}

/-- What is posted when the states `ss` are entered. -/
def postedBy (posts : σ → List μ) (ss : List σ) : List (μ × Option σ) :=
  ss.flatMap fun s => (posts s).map (·, some s)

/-- Two machines that differ in the context and in what has been posted. -/
structure Entered (t t' : StateMgr σ (μ × Option σ) (Ledger σ γ))
    (new : List (μ × Option σ)) : Prop where
  active : t'.active = t.active
  history : t'.history = t.history
  running : t'.running = t.running
  taken : t'.ctx.taken = t.ctx.taken
  posted : t'.posted = t.posted ++ new

/-- The states that are entered post in their own names, and nothing is taken. -/
theorem enterAll_tagged
    (hposts : ∀ {env s c c' ps}, ch.onEntry env s c = .ok (c', ps) → ps = posts s)
    {ss : List σ} (h : ch.tagged.enterAll env ss t = .ok t') :
    Entered t t' (postedBy posts ss) := by
  induction ss generalizing t with
  | nil =>
    cases h
    exact ⟨rfl, rfl, rfl, rfl, (List.append_nil _).symm⟩
  | cons s ss ih =>
    obtain ⟨p, hentry, h⟩ := bind_inv h
    obtain ⟨⟨c, ps⟩, hone, hp⟩ := bind_inv hentry
    cases hp
    obtain ⟨hactive, hhistory, hrunning, htaken, hposted⟩ := ih h
    refine ⟨hactive, hhistory, hrunning, htaken, ?_⟩
    rw [hposted, hposts hone, List.append_assoc]
    rfl

theorem recorded_taken {l l' : Ledger σ γ} (h : recorded poster caller effect l = .ok l') :
    l'.taken = l.taken ++ [(poster, caller)] := by
  obtain ⟨ctx, -, hl⟩ := bind_inv h
  cases hl
  rfl

end Posts

variable [DecidableEq σ]

theorem foldl_sweep_untag (ps : List σ) :
    (ps.foldl ch.tagged.sweep t).untag = ps.foldl ch.sweep t.untag := by
  induction ps generalizing t with
  | nil => rfl
  | cons p ps ih => exact ih

theorem executeExit_untag (caller : σ) (next : Option σ) :
    (fun p => (p.1, p.2.untag)) <$> ch.tagged.executeExit caller next t =
      ch.executeExit caller next t.untag := by
  cases next with
  | none => rfl
  | some next =>
    have hroot : ch.tagged.getRoot caller next = ch.getRoot caller next := rfl
    simp only [executeExit, hroot]
    cases ch.getRoot caller next with
    | none => rfl
    | some root =>
      exact congrArg (fun m => Except.ok (some root, m)) (foldl_sweep_untag _)

theorem constructTree_tagged (history : σ → Option σ) (root s : σ) :
    ch.tagged.constructTree history root s = ch.constructTree history root s := by
  have hleaf : ch.tagged.initialState history ch.tagged.height s =
      ch.initialState history ch.height s := initialState_tagged history ch.height s
  rw [constructTree, hleaf]
  rfl

theorem executeEntry_untag (root next : Option σ) :
    StateMgr.untag <$> ch.tagged.executeEntry env root next t =
      ch.executeEntry env root next t.untag := by
  cases root with
  | none => rfl
  | some root =>
    cases next with
    | none => rfl
    | some next =>
      simp only [executeEntry, constructTree_tagged, getInitialStates_tagged]
      exact enterAll_untag _

theorem react_untag (poster : Option σ) (caller : σ) (r : Reaction σ γ) :
    StateMgr.untag <$> ch.tagged.react env caller t (r.recorded poster caller) =
      ch.react env caller t.untag r := by
  have heffect (effect : γ → Except Fault γ) (l : Ledger σ γ) :
      Ledger.ctx <$> recorded poster caller effect l = effect l.ctx := by
    unfold recorded
    cases effect l.ctx <;> rfl
  cases r with
  | stay effect =>
    change StateMgr.untag <$> (recorded poster caller effect t.ctx >>= fun l =>
        Except.ok { t with ctx := l }) =
      effect t.ctx.ctx >>= fun ctx => Except.ok { t.untag with ctx := ctx }
    exact untag_bind (heffect effect t.ctx) fun l => rfl
  | go next effect =>
    refine untag_bind (executeExit_untag caller next) fun p => ?_
    exact untag_bind (heffect effect p.2.ctx) fun l => executeEntry_untag p.1 next

theorem onMessageOf_untag (mesg : μ × Option σ) (s : σ) :
    StateMgr.untag <$> ch.tagged.onMessageOf env mesg s t =
      ch.onMessageOf env mesg.1 s t.untag := by
  have hfind : (ch.tagged.ancestors s).findSome?
        (fun a => (ch.tagged.onMessage env a mesg t.ctx).map (a, ·)) =
      ((ch.ancestors s).findSome? fun a => (ch.onMessage env a mesg.1 t.untag.ctx).map (a, ·)).map
        fun p => (p.1, p.2.recorded mesg.2 p.1) := by
    change (ch.ancestors s).findSome? _ = _
    induction ch.ancestors s with
    | nil => rfl
    | cons a ss ih =>
      rw [List.findSome?_cons, List.findSome?_cons, ih]
      have hone : ch.tagged.onMessage env a mesg t.ctx =
          (ch.onMessage env a mesg.1 t.untag.ctx).map (Reaction.recorded mesg.2 a) := rfl
      rw [hone]
      cases ch.onMessage env a mesg.1 t.untag.ctx <;> rfl
  simp only [onMessageOf, hfind]
  cases (ch.ancestors s).findSome? fun a => (ch.onMessage env a mesg.1 t.untag.ctx).map (a, ·) with
  | none => rfl
  | some p => exact react_untag mesg.2 p.1 p.2

theorem fireMessage_untag (mesg : μ × Option σ) :
    StateMgr.untag <$> ch.tagged.fireMessage env mesg t = ch.fireMessage env mesg.1 t.untag := by
  have hfold (ss : List σ) (t : StateMgr σ (μ × Option σ) (Ledger σ γ)) :
      StateMgr.untag <$> ss.foldlM (fun t s => if s ∈ t.active then
          ch.tagged.onMessageOf env mesg s t else .ok t) t =
        ss.foldlM (fun m s => if s ∈ m.active then ch.onMessageOf env mesg.1 s m else .ok m)
          t.untag := by
    induction ss generalizing t with
    | nil => rfl
    | cons s ss ih =>
      rw [List.foldlM_cons, List.foldlM_cons]
      refine untag_bind (g := StateMgr.untag) ?_ ih
      change _ <$> _ = if s ∈ t.active then _ else _
      split
      · exact onMessageOf_untag mesg s
      · rfl
  exact hfold t.active t

theorem sendPostedMessages_untag (n i : Nat) :
    StateMgr.untag <$> ch.tagged.sendPostedMessages env n i t =
      ch.sendPostedMessages env n i t.untag := by
  induction n generalizing i t with
  | zero =>
    have hlen : t.untag.posted.length = t.posted.length := List.length_map _
    simp only [sendPostedMessages, hlen]
    split <;> rfl
  | succ n ih =>
    have hget : t.untag.posted[i]? = t.posted[i]?.map Prod.fst := List.getElem?_map
    simp only [sendPostedMessages, hget]
    cases t.posted[i]? with
    | none => rfl
    | some mesg => exact untag_bind (fireMessage_untag mesg) fun t => ih (i + 1)

/-- **The tagged machine is the machine**, event by event. -/
theorem postEvent_untag (mesg : μ) (poster : Option σ) :
    StateMgr.untag <$> ch.tagged.postEvent env (mesg, poster) t =
      ch.postEvent env mesg t.untag := by
  unfold postEvent
  change _ <$> (if t.running then _ else _) = if t.running then _ else _
  split
  · refine untag_bind (fireMessage_untag (mesg, poster)) fun t => ?_
    exact sendPostedMessages_untag ch.rounds 0
  · rfl

theorem postEvent_tagged {m m' : StateMgr σ μ γ} {mesg : μ} (poster : Option σ)
    (h : ch.postEvent env mesg m = .ok m') :
    ∃ t, ch.tagged.postEvent env (mesg, poster) m.tag = .ok t ∧ t.untag = m' := by
  have huntag := h
  rw [← StateMgr.untag_tag m, ← postEvent_untag mesg poster] at huntag
  cases ht : ch.tagged.postEvent env (mesg, poster) m.tag with
  | error f =>
    rw [ht] at huntag
    cases huntag
  | ok t =>
    rw [ht] at huntag
    exact ⟨t, rfl, Except.ok.inj huntag⟩

/-! ## What the tags and the ledger tell -/

section

variable {posts : σ → List μ} {t' : StateMgr σ (μ × Option σ) (Ledger σ γ)} {poster : Option σ}
  {caller next : σ} {effect : γ → Except Fault γ}

/-- A message is ignored, or the handler of an ancestor takes it. -/
theorem onMessageOf_tagged {mesg : μ} {s : σ}
    (h : ch.tagged.onMessageOf env (mesg, poster) s t = .ok t') :
    t' = t ∨ ∃ a ∈ ch.ancestors s, ∃ r, ch.onMessage env a mesg t.ctx.ctx = some r ∧
      ch.tagged.react env a t (r.recorded poster a) = .ok t' := by
  unfold onMessageOf at h
  split at h
  · cases h
    exact .inl rfl
  · rename_i a r hfind
    obtain ⟨b, hb, hr⟩ := List.exists_of_findSome?_eq_some hfind
    obtain ⟨r₁, hr₁, hpair⟩ := Option.map_eq_some_iff.mp hr
    cases hpair
    obtain ⟨r₂, hr₂, rfl⟩ := Option.map_eq_some_iff.mp hr₁
    exact .inr ⟨a, hb, r₂, hr₂, h⟩

/-- An internal transition posts nothing. -/
theorem react_stay
    (h : ch.tagged.react env caller t (.stay (recorded poster caller effect)) = .ok t') :
    t'.active = t.active ∧ t'.running = t.running ∧ t'.posted = t.posted ∧
      t'.ctx.taken = t.ctx.taken ++ [(poster, caller)] := by
  obtain ⟨l, hl, ht⟩ := bind_inv h
  cases ht
  exact ⟨rfl, rfl, rfl, recorded_taken hl⟩

/-- Nor does a transition to `FinalState`. -/
theorem react_final
    (h : ch.tagged.react env caller t (.go none (recorded poster caller effect)) = .ok t') :
    t'.active = [] ∧ t'.running = false ∧ t'.posted = t.posted ∧
      t'.ctx.taken = t.ctx.taken ++ [(poster, caller)] := by
  obtain ⟨p, hexit, h⟩ := bind_inv h
  cases hexit
  obtain ⟨l, hl, ht⟩ := bind_inv h
  cases ht
  exact ⟨rfl, rfl, rfl, recorded_taken hl⟩

/-- An external transition enters the states from below the root to a leaf. -/
theorem react_go
    (hposts : ∀ {env s c c' ps}, ch.onEntry env s c = .ok (c', ps) → ps = posts s)
    (h : ch.tagged.react env caller t (.go (some next) (recorded poster caller effect)) = .ok t') :
    ∃ root, ch.getRoot caller next = some root ∧
      let left := ch.removeActiveStates caller root t.untag
      t'.active = left.active ++ ch.getInitialStates left.history next ∧
      t'.running = t.running ∧
      t'.posted = t.posted ++ postedBy posts (ch.constructTree left.history root next) ∧
      t'.ctx.taken = t.ctx.taken ++ [(poster, caller)] := by
  obtain ⟨⟨root, left⟩, hexit, h⟩ := bind_inv h
  obtain ⟨l, hl, hentry⟩ := bind_inv h
  have hroot : ch.tagged.getRoot caller next = ch.getRoot caller next := rfl
  rw [executeExit, hroot] at hexit
  cases hr : ch.getRoot caller next with
  | none =>
    rw [hr] at hexit
    cases hexit
  | some root =>
    rw [hr] at hexit
    cases hexit
    refine ⟨root, rfl, ?_⟩
    have hleft : (ch.tagged.removeActiveStates caller root t).untag =
        ch.removeActiveStates caller root t.untag := foldl_sweep_untag _
    obtain ⟨hp, hrun, hctx⟩ := removeActiveStates_keeps ch.tagged t caller root
    simp only [executeEntry, constructTree_tagged, getInitialStates_tagged] at hentry
    obtain ⟨hactive, -, hrunning, htaken, hposted⟩ := enterAll_tagged hposts hentry
    rw [← hleft]
    refine ⟨hactive, hrunning.trans hrun, hposted.trans (by rw [hp]; rfl), ?_⟩
    rw [htaken, recorded_taken hl, hctx]

end

end Chart

end YModem.SmartState
