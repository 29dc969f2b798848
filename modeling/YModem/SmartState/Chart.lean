import Mathlib.Logic.Function.Basic
import Mathlib.Data.List.Basic
import YModem.Lib.Run

/-!
# The SmartState runtime (`ss_api.cpp`)

`StateMgr` keeps the list of active leaf states, a shallow history pointer in each
super-state and a queue of internally posted messages. A generated chart supplies
the state tree, the entry actions and the message handlers. Every handler of a
generated chart either runs an effect in place, or runs `executeExit`, its effect
and `executeEntry`; `Reaction` is that choice. A handler none of whose guards holds
passes the message to the handler of the parent state (`super::onMessage`).

The exit actions of both charts of this repository only write to the debug log, so
exiting a state has no effect here beyond the active list and the history.
-/

namespace YModem.SmartState

/-- Why a call of the runtime did not return normally. -/
inductive Fault where
  /-- `postEvent` on a machine in its final state throws "Not Running". -/
  | notRunning
  /-- `getRoot` throws "Invalid transition", or a loop to the root ran past the top. -/
  | invalidTransition
  /-- An exception other than a string was rethrown as "Internal Error, Unexpected". -/
  | unexpected
  /-- The process called `exit`, directly or through the error reporter. -/
  | exited
  /-- The code read or wrote outside an object. -/
  | undefinedBehaviour
  /-- More posted messages were handled than the model allows for. -/
  | rounds
deriving DecidableEq, Repr

theorem ok_bind {α β : Type} {a : α} {f : α → Except Fault β} : (Except.ok a >>= f) = f a := rfl

theorem error_bind {α β : Type} {e : Fault} {f : α → Except Fault β} :
    (Except.error e >>= f) = Except.error e := rfl

theorem toOption_eq_some {α : Type} {x : Except Fault α} {a : α} :
    x.toOption = some a ↔ x = .ok a := by
  cases x <;> simp [Except.toOption]

theorem bind_inv {α β : Type} {x : Except Fault α} {f : α → Except Fault β} {b : β}
    (h : x >>= f = .ok b) : ∃ a, x = .ok a ∧ f a = .ok b := by
  cases x with
  | error e => cases h
  | ok a => exact ⟨a, rfl, h⟩

/-- What a handler does with a message it does not pass on. -/
inductive Reaction (σ γ : Type) where
  /-- An internal transition: only the effect runs. -/
  | stay (effect : γ → Except Fault γ)
  /-- An external transition; `none` is `FinalState`. -/
  | go (next : Option σ) (effect : γ → Except Fault γ)

/-- The ancestors of a state, itself first. -/
def ancestorsOf {σ : Type} (parent : σ → Option σ) : Nat → σ → List σ
  | 0, s => [s]
  | n + 1, s =>
    match parent s with
    | none => [s]
    | some p => s :: ancestorsOf parent n p

/-- A generated chart over states `σ`, messages `μ`, a context `γ` and the answers `ε`
that the operating system gives while one event is handled. -/
structure Chart (σ μ ε γ : Type) where
  top : σ
  parent : σ → Option σ
  /-- `mySubStates`; a state is a super-state exactly when it has some. -/
  subStates : σ → List σ
  myHistory : σ → Bool
  height : Nat
  /-- How many posted messages one event may cause. -/
  rounds : Nat
  /-- The entry action, with the messages it posts. -/
  onEntry : ε → σ → γ → Except Fault (γ × List μ)
  onMessage : ε → σ → μ → γ → Option (Reaction σ γ)
  /-- `height` bounds the depth of the tree. -/
  rooted : ∀ s, (ancestorsOf parent height s).getLast? = some top

/-- The state of a `StateMgr` between two statements of the runtime. -/
structure StateMgr (σ μ γ : Type) where
  active : List σ
  history : σ → Option σ
  running : Bool
  posted : List μ
  ctx : γ

variable {σ μ ε γ : Type} [DecidableEq σ]

namespace Chart

variable (ch : Chart σ μ ε γ)

def ancestors (s : σ) : List σ := ancestorsOf ch.parent ch.height s

/-- `s->isParent(p)`: `p` is a proper ancestor of `s`. -/
def isParent (s p : σ) : Bool := decide (p ∈ (ch.ancestors s).tail)

/-- The first ancestor of `leaf1` that is also one of `leaf2`. -/
def getRoot (leaf1 leaf2 : σ) : Option σ :=
  (ch.ancestors leaf1).find? fun p => decide (p ∈ ch.ancestors leaf2)

/-- The leaf that entering `s` activates: a stored history state is followed, otherwise
the first sub-state. -/
def initialState (history : σ → Option σ) : Nat → σ → σ
  | 0, s => s
  | n + 1, s =>
    match ch.subStates s with
    | [] => s
    | first :: _ =>
      match history s with
      | some h => initialState history n h
      | none => initialState history n first

def getInitialStates (history : σ → Option σ) (s : σ) : List σ :=
  [ch.initialState history ch.height s]

/-- Leaving `s`: its parent remembers it if the parent keeps history. -/
def remember (history : σ → Option σ) (s : σ) : σ → Option σ :=
  match ch.parent s with
  | some p => if ch.myHistory p then Function.update history p (some s) else history
  | none => history

/-- One turn of the second loop of `removeActiveStates`: the active states below `p`
are remembered and erased. -/
def sweep (m : StateMgr σ μ γ) (p : σ) : StateMgr σ μ γ :=
  { m with
    active := m.active.filter fun s => !ch.isParent s p
    history := (m.active.filter fun s => ch.isParent s p).foldl ch.remember m.history }

/-- The caller itself is erased without being remembered; then every active state
below the caller or below a state between it and the root is. -/
def removeActiveStates (state root : σ) (m : StateMgr σ μ γ) : StateMgr σ μ γ :=
  ((ch.ancestors state).takeWhile fun p => !decide (p = root)).foldl ch.sweep
    { m with active := m.active.erase state }

def executeExit (currState : σ) (nextState : Option σ) (m : StateMgr σ μ γ) :
    Except Fault (Option σ × StateMgr σ μ γ) :=
  match nextState with
  | none => .ok (none, { m with active := [] })
  | some next =>
    match ch.getRoot currState next with
    | none => .error .invalidTransition
    | some root => .ok (some root, ch.removeActiveStates currState root m)

/-- The states entered on the way from below `root` to `state` and on to its leaf. -/
def constructTree (history : σ → Option σ) (root state : σ) : List σ :=
  ((ch.ancestors state).takeWhile fun p => !decide (p = root)).reverse ++
    ((ch.ancestors (ch.initialState history ch.height state)).takeWhile
      fun p => !decide (p = state)).reverse

/-- `onEntry` of each state of a tree, in order; posted messages are queued. -/
def enterAll (env : ε) : List σ → StateMgr σ μ γ → Except Fault (StateMgr σ μ γ)
  | [], m => .ok m
  | s :: ss, m => do
    let (ctx, posts) ← ch.onEntry env s m.ctx
    enterAll env ss { m with ctx := ctx, posted := m.posted ++ posts }

def executeEntry (env : ε) (root : Option σ) (nextState : Option σ) (m : StateMgr σ μ γ) :
    Except Fault (StateMgr σ μ γ) :=
  match root, nextState with
  | some root, some next =>
    ch.enterAll env (ch.constructTree m.history root next)
      { m with active := m.active ++ ch.getInitialStates m.history next }
  | _, _ => .ok { m with running := false }

/-- The body of a handler of state `caller` whose guard holds. -/
def react (env : ε) (caller : σ) (m : StateMgr σ μ γ) :
    Reaction σ γ → Except Fault (StateMgr σ μ γ)
  | .stay effect => do
    let ctx ← effect m.ctx
    return { m with ctx := ctx }
  | .go next effect => do
    let (root, m) ← ch.executeExit caller next m
    let ctx ← effect m.ctx
    ch.executeEntry env root next { m with ctx := ctx }

/-- `s->onMessage(mesg)`: the handlers of `s` and of its ancestors are tried in turn. -/
def onMessageOf (env : ε) (mesg : μ) (s : σ) (m : StateMgr σ μ γ) :
    Except Fault (StateMgr σ μ γ) :=
  match (ch.ancestors s).findSome? fun a => (ch.onMessage env a mesg m.ctx).map (a, ·) with
  | none => .ok m
  | some (caller, r) => ch.react env caller m r

/-- The message goes to each state that was active before and still is. -/
def fireMessage (env : ε) (mesg : μ) (m : StateMgr σ μ γ) : Except Fault (StateMgr σ μ γ) :=
  m.active.foldlM (fun m s => if s ∈ m.active then ch.onMessageOf env mesg s m else .ok m) m

/-- The loop over `myPostedMesgList`, from index `i`; handlers may append to the list
while it runs. -/
def sendPostedMessages (env : ε) : Nat → Nat → StateMgr σ μ γ → Except Fault (StateMgr σ μ γ)
  | 0, i, m => if i < m.posted.length then .error .rounds else .ok m
  | n + 1, i, m =>
    match m.posted[i]? with
    | none => .ok m
    | some mesg => do
      let m ← ch.fireMessage env mesg m
      sendPostedMessages env n (i + 1) m

def postEvent (env : ε) (mesg : μ) (m : StateMgr σ μ γ) : Except Fault (StateMgr σ μ γ) := do
  if m.running then
    let m ← ch.fireMessage env mesg { m with posted := [] }
    ch.sendPostedMessages env ch.rounds 0 m
  else
    .error .notRunning

/-- `StateMgr::start` on a freshly built machine. -/
def start (env : ε) (ctx : γ) : Except Fault (StateMgr σ μ γ) := do
  let history : σ → Option σ := fun _ => none
  let leaf := ch.initialState history ch.height ch.top
  let m ← ch.enterAll env (ch.ancestors leaf).reverse ⟨[leaf], history, false, [], ctx⟩
  let m ← ch.sendPostedMessages env ch.rounds 0 m
  return { m with running := true }

section Rules

variable {ch}

/-- The handler that takes a message is the one of the first ancestor that has one. -/
theorem onMessageOf_eq {env : ε} {mesg : μ} {s a : σ} {m : StateMgr σ μ γ} {r : Reaction σ γ}
    (below : List σ) {above : List σ} (hanc : ch.ancestors s = below ++ a :: above)
    (hnone : ∀ b ∈ below, ch.onMessage env b mesg m.ctx = none)
    (hsome : ch.onMessage env a mesg m.ctx = some r) :
    ch.onMessageOf env mesg s m = ch.react env a m r := by
  have hfind : (ch.ancestors s).findSome? (fun a => (ch.onMessage env a mesg m.ctx).map (a, ·)) =
      some (a, r) := by
    have hbelow : below.findSome? (fun a => (ch.onMessage env a mesg m.ctx).map (a, ·)) = none := by
      rw [List.findSome?_eq_none_iff]
      intro b hb
      rw [hnone b hb, Option.map_none]
    rw [hanc, List.findSome?_append, hbelow, Option.none_or, List.findSome?_cons, hsome,
      Option.map_some]
  unfold onMessageOf
  rw [hfind]

/-- A message that no ancestor takes changes nothing. -/
theorem onMessageOf_ignored {env : ε} {mesg : μ} {s : σ} {m : StateMgr σ μ γ}
    (hnone : ∀ b ∈ ch.ancestors s, ch.onMessage env b mesg m.ctx = none) :
    ch.onMessageOf env mesg s m = .ok m := by
  have hfind : (ch.ancestors s).findSome? (fun a => (ch.onMessage env a mesg m.ctx).map (a, ·)) =
      none := by
    rw [List.findSome?_eq_none_iff]
    intro b hb
    rw [hnone b hb, Option.map_none]
  unfold onMessageOf
  rw [hfind]

theorem fireMessage_leaf {env : ε} {mesg : μ} {s : σ} {m : StateMgr σ μ γ} (h : m.active = [s]) :
    ch.fireMessage env mesg m = ch.onMessageOf env mesg s m := by
  simp [fireMessage, h]

theorem sendPostedMessages_nil {env : ε} {n i : Nat} {m : StateMgr σ μ γ}
    (h : m.posted.length ≤ i) : ch.sendPostedMessages env n i m = .ok m := by
  cases n with
  | zero => simp [sendPostedMessages, Nat.not_lt.mpr h]
  | succ n => simp [sendPostedMessages, List.getElem?_eq_none h]

theorem sendPostedMessages_next {env : ε} {n i : Nat} {m m' : StateMgr σ μ γ} {mesg : μ}
    (h : m.posted[i]? = some mesg) (hf : ch.fireMessage env mesg m = .ok m') :
    ch.sendPostedMessages env (n + 1) i m = ch.sendPostedMessages env n (i + 1) m' := by
  simp [sendPostedMessages, h, hf, Bind.bind, Except.bind]

theorem sendPostedMessages_fault {env : ε} {n i : Nat} {m : StateMgr σ μ γ} {mesg : μ} {f : Fault}
    (h : m.posted[i]? = some mesg) (hf : ch.fireMessage env mesg m = .error f) :
    ch.sendPostedMessages env (n + 1) i m = .error f := by
  simp [sendPostedMessages, h, hf, Bind.bind, Except.bind]

theorem postEvent_eq {env : ε} {mesg : μ} {m m' : StateMgr σ μ γ} (hr : m.running = true)
    (hf : ch.fireMessage env mesg { m with posted := [] } = .ok m') :
    ch.postEvent env mesg m = ch.sendPostedMessages env ch.rounds 0 m' := by
  unfold postEvent
  rw [if_pos hr, hf]
  rfl

omit [DecidableEq σ] in
theorem ancestors_eq_cons (ch : Chart σ μ ε γ) (s : σ) : ∃ above, ch.ancestors s = s :: above := by
  unfold ancestors
  cases ch.height with
  | zero => exact ⟨[], rfl⟩
  | succ n =>
    rw [ancestorsOf]
    cases ch.parent s with
    | none => exact ⟨[], rfl⟩
    | some p => exact ⟨_, rfl⟩

omit [DecidableEq σ] in
theorem mem_tail_ancestors {s p : σ} (h : p ∈ ch.ancestors s) (hne : p ≠ s) :
    p ∈ (ch.ancestors s).tail := by
  obtain ⟨above, habove⟩ := ancestors_eq_cons ch s
  rw [habove] at h ⊢
  exact (List.mem_cons.mp h).resolve_left hne

/-- Leaving states changes neither the queue nor the context. -/
theorem removeActiveStates_keeps (ch : Chart σ μ ε γ) (m : StateMgr σ μ γ) (state root : σ) :
    (ch.removeActiveStates state root m).posted = m.posted ∧
      (ch.removeActiveStates state root m).running = m.running ∧
      (ch.removeActiveStates state root m).ctx = m.ctx := by
  have hfold (ps : List σ) (m : StateMgr σ μ γ) : (ps.foldl ch.sweep m).posted = m.posted ∧
      (ps.foldl ch.sweep m).running = m.running ∧ (ps.foldl ch.sweep m).ctx = m.ctx := by
    induction ps generalizing m with
    | nil => exact ⟨rfl, rfl, rfl⟩
    | cons p ps ih => exact ih (ch.sweep m p)
  exact hfold _ _

theorem foldl_sweep_nil {m : StateMgr σ μ γ} (ps : List σ) (h : m.active = []) :
    ps.foldl ch.sweep m = m := by
  obtain ⟨active, history, running, posted, ctx⟩ := m
  cases h
  induction ps with
  | nil => rfl
  | cons p ps ih => exact ih

/-- A transition of the leaf itself: no super-state remembers it. -/
theorem removeActiveStates_self {m : StateMgr σ μ γ} {leaf root : σ} (hactive : m.active = [leaf]) :
    ch.removeActiveStates leaf root m = { m with active := [] } := by
  unfold removeActiveStates
  rw [hactive, List.erase_cons_head]
  exact foldl_sweep_nil _ rfl

/-- A transition whose root is not its caller leaves the leaf. -/
theorem removeActiveStates_active {m : StateMgr σ μ γ} {leaf caller root : σ}
    (hactive : m.active = [leaf]) (hcaller : caller ∈ ch.ancestors leaf) (hroot : caller ≠ root) :
    (ch.removeActiveStates caller root m).active = [] := by
  by_cases h : leaf = caller
  · subst h
    rw [removeActiveStates_self hactive]
  · obtain ⟨above, habove⟩ := ancestors_eq_cons ch caller
    have hswept : (ch.sweep { m with active := m.active.erase caller } caller).active = [] := by
      change (m.active.erase caller).filter _ = []
      have htail := mem_tail_ancestors hcaller (Ne.symm h)
      rw [hactive, List.erase_cons_tail (by simpa using h)]
      simp [isParent, htail]
    unfold removeActiveStates
    rw [habove, List.takeWhile_cons_of_pos (by simpa using hroot), List.foldl_cons,
      foldl_sweep_nil _ hswept]
    exact hswept

end Rules

/-- One posted event as a labelled step: the event, with the answers the operating
system gives while it is handled. -/
def Step (m : StateMgr σ μ γ) (e : ε × μ) (m' : StateMgr σ μ γ) : Prop :=
  ch.postEvent e.1 e.2 m = .ok m'

/-- A session: the machine is started and a list of events is posted to it. -/
def session (env : ε) (ctx : γ) (es : List (ε × μ)) : Except Fault (StateMgr σ μ γ) := do
  let m ← ch.start env ctx
  es.foldlM (fun m e => ch.postEvent e.1 e.2 m) m

variable {ch}

private theorem run_of_foldlM {m m' : StateMgr σ μ γ} {es : List (ε × μ)}
    (h : es.foldlM (fun m e => ch.postEvent e.1 e.2 m) m = .ok m') : Lib.Run ch.Step m es m' := by
  induction es generalizing m with
  | nil =>
    cases h
    exact .refl
  | cons e es ih =>
    rw [List.foldlM_cons] at h
    cases hstep : ch.postEvent e.1 e.2 m with
    | error f => simp [hstep, Bind.bind, Except.bind] at h
    | ok m₁ =>
      simp only [hstep, Bind.bind, Except.bind] at h
      exact Lib.Run.cons hstep (ih h)

/-- A session that can be evaluated is a run of the machine. -/
theorem run_of_session {env : ε} {ctx : γ} {es : List (ε × μ)} {check : StateMgr σ μ γ → Bool}
    (h : (ch.session env ctx es).toOption.any check = true) :
    ∃ m₀ m, ch.start env ctx = .ok m₀ ∧ Lib.Run ch.Step m₀ es m ∧
      ch.session env ctx es = .ok m ∧ check m = true := by
  cases hs : ch.session env ctx es with
  | error f => simp [hs, Except.toOption] at h
  | ok m =>
    have hc : check m = true := by simpa [hs, Except.toOption] using h
    unfold session at hs
    cases hstart : ch.start env ctx with
    | error f => simp [hstart, Bind.bind, Except.bind] at hs
    | ok m₀ =>
      simp only [hstart, Bind.bind, Except.bind] at hs
      exact ⟨m₀, m, rfl, run_of_foldlM hs, rfl, hc⟩

/-- The same for a session that is continued. -/
theorem run_of_sessions {env : ε} {ctx : γ} {es₁ es₂ : List (ε × μ)}
    {check₁ check₂ : StateMgr σ μ γ → Bool}
    (h₁ : (ch.session env ctx es₁).toOption.any check₁ = true)
    (h₂ : (ch.session env ctx (es₁ ++ es₂)).toOption.any check₂ = true) :
    ∃ m₀ m m', ch.start env ctx = .ok m₀ ∧ Lib.Run ch.Step m₀ es₁ m ∧ check₁ m = true ∧
      Lib.Run ch.Step m es₂ m' ∧ check₂ m' = true := by
  obtain ⟨m₀, m, hstart, hr, hs, hc⟩ := run_of_session h₁
  obtain ⟨_, m', _, _, hs', hc'⟩ := run_of_session h₂
  refine ⟨m₀, m, m', hstart, hr, hc, run_of_foldlM ?_, hc'⟩
  have hsplit : ch.session env ctx (es₁ ++ es₂) =
      ch.session env ctx es₁ >>= fun m => es₂.foldlM (fun m e => ch.postEvent e.1 e.2 m) m := by
    simp only [session, List.foldlM_append, bind_assoc]
  rw [hsplit, hs] at hs'
  exact hs'

end Chart

end YModem.SmartState
