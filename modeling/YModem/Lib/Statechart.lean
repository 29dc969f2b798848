import Mathlib.Logic.Function.Basic
import Mathlib.Data.List.Chain
import Mathlib.Data.List.Nodup

/-!
# State charts

A chart as it is drawn: states inside states, an initial arrow in each state that has others
inside, history marks, and arrows with a message, a guard and an action between the states. One
state of those inside another is active at a time. A message is for the innermost active state
that has an arrow for it; the order in which the arrows of one state are drawn has no meaning. The
messages that entry actions post are handled before the next event.
-/

namespace YModem.Lib

/-- An arrow out of a state. One that leads back to its own state is internal: nothing is left
or entered. -/
structure Arrow (σ μ ε γ φ : Type) where
  /-- `none` is the final state. -/
  target : Option σ
  guard : μ → γ → Bool
  action : ε → γ → Except φ γ

/-- A chart over states `σ`, messages `μ`, a context `γ` and the answers `ε` that its actions get;
an action that does not return gives a `φ`. -/
structure Statechart (σ μ ε γ φ : Type) where
  top : σ
  parent : σ → Option σ
  /-- Where the initial arrow inside a state leads. -/
  initial : σ → Option σ
  history : σ → Bool
  /-- The entry action, with the messages it posts. -/
  entry : ε → σ → γ → Except φ (γ × List μ)
  /-- The arrows out of a state. -/
  arrows : σ → List (Arrow σ μ ε γ φ)

/-- A chart between two messages. -/
structure ChartState (σ γ : Type) where
  /-- The active states, innermost first; there is none in the final state. -/
  active : List σ
  /-- What the history marks remember. -/
  back : σ → Option σ
  ctx : γ

namespace Statechart

variable {σ μ ε γ φ : Type}

/-! ## States inside states -/

/-- `Path parent s l`: `l` is `s` and the states around it, innermost first. -/
inductive Path (parent : σ → Option σ) : σ → List σ → Prop where
  | top {s} (h : parent s = none) : Path parent s [s]
  | inner {s p l} (h : parent s = some p) (hp : Path parent p l) : Path parent s (s :: l)

namespace Path

variable {parent : σ → Option σ} {s p : σ} {l l' : List σ}

theorem cons_inv (h : Path parent s l) : ∃ above, l = s :: above := by
  cases h with
  | top _ => exact ⟨[], rfl⟩
  | inner _ _ => exact ⟨_, rfl⟩

theorem functional (h : Path parent s l) (h' : Path parent s l') : l = l' := by
  induction h generalizing l' with
  | top hs =>
    cases h' with
    | top _ => rfl
    | inner hs' _ => rw [hs] at hs'; cases hs'
  | inner hs _ ih =>
    cases h' with
    | top hs' => rw [hs] at hs'; cases hs'
    | inner hs' hp' =>
      obtain rfl := Option.some.inj (hs.symm.trans hs')
      rw [ih hp']

/-- What is around a state of a path is the rest of the path. -/
theorem suffix {below above : List σ} (h : Path parent s l) (hl : l = below ++ p :: above) :
    Path parent p (p :: above) := by
  induction h generalizing below with
  | top hs =>
    cases below with
    | nil =>
      cases hl
      exact .top hs
    | cons b below => simp at hl
  | inner hs hp ih =>
    cases below with
    | nil =>
      cases hl
      exact .inner hs hp
    | cons b below => exact ih (List.cons.inj hl).2

theorem nodup (h : Path parent s l) : l.Nodup := by
  induction h with
  | top _ => exact List.nodup_singleton _
  | @inner s p l hs hp ih =>
    refine List.nodup_cons.mpr ⟨fun hmem => ?_, ih⟩
    -- The path from `s` would be a proper part of itself.
    obtain ⟨below, above, rfl⟩ := List.append_of_mem hmem
    have hlen := congrArg List.length ((Path.inner hs hp).functional (hp.suffix rfl))
    simp only [List.length_cons, List.length_append] at hlen
    omega

/-- In a path, each state is inside the next one. -/
theorem isChain (h : Path parent s l) : l.IsChain fun c p => parent c = some p := by
  induction h with
  | top _ => exact .singleton _
  | inner hs hp ih =>
    obtain ⟨_, rfl⟩ := hp.cons_inv
    exact .cons_cons hs ih

end Path

/-- Two lists that are split where a condition holds for the first time are split at one place. -/
theorem split_unique {P : σ → Prop} {b b' a a' : List σ} {x x' : σ}
    (h : b ++ x :: a = b' ++ x' :: a') (hb : ∀ y ∈ b, ¬ P y) (hb' : ∀ y ∈ b', ¬ P y) (hx : P x)
    (hx' : P x') : b = b' ∧ x = x' ∧ a = a' := by
  induction b generalizing b' with
  | nil =>
    cases b' with
    | nil =>
      obtain ⟨hxx, haa⟩ := List.cons.inj h
      exact ⟨rfl, hxx, haa⟩
    | cons y b' =>
      obtain ⟨rfl, -⟩ := List.cons.inj h
      exact absurd hx (hb' x List.mem_cons_self)
  | cons y b ih =>
    cases b' with
    | nil =>
      obtain ⟨rfl, -⟩ := List.cons.inj h
      exact absurd hx' (hb y List.mem_cons_self)
    | cons z b' =>
      obtain ⟨rfl, htail⟩ := List.cons.inj h
      obtain ⟨rfl, hrest⟩ := ih htail (fun y hy => hb y (List.mem_cons_of_mem _ hy))
        (fun y hy => hb' y (List.mem_cons_of_mem _ hy))
      exact ⟨rfl, hrest⟩

/-! ## Reactions -/

variable (sc : Statechart σ μ ε γ φ)

/-- `sc.Opens back s inside`: with `s`, the states `inside` it are entered, innermost first. A
history mark that remembers a state leads there, and the initial arrow otherwise. -/
inductive Opens (back : σ → Option σ) : σ → List σ → Prop where
  | leaf {s} (h : sc.initial s = none) : Opens back s []
  | inner {s i inside} (h : sc.initial s = some i) (hi : Opens back ((back s).getD i) inside) :
      Opens back s (inside ++ [(back s).getD i])

theorem opens_functional {back : σ → Option σ} {s : σ} {l l' : List σ} (h : sc.Opens back s l)
    (h' : sc.Opens back s l') : l = l' := by
  induction h generalizing l' with
  | leaf hs =>
    cases h' with
    | leaf _ => rfl
    | inner hs' _ => rw [hs] at hs'; cases hs'
  | inner hs _ ih =>
    cases h' with
    | leaf hs' => rw [hs] at hs'; cases hs'
    | inner hs' hi' =>
      obtain rfl := Option.some.inj (hs.symm.trans hs')
      rw [ih hi']

/-- The entry actions of some states, in order, and all the messages they post. -/
def enter (env : ε) : List σ → γ → Except φ (γ × List μ)
  | [], ctx => .ok (ctx, [])
  | s :: ss, ctx => do
    let (ctx, posts) ← sc.entry env s ctx
    let (ctx, later) ← enter env ss ctx
    return (ctx, posts ++ later)

/-- What the history marks remember when some states are left, the innermost first: each marked
state the one inside it. -/
def remember [DecidableEq σ] (back : σ → Option σ) : List σ → σ → Option σ
  | c :: p :: left =>
    remember (if sc.history p then Function.update back p (some c) else back) (p :: left)
  | _ => back

/-- What is remembered by a state is inside it. -/
theorem remember_inside [DecidableEq σ] {back : σ → Option σ} {l : List σ}
    (hback : ∀ p h, back p = some h → sc.parent h = some p)
    (hl : l.IsChain fun c p => sc.parent c = some p) (p h : σ)
    (hh : sc.remember back l p = some h) : sc.parent h = some p := by
  induction l generalizing back with
  | nil => exact hback p h hh
  | cons c l ih =>
    cases l with
    | nil => exact hback p h hh
    | cons q l =>
      rw [List.isChain_cons_cons] at hl
      refine ih (fun p' h' hp' => ?_) hl.2 hh
      split_ifs at hp'
      · by_cases hq : p' = q
        · subst hq
          rw [Function.update_self] at hp'
          exact Option.some.inj hp' ▸ hl.1
        · rw [Function.update_of_ne hq] at hp'
          exact hback p' h' hp'
      · exact hback p' h' hp'

/-- Of the active states, `src` has the arrow `a` for the message, and those inside `src` have
none. -/
structure Takes (mesg : μ) (ctx : γ) (below : List σ) (src : σ) (a : Arrow σ μ ε γ φ) : Prop where
  mem : a ∈ sc.arrows src
  guard : a.guard mesg ctx = true
  innermost : ∀ s ∈ below, ∀ b ∈ sc.arrows s, b.guard mesg ctx = false

/-- What a chart may do with one message, and which messages it posts. -/
inductive Reacts [DecidableEq σ] (env : ε) (mesg : μ) :
    ChartState σ γ → ChartState σ γ → List μ → Prop where
  | ignored {v} (h : ∀ s ∈ v.active, ∀ a ∈ sc.arrows s, a.guard mesg v.ctx = false) :
      Reacts env mesg v v []
  | internal {below src above back ctx ctx' a} (ha : sc.Takes mesg ctx below src a)
      (ht : a.target = some src) (hctx : a.action env ctx = .ok ctx') :
      Reacts env mesg ⟨below ++ src :: above, back, ctx⟩ ⟨below ++ src :: above, back, ctx'⟩ []
  | final {below src above back ctx ctx' a} (ha : sc.Takes mesg ctx below src a)
      (ht : a.target = none) (hctx : a.action env ctx = .ok ctx') :
      Reacts env mesg ⟨below ++ src :: above, back, ctx⟩ ⟨[], back, ctx'⟩ []
  /-- The states around the source that are not around the target are left, with what is active
  inside them, and those around the target that are not active are entered. -/
  | external {below src above back ctx ctx' ctx'' a tgt left common entered inside posts}
      (ha : sc.Takes mesg ctx below src a) (ht : a.target = some tgt) (hne : tgt ≠ src)
      (hleft : src :: above = left ++ common) (hpath : Path sc.parent tgt (entered ++ common))
      (hapart : ∀ s ∈ left, s ∉ entered ++ common) (hctx : a.action env ctx = .ok ctx')
      (hopens : sc.Opens (sc.remember back (below ++ left)) tgt inside)
      (henter : sc.enter env (inside ++ entered).reverse ctx' = .ok (ctx'', posts)) :
      Reacts env mesg ⟨below ++ src :: above, back, ctx⟩
        ⟨inside ++ entered ++ common, sc.remember back (below ++ left), ctx''⟩ posts

/-- What holds of every message that an entry action posts holds of all that are posted. -/
theorem forall_posts {P : μ → Prop} {env : ε} {ss : List σ} {ctx ctx' : γ} {posts : List μ}
    (hP : ∀ s ∈ ss, ∀ ctx ctx' posts, sc.entry env s ctx = .ok (ctx', posts) → ∀ mesg ∈ posts, P mesg)
    (h : sc.enter env ss ctx = .ok (ctx', posts)) : ∀ mesg ∈ posts, P mesg := by
  induction ss generalizing ctx ctx' posts with
  | nil =>
    cases h
    simp
  | cons s ss ih =>
    rw [enter] at h
    cases hs : sc.entry env s ctx with
    | error f => simp [hs, Bind.bind, Except.bind] at h
    | ok p =>
      cases hrest : sc.enter env ss p.1 with
      | error f => simp [hs, hrest, Bind.bind, Except.bind] at h
      | ok q =>
        simp only [hs, hrest, Bind.bind, Except.bind, Pure.pure, Except.pure] at h
        cases h
        intro mesg hmem
        rcases List.mem_append.mp hmem with hnow | hlater
        · exact hP s List.mem_cons_self ctx p.1 p.2 hs mesg hnow
        · exact ih (fun t ht => hP t (List.mem_cons_of_mem _ ht)) hrest mesg hlater

theorem Reacts.forall_posts [DecidableEq σ] {P : μ → Prop} {env : ε} {mesg : μ}
    {v v' : ChartState σ γ} {posts : List μ} (h : sc.Reacts env mesg v v' posts)
    (hP : ∀ s ctx ctx' posts, sc.entry env s ctx = .ok (ctx', posts) → ∀ mesg ∈ posts, P mesg) :
    ∀ mesg ∈ posts, P mesg := by
  cases h with
  | ignored | internal | final => simp
  | external _ _ _ _ _ _ _ _ henter => exact sc.forall_posts (fun s _ => hP s) henter

/-- A queue of messages is handled, with those that are posted meanwhile. -/
inductive Completes [DecidableEq σ] (env : ε) :
    List μ → ChartState σ γ → ChartState σ γ → Prop where
  | done {v} : Completes env [] v v
  | next {mesg queue posts v v' v''} (h : sc.Reacts env mesg v v' posts)
      (hrest : Completes env (queue ++ posts) v' v'') : Completes env (mesg :: queue) v v''

/-- One event, up to the moment when the chart rests again. -/
def Step [DecidableEq σ] (v : ChartState σ γ) (e : ε × μ) (v' : ChartState σ γ) : Prop :=
  v.active ≠ [] ∧ sc.Completes e.1 [e.2] v v'

/-- The chart after its start. -/
inductive Starts [DecidableEq σ] (env : ε) (ctx : γ) : ChartState σ γ → Prop where
  | start {inside ctx' posts v} (hopens : sc.Opens (fun _ => none) sc.top inside)
      (henter : sc.enter env (inside ++ [sc.top]).reverse ctx = .ok (ctx', posts))
      (hrest : sc.Completes env posts ⟨inside ++ [sc.top], fun _ => none, ctx'⟩ v) :
      Starts env ctx v

end Statechart

end YModem.Lib
