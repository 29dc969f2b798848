import YModem.Peer.Base
import YModem.SmartState.Chart

/-!
# The event loop (`PeerY::transferCommon`)

One turn of the loop waits in `select` for the medium, the console or the timeout, and
posts what has come to the state machine. The guard of the loop asks once a turn whether
the machine is running; a turn in which both descriptors are ready can post two events.
-/

namespace YModem.Peer

open YModem.SmartState YModem.Lib

/-- A context that extends `PeerY`. -/
class PeerContext (γ : Type) where
  peerY : γ → PeerY
  /-- A member function of the base class. -/
  peer : γ → (PeerY → PeerY) → γ

/-- The outcome of `select`, with what the reads deliver from the ready descriptors and
what the system answers while the events are handled. -/
inductive Select (ε : Type) where
  /-- `EINTR`. -/
  | interrupted
  /-- Another error, which exits the process. -/
  | failed
  | timedOut (env : ε)
  /-- What `myReadcond` delivers if the medium is ready, and what the first and the second
  read deliver if the console is; the second read is made after an '&' only. -/
  | ready (medium : Option (Option UInt8)) (console : Option (Option UInt8 × Option UInt8))
      (serEnv kbEnv : ε)

/-- One turn of the loop: the elapsed time at its start and the outcome of `select`. -/
structure Turn (ε : Type) where
  now : Int
  select : Select ε

variable {σ ε γ : Type} [DecidableEq σ] [PeerContext γ]

/-- The keys read are the command "&c". -/
def isCancel (console : Option (Option UInt8 × Option UInt8)) : Bool :=
  decide (console = some (some 38, some 99))

/-- The events that a turn posts, in order. -/
def Turn.events (t : Turn ε) (p : PeerY) : Except Fault (List (ε × Mesg)) :=
  match t.select with
  | .interrupted => .ok []
  | .failed => .error .exited
  | .timedOut env => .ok (if p.absoluteTimeout ≤ t.now then [(env, .tm)] else [])
  | .ready medium console serEnv kbEnv =>
    .ok ((medium.join.map fun byte => (serEnv, Mesg.ser byte)).toList ++
      if isCancel console then [(kbEnv, .kbC)] else [])

/-- `mySM->postEvent(..)`; a KB_C is followed by `KbCan = true`. -/
def post (ch : Chart σ Mesg ε γ) (m : StateMgr σ Mesg γ) (e : ε × Mesg) :
    Except Fault (StateMgr σ Mesg γ) := do
  let m ← ch.postEvent e.1 e.2 m
  return if e.2 = .kbC then
    { m with ctx := PeerContext.peer m.ctx fun p => { p with kbCan := true } }
  else m

/-- The body of the loop. -/
def turn (ch : Chart σ Mesg ε γ) (m : StateMgr σ Mesg γ) (t : Turn ε) :
    Except Fault (StateMgr σ Mesg γ) := do
  let es ← t.events (PeerContext.peerY m.ctx)
  es.foldlM (post ch) m

/-- The loop, as long as there are turns. -/
def transferCommon (ch : Chart σ Mesg ε γ) (m : StateMgr σ Mesg γ) :
    List (Turn ε) → Except Fault (StateMgr σ Mesg γ)
  | [] => .ok m
  | t :: ts =>
    if m.running then do
      let m ← turn ch m t
      transferCommon ch m ts
    else .ok m

/-- A turn that the loop takes. -/
def TurnStep (ch : Chart σ Mesg ε γ) (m : StateMgr σ Mesg γ) (t : Turn ε) (m' : StateMgr σ Mesg γ) :
    Prop :=
  m.running = true ∧ turn ch m t = .ok m'

/-- Every `postEvent` of the turn is called on a running machine. -/
def PostsRunning (ch : Chart σ Mesg ε γ) (m : StateMgr σ Mesg γ) (t : Turn ε) : Prop :=
  ∀ es, t.events (PeerContext.peerY m.ctx) = .ok es → ∀ es₁ e es₂ m', es = es₁ ++ e :: es₂ →
    es₁.foldlM (post ch) m = .ok m' → m'.running = true

/-- What holds of each turn that the loop takes, from the state in which it takes it. -/
def AtEveryTurn (ch : Chart σ Mesg ε γ) (C : StateMgr σ Mesg γ → Turn ε → Prop)
    (m : StateMgr σ Mesg γ) (ts : List (Turn ε)) : Prop :=
  ∀ ts₁ t ts₂ m', ts = ts₁ ++ t :: ts₂ → Run (TurnStep ch) m ts₁ m' → m'.running = true → C m' t

section Rules

variable {ch : Chart σ Mesg ε γ} {m m' : StateMgr σ Mesg γ} {t : Turn ε} {ts : List (Turn ε)}

/-- A turn in which a byte and the command "&c" are read. -/
def Turn.Both (t : Turn ε) (c : UInt8) (serEnv : ε) : Prop :=
  ∃ console kbEnv, t.select = .ready (some (some c)) console serEnv kbEnv ∧ isCancel console = true

theorem Turn.Both.events {c : UInt8} {serEnv : ε} (h : t.Both c serEnv) (p : PeerY) :
    ∃ kbEnv, t.events p = .ok [(serEnv, .ser c), (kbEnv, .kbC)] := by
  obtain ⟨console, kbEnv, hs, hk⟩ := h
  refine ⟨kbEnv, ?_⟩
  unfold Turn.events
  rw [hs]
  simp [hk]

/-- Any other turn posts one event at most. -/
theorem Turn.events_le_one (h : ∀ c serEnv, ¬ t.Both c serEnv) {p : PeerY} {es : List (ε × Mesg)}
    (he : t.events p = .ok es) : es.length ≤ 1 := by
  unfold Turn.events at he
  split at he
  · cases he
    exact Nat.zero_le _
  · cases he
  · cases he
    split_ifs <;> simp
  · rename_i medium console serEnv kbEnv hs
    cases he
    cases hk : isCancel console with
    | false => cases medium.join <;> simp
    | true =>
      rcases medium with - | - | c
      · simp
      · simp
      · exact absurd ⟨console, kbEnv, hs, hk⟩ (h c serEnv)

theorem post_ser {e : ε × Mesg} (h : e.2 ≠ .kbC) : post ch m e = ch.postEvent e.1 e.2 m := by
  unfold post
  cases hp : ch.postEvent e.1 e.2 m with
  | error f => rfl
  | ok m₁ => simp [h]

/-- Only the KB_C of a turn that also reads a byte can find the machine stopped. -/
theorem postsRunning_iff (hr : m.running = true) : PostsRunning ch m t ↔
    ∀ c serEnv, t.Both c serEnv → ∀ m', ch.Step m (serEnv, .ser c) m' → m'.running = true := by
  constructor
  · intro h c serEnv hb m' hstep
    obtain ⟨kbEnv, hes⟩ := hb.events (PeerContext.peerY m.ctx)
    apply h _ hes [(serEnv, .ser c)] (kbEnv, .kbC) [] m' rfl
    rw [List.foldlM_cons, post_ser (by simp), show ch.postEvent serEnv (.ser c) m = .ok m' from hstep]
    rfl
  · intro h es hes es₁ e es₂ m' heq hfold
    cases es₁ with
    | nil =>
      cases hfold
      exact hr
    | cons e₁ es₁ =>
      by_cases hb : ∃ c serEnv, t.Both c serEnv
      · obtain ⟨c, serEnv, hb⟩ := hb
        obtain ⟨kbEnv, hes'⟩ := hb.events (PeerContext.peerY m.ctx)
        cases hes.symm.trans hes'
        obtain ⟨rfl, htail⟩ := List.cons.inj heq
        obtain ⟨rfl, -⟩ : es₁ = [] ∧ es₂ = [] := by
          cases es₁ <;> simp_all
        apply h c serEnv hb
        rw [List.foldlM_cons, post_ser (by simp)] at hfold
        obtain ⟨m₁, hstep, hnil⟩ := bind_inv hfold
        cases hnil
        exact hstep
      · have hlen := t.events_le_one (fun c serEnv hb' => hb ⟨c, serEnv, hb'⟩) hes
        rw [heq] at hlen
        simp at hlen

/-- A call on a stopped machine makes the turn throw. -/
theorem turn_throws (hr : m.running = true) (h : ¬ PostsRunning ch m t) :
    turn ch m t = .error .notRunning := by
  rw [postsRunning_iff hr] at h
  push Not at h
  obtain ⟨c, serEnv, hb, m', hstep, hstop⟩ := h
  obtain ⟨kbEnv, hes⟩ := hb.events (PeerContext.peerY m.ctx)
  have hthrow : post ch m' (kbEnv, .kbC) = .error .notRunning := by
    rw [post, Chart.postEvent, if_neg (by simp [hstop])]
    rfl
  rw [turn, hes, ok_bind, List.foldlM_cons, post_ser (by simp),
    show ch.postEvent serEnv (.ser c) m = .ok m' from hstep, ok_bind, List.foldlM_cons, hthrow]
  rfl

/-- What every event keeps and the assignment to `KbCan` keeps, every turn keeps. -/
theorem TurnStep.invariant {I : StateMgr σ Mesg γ → Prop}
    (hstep : ∀ {m e m'}, I m → ch.Step m e m' → I m')
    (hkb : ∀ {m : StateMgr σ Mesg γ}, I m →
      I { m with ctx := PeerContext.peer m.ctx fun p => { p with kbCan := true } })
    (h : TurnStep ch m t m') (hI : I m) : I m' := by
  have hpost : ∀ {m e m'}, I m → post ch m e = .ok m' → I m' := by
    intro m e m' hI hp
    obtain ⟨m₁, hs, hp⟩ := bind_inv hp
    have hI₁ := hstep hI hs
    by_cases hk : e.2 = .kbC
    · rw [if_pos hk] at hp
      cases hp
      exact hkb hI₁
    · rw [if_neg hk] at hp
      cases hp
      exact hI₁
  obtain ⟨-, hturn⟩ := h
  obtain ⟨es, -, hfold⟩ := bind_inv hturn
  clear hturn
  induction es generalizing m with
  | nil =>
    cases hfold
    exact hI
  | cons e es ih =>
    rw [List.foldlM_cons] at hfold
    obtain ⟨m₁, hp, hfold⟩ := bind_inv hfold
    exact ih (hpost hI hp) hfold

/-- Two conditions that agree on every turn the loop takes. -/
theorem AtEveryTurn.congr {C D : StateMgr σ Mesg γ → Turn ε → Prop}
    (h : ∀ {ts₁ t m'}, Run (TurnStep ch) m ts₁ m' → m'.running = true → (C m' t ↔ D m' t)) :
    AtEveryTurn ch C m ts ↔ AtEveryTurn ch D m ts :=
  ⟨fun hC ts₁ t ts₂ m' heq hrun hr => (h hrun hr).mp (hC ts₁ t ts₂ m' heq hrun hr),
    fun hD ts₁ t ts₂ m' heq hrun hr => (h hrun hr).mpr (hD ts₁ t ts₂ m' heq hrun hr)⟩

/-- The turns of a loop that returns: the machine has stopped, or there were no more. -/
theorem run_of_transferCommon (h : transferCommon ch m ts = .ok m') :
    ∃ ts₁ ts₂, ts = ts₁ ++ ts₂ ∧ Run (TurnStep ch) m ts₁ m' ∧ (m'.running = false ∨ ts₂ = []) := by
  induction ts generalizing m with
  | nil =>
    cases h
    exact ⟨[], [], rfl, .refl, .inr rfl⟩
  | cons t ts ih =>
    rw [transferCommon] at h
    split_ifs at h with hr
    · obtain ⟨m₁, hturn, h⟩ := bind_inv h
      obtain ⟨ts₁, ts₂, rfl, hrun, hend⟩ := ih h
      exact ⟨t :: ts₁, ts₂, rfl, .cons ⟨hr, hturn⟩ hrun, hend⟩
    · cases h
      exact ⟨[], t :: ts, rfl, .refl, .inl (by simpa using hr)⟩

/-- The loop throws when a turn it takes does. -/
theorem transferCommon_throws {f : Fault} {ts₁ ts₂ : List (Turn ε)}
    (h : Run (TurnStep ch) m ts₁ m') (hr : m'.running = true) (ht : turn ch m' t = .error f) :
    transferCommon ch m (ts₁ ++ t :: ts₂) = .error f := by
  induction ts₁ generalizing m with
  | nil =>
    cases h.nil_inv rfl
    rw [List.nil_append, transferCommon, if_pos hr, ht, error_bind]
  | cons t₁ ts₁ ih =>
    obtain ⟨m₁, hstep, h⟩ := h.cons_inv
    rw [List.cons_append, transferCommon, if_pos hstep.1, hstep.2, ok_bind]
    exact ih h

end Rules

end YModem.Peer
