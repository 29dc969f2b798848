import YModem.Receiver.Runtime
import YModem.SmartState.Tagged

/-!
# Run to completion of the receiver chart

A transition may enter a transient state, which posts a continue event to the machine and is
left again when that event is sent. Each event ends with the machine stopped or in one leaf that
is not transient, and every continue event has then been taken by the state that posted it.
-/

namespace YModem.Receiver

open YModem.Lib YModem.Peer YModem.SmartState

/-- The states that post a continue event when they are entered. -/
def RState.transient : RState → Bool
  | .condlTransientStat | .condTransientCheck | .condTransientOpen | .condTransientEOT => true
  | _ => false

/-- What the entry action of a state posts. -/
def RState.posts (s : RState) : List Mesg := if s.transient then [.cont] else []

/-- Where the transitions that a state itself handles lead to. -/
def RState.leads : RState → List RState
  | .topLevel => []
  | .nonCan => [.can]
  | .firstByteStat | .areWeDone => [.condlTransientStat]
  | .dataCancelable => [.condTransientData]
  | .firstByteData => [.eot]
  | .eot => [.condTransientEOT]
  | .condTransientData => [.dataCancelable]
  | .condTransientCheck => [.areWeDone, .condTransientOpen]
  | .condTransientOpen => [.firstByteData]
  | .condTransientEOT => [.firstByteStat]
  | .condlTransientStat => [.firstByteStat, .condTransientCheck]
  | .can => [.nonCan]

section

variable {env : Env} {r r' : ReceiverY} {mesg : Mesg} {caller leaf next root s : RState}
  {effect : ReceiverY → Except Fault ReceiverY} {posts : List Mesg}

theorem onEntry_posts (h : onEntry env s r = .ok (r', posts)) : posts = s.posts := by
  cases s <;> cases h <;> rfl

/-- A handler that leads to one of the states `ss`, if it leads anywhere. -/
def LeadsTo (ss : List RState) (h : Handler) : Prop :=
  ∀ next effect, h = some (.go (some next) effect) → next ∈ ss

theorem leadsTo_none {ss : List RState} : LeadsTo ss none := nofun

theorem leadsTo_stay {ss : List RState} {f : ReceiverY → ReceiverY} : LeadsTo ss (stay f) := nofun

theorem leadsTo_final {ss : List RState} {f : ReceiverY → ReceiverY} : LeadsTo ss (final f) := nofun

theorem leadsTo_go {ss : List RState} (hmem : next ∈ ss) :
    LeadsTo ss (some (.go (some next) effect)) := by
  intro next' effect' h
  cases h
  exact hmem

theorem LeadsTo.ite {ss : List RState} {c : Prop} [Decidable c] {h h' : Handler}
    (hthen : LeadsTo ss h) (helse : LeadsTo ss h') : LeadsTo ss (if c then h else h') := by
  split
  · exact hthen
  · exact helse

theorem onMessage_leadsTo (env : Env) (caller : RState) (mesg : Mesg) (r : ReceiverY) :
    LeadsTo caller.leads (onMessage env caller mesg r) := by
  cases caller <;> cases mesg
  case nonCan.ser => exact leadsTo_stay.ite ((leadsTo_go (by decide)).ite leadsTo_none)
  case nonCan.tm => exact leadsTo_stay.ite leadsTo_none
  case firstByteStat.ser =>
    exact leadsTo_final.ite (leadsTo_stay.ite ((leadsTo_go (by decide)).ite leadsTo_none))
  case dataCancelable.ser => exact (leadsTo_go (by decide)).ite leadsTo_none
  case firstByteData.ser => exact (leadsTo_go (by decide)).ite leadsTo_none
  case eot.ser => exact (leadsTo_go (by decide)).ite leadsTo_none
  case condTransientData.tm =>
    exact (leadsTo_go (by decide)).ite (leadsTo_final.ite leadsTo_none)
  case condTransientCheck.cont => exact (leadsTo_go (by decide)).ite (leadsTo_go (by decide))
  case condTransientOpen.cont => exact (leadsTo_go (by decide)).ite leadsTo_final
  case condTransientEOT.cont => exact (leadsTo_go (by decide)).ite leadsTo_final
  case condlTransientStat.cont =>
    exact (leadsTo_go (by decide)).ite
      ((leadsTo_go (by decide)).ite (leadsTo_final.ite leadsTo_none))
  case areWeDone.ser => exact (leadsTo_go (by decide)).ite leadsTo_none
  case can.ser => exact (leadsTo_go (by decide)).ite (leadsTo_final.ite leadsTo_none)
  case can.tm => exact (leadsTo_go (by decide)).ite leadsTo_none
  all_goals exact nofun

/-- **The guards of a transient state are exhaustive.** -/
theorem cont_handled (env : Env) (r : ReceiverY) (hs : s.transient = true) :
    ∃ next effect, onMessage env s .cont r = some (.go next effect) := by
  cases s with
  | condTransientCheck =>
    by_cases h : r.anotherFile = 0
    · exact ⟨_, _, if_pos h⟩
    · exact ⟨_, _, if_neg h⟩
  | condTransientOpen =>
    by_cases h : r.transferringFileD ≠ -1
    · exact ⟨_, _, if_pos h⟩
    · exact ⟨_, _, if_neg h⟩
  | condTransientEOT =>
    by_cases h : r.closeProb = 0
    · exact ⟨_, _, if_pos h⟩
    · exact ⟨_, _, if_neg h⟩
  | condlTransientStat =>
    change ∃ next effect, condlTransientStatCONT env r = some (.go next effect)
    unfold condlTransientStatCONT
    by_cases hgaveUp : (r.syncLoss || decide (r.errCnt ≥ errB)) = true
    · split_ifs
      all_goals exact ⟨_, _, rfl⟩
    · have hok : (!r.syncLoss && decide (r.errCnt < errB)) = true := by
        simpa [Nat.not_le] using hgaveUp
      rw [hok]
      cases r.goodBlk with
      | false => exact ⟨_, _, if_pos rfl⟩
      | true => exact ⟨_, _, (if_neg (by decide)).trans (if_pos rfl)⟩
  | _ => cases hs

/-! ## What a transition enters -/

/-- The leaf that a transition enters, and what the way to it posts. -/
structure Enters (history : RState → Option RState) (next root s : RState) : Prop where
  leaf : s.subStates = []
  active : yReceiverSS.getInitialStates history next = [s]
  posted : Chart.postedBy RState.posts (yReceiverSS.constructTree history root next) =
    s.posts.map (·, some s)

/-- The history of `NON_CAN` decides which leaf that is only on the way back from `CAN`. -/
theorem enters {history : RState → Option RState} (hnext : next ∈ caller.leads)
    (hroot : yReceiverSS.getRoot caller next = some root)
    (hist : next.subStates = [] ∨ ∃ back, Remembers back ∧ history = histOf back) :
    caller ≠ root ∧ ∃ s, Enters history next root s := by
  cases caller <;> simp only [RState.leads, List.not_mem_nil, List.mem_cons, or_false] at hnext
  case condTransientData =>
    subst hnext
    cases hroot
    obtain hleaf | ⟨back, -, rfl⟩ := hist
    · cases hleaf
    · exact ⟨by decide, .firstByteData, rfl, rfl, rfl⟩
  case can =>
    subst hnext
    cases hroot
    obtain hleaf | ⟨back, hback, rfl⟩ := hist
    · cases hleaf
    · rcases hback with rfl | rfl | rfl
      · exact ⟨by decide, .firstByteStat, rfl, rfl, rfl⟩
      · exact ⟨by decide, .firstByteStat, rfl, rfl, rfl⟩
      · exact ⟨by decide, .areWeDone, rfl, rfl, rfl⟩
  -- the other transitions lead to a leaf
  case condTransientCheck | condlTransientStat =>
    rcases hnext with rfl | rfl
    all_goals
      cases hroot
      exact ⟨by decide, _, rfl, rfl, rfl⟩
  all_goals
    subst hnext
    cases hroot
    exact ⟨by decide, _, rfl, rfl, rfl⟩

/-- Two states lead to a super-state, all others to leaves. -/
theorem leads_cases (hnext : next ∈ caller.leads) :
    next.subStates = [] ∨ caller = .condTransientData ∨ caller = .can := by
  revert hnext
  cases caller <;> cases next <;> decide

theorem leaf_of_transient (hs : s.transient = true) (hnext : next ∈ s.leads) :
    next.subStates = [] := by
  obtain hleaf | rfl | rfl := leads_cases hnext
  · exact hleaf
  · cases hs
  · cases hs

/-- A handler that leads to a super-state is one of the active leaf. -/
theorem leaf_or_self (hcaller : caller ∈ yReceiverSS.ancestors leaf) (hnext : next ∈ caller.leads) :
    next.subStates = [] ∨ leaf = caller := by
  obtain hleaf | hsuper := leads_cases hnext
  · exact .inl hleaf
  · right
    rcases hsuper with rfl | rfl
    all_goals
      revert hcaller
      cases leaf <;> decide

end

/-! ## The chain of continue events -/

/-- The receiver with tagged messages. -/
abbrev TaggedMachine := StateMgr RState (Mesg × Option RState) (Ledger RState ReceiverY)

/-- The continue events of the states `done`. -/
def conts (done : List RState) : List (Mesg × Option RState) := done.map fun s => (.cont, some s)

/-- Each of the states `done` takes its own message. -/
def selfTaken (done : List RState) : List (Option RState × RState) := done.map fun s => (some s, s)

/-- Stopped, or in one leaf that is not transient. -/
def Quiet {μ γ : Type} (m : StateMgr RState μ γ) : Prop :=
  m.running = false ∧ m.active = [] ∨
    m.running = true ∧ ∃ leaf, m.active = [leaf] ∧ leaf.subStates = [] ∧ leaf.transient = false

/-- The continue events of the states `done` have been taken, and no other is queued. -/
structure Over (first : List (Option RState × RState)) (done : List RState)
    (t : TaggedMachine) : Prop where
  quiet : Quiet t
  posted : t.posted = conts done
  taken : t.ctx.taken = first ++ selfTaken done

/-- One more is queued, that of the active leaf `s`. -/
structure Pending (first : List (Option RState × RState)) (done : List RState) (s : RState)
    (t : TaggedMachine) : Prop where
  active : t.active = [s]
  running : t.running = true
  transient : s.transient = true
  posted : t.posted = conts (done ++ [s])
  taken : t.ctx.taken = first ++ selfTaken done

section

variable {env : Env} {mesg : Mesg} {caller leaf s : RState} {next poster : Option RState}
  {effect : ReceiverY → Except Fault ReceiverY} {first : List (Option RState × RState)}
  {done : List RState} {t t' : TaggedMachine}

theorem entered (hs : s.subStates = []) (hactive : t.active = [s]) (hrunning : t.running = true)
    (hposted : t.posted = conts done ++ s.posts.map (·, some s))
    (htaken : t.ctx.taken = first ++ selfTaken done) : Over first done t ∨ Pending first done s t := by
  cases htr : s.transient with
  | false =>
    simp only [RState.posts, htr, Bool.false_eq_true, if_false, List.map_nil,
      List.append_nil] at hposted
    exact .inl ⟨.inr ⟨hrunning, s, hactive, hs, htr⟩, hposted, htaken⟩
  | true =>
    simp only [RState.posts, htr, if_true] at hposted
    refine .inr ⟨hactive, hrunning, htr, ?_, htaken⟩
    rw [hposted, conts, conts, List.map_append]
    rfl

/-- **A transition stops the machine, or enters a leaf that may have posted.** -/
theorem go_takes (hactive : t.active = [leaf]) (hrunning : t.running = true)
    (hcaller : caller ∈ yReceiverSS.ancestors leaf) (hleads : ∀ s, next = some s → s ∈ caller.leads)
    (hist : (∀ s ∈ caller.leads, s.subStates = []) ∨ ∃ back, Remembers back ∧ t.history = histOf back)
    (hposted : t.posted = conts done)
    (htaken : t.ctx.taken ++ [(poster, caller)] = first ++ selfTaken done)
    (h : yReceiverSS.tagged.react env caller t (.go next (recorded poster caller effect)) = .ok t') :
    Over first done t' ∨ ∃ s, Pending first done s t' := by
  cases next with
  | none =>
    obtain ⟨hactive', hrunning', hposted', htaken'⟩ := Chart.react_final h
    exact .inl ⟨.inl ⟨hrunning', hactive'⟩, hposted'.trans hposted, htaken'.trans htaken⟩
  | some next =>
    obtain ⟨root, hroot, hactive', hrunning', hposted', htaken'⟩ :=
      Chart.react_go onEntry_posts h
    have hnext : next ∈ caller.leads := hleads next rfl
    have hist' : next.subStates = [] ∨ ∃ back, Remembers back ∧
        (yReceiverSS.removeActiveStates caller root t.untag).history = histOf back := by
      obtain hleaf | rfl := leaf_or_self hcaller hnext
      · exact .inl hleaf
      · obtain hleaf | ⟨back, hback, hhist⟩ := hist
        · exact .inl (hleaf next hnext)
        · rw [Chart.removeActiveStates_self (m := t.untag) hactive]
          exact .inr ⟨back, hback, hhist⟩
    obtain ⟨hne, s, henters⟩ := enters hnext hroot hist'
    have hleft := Chart.removeActiveStates_active (m := t.untag) hactive hcaller hne
    rw [hleft, henters.active] at hactive'
    rw [hposted, henters.posted] at hposted'
    obtain hover | hpending := entered henters.leaf hactive' (hrunning'.trans hrunning) hposted'
      (htaken'.trans htaken)
    · exact .inl hover
    · exact .inr ⟨s, hpending⟩

/-- The queued continue event is taken by the state that posted it. -/
theorem Pending.step (hp : Pending first done s t)
    (h : yReceiverSS.tagged.fireMessage env (.cont, some s) t = .ok t') :
    Over first (done ++ [s]) t' ∨ ∃ s', Pending first (done ++ [s]) s' t' := by
  obtain ⟨next, effect, hcont⟩ := cont_handled env t.ctx.ctx hp.transient
  obtain ⟨above, habove⟩ := Chart.ancestors_eq_cons yReceiverSS.tagged s
  have hsome : yReceiverSS.tagged.onMessage env s (.cont, some s) t.ctx =
      some (.go next (recorded (some s) s effect)) := congrArg (Option.map _) hcont
  rw [Chart.fireMessage_leaf hp.active, Chart.onMessageOf_eq [] habove (by simp) hsome] at h
  refine go_takes hp.active hp.running ?_ ?_ (.inl fun s' => leaf_of_transient hp.transient)
    hp.posted ?_ h
  · change s ∈ yReceiverSS.tagged.ancestors s
    rw [habove]
    exact List.mem_cons_self
  · rintro s' rfl
    exact onMessage_leadsTo env s .cont t.ctx.ctx s' effect hcont
  · rw [hp.taken, selfTaken, selfTaken, List.map_append, List.append_assoc]
    rfl

/-- **The chain ends with nothing queued.** -/
theorem sendPostedMessages_over {n : Nat} (ht : Over first done t ∨ ∃ s, Pending first done s t)
    (h : yReceiverSS.tagged.sendPostedMessages env n done.length t = .ok t') :
    ∃ done', Over first done' t' := by
  induction n generalizing done t with
  | zero =>
    obtain hover | ⟨s, hp⟩ := ht
    · rw [Chart.sendPostedMessages_nil (by simp [hover.posted, conts])] at h
      cases h
      exact ⟨done, hover⟩
    · simp [Chart.sendPostedMessages, hp.posted, conts] at h
  | succ n ih =>
    obtain hover | ⟨s, hp⟩ := ht
    · rw [Chart.sendPostedMessages_nil (by simp [hover.posted, conts])] at h
      cases h
      exact ⟨done, hover⟩
    · have hget : t.posted[done.length]? = some (.cont, some s) := by simp [hp.posted, conts]
      rw [Chart.sendPostedMessages] at h
      simp only [hget] at h
      obtain ⟨t₁, hfire, h⟩ := bind_inv h
      have hlen : (done ++ [s]).length = done.length + 1 := by simp
      exact ih (hp.step hfire) (hlen ▸ h)

/-! ## One event -/

/-- What an event from outside does to a leaf in which an event can end. -/
theorem event_takes (hactive : t.active = [leaf]) (hrunning : t.running = true)
    (hrests : leaf.rests = true) (hist : ∃ back, Remembers back ∧ t.history = histOf back)
    (hposted : t.posted = []) (htaken : t.ctx.taken = [])
    (h : yReceiverSS.tagged.fireMessage env (mesg, none) t = .ok t') :
    ∃ first, (first = [] ∨ ∃ caller, first = [(none, caller)]) ∧
      (Over first [] t' ∨ ∃ s, Pending first [] s t') := by
  have hleaf : leaf.subStates = [] ∧ leaf.transient = false := by
    revert hrests
    cases leaf <;> decide
  rw [Chart.fireMessage_leaf hactive] at h
  obtain rfl | ⟨caller, hcaller, reaction, hsome, hreact⟩ := Chart.onMessageOf_tagged h
  · exact ⟨[], .inl rfl, .inl ⟨.inr ⟨hrunning, leaf, hactive, hleaf⟩, hposted, htaken⟩⟩
  · refine ⟨[(none, caller)], .inr ⟨caller, rfl⟩, ?_⟩
    have hfirst : t.ctx.taken ++ [(none, caller)] = [(none, caller)] ++ selfTaken [] := by
      rw [htaken]
      rfl
    cases reaction with
    | stay effect =>
      obtain ⟨hactive', hrunning', hposted', htaken'⟩ := Chart.react_stay hreact
      exact .inl ⟨.inr ⟨hrunning'.trans hrunning, leaf, hactive'.trans hactive, hleaf⟩,
        hposted'.trans hposted, htaken'.trans hfirst⟩
    | go next effect =>
      refine go_takes hactive hrunning hcaller ?_ (.inr hist) hposted hfirst hreact
      rintro s rfl
      exact onMessage_leadsTo env caller mesg t.ctx.ctx s effect hsome

/-- A receiver that has taken an event has also taken every continue event the event caused. -/
theorem postEvent_over {m : Machine} (hm : Settled m) (hr : m.running = true)
    (h : yReceiverSS.tagged.postEvent env (mesg, none) m.tag = .ok t) :
    ∃ first done, (first = [] ∨ ∃ caller, first = [(none, caller)]) ∧ Over first done t := by
  obtain ⟨leaf, hactive⟩ := hm.active_of_running hr
  have hrests : leaf.rests = true := hm.wellFormed.rests leaf (by rw [config_of_active hactive]; rfl)
  have hist : m.history = histOf (configOf m).back := by
    conv_lhs => rw [hm.shape]
    rfl
  unfold Chart.postEvent at h
  rw [if_pos (show m.tag.running = true from hr)] at h
  obtain ⟨t₁, hfire, hsend⟩ := bind_inv h
  obtain ⟨first, hfirst, ht⟩ := event_takes hactive hr hrests ⟨_, hm.wellFormed.remembers, hist⟩
    rfl rfl hfire
  obtain ⟨done, hover⟩ := sendPostedMessages_over ht hsend
  exact ⟨first, done, hfirst, hover⟩

/-- **Run to completion.** An event ends with the machine stopped or in one leaf that is not
transient, and each continue event posted on the way has been taken by the state that
posted it. -/
theorem postEvent_runs_to_completion {m : Machine} (hm : Reachable m) (hr : m.running = true)
    (hopen : ¬ Faults env mesg (configOf m)) :
    ∃ m', yReceiverSS.postEvent env mesg m = .ok m' ∧ Quiet m' ∧
      ∃ t first done, yReceiverSS.tagged.postEvent env (mesg, none) m.tag = .ok t ∧
        t.untag = m' ∧ t.posted = conts done ∧ t.ctx.taken = first ++ selfTaken done ∧
        (first = [] ∨ ∃ caller, first = [(none, caller)]) := by
  have hs := hm.settled
  obtain ⟨leaf, hactive⟩ := hs.active_of_running hr
  have hrests : leaf.rests = true := hs.wellFormed.rests leaf (by rw [config_of_active hactive]; rfl)
  rw [config_of_active hactive] at hopen
  have htrans := (Trans.total env mesg (m.history .nonCan) m.ctx hrests).resolve_right hopen
  rw [← config_of_active hactive] at htrans
  obtain ⟨v, hv⟩ := htrans
  obtain ⟨m', hstep, -⟩ := hv.step hs
  obtain ⟨t, ht, rfl⟩ := Chart.postEvent_tagged none hstep
  obtain ⟨first, done, hfirst, hover⟩ := postEvent_over hs hr ht
  exact ⟨t.untag, hstep, hover.quiet, t, first, done, ht, rfl, hover.posted, hover.taken, hfirst⟩

end

set_option maxRecDepth 8000 in
/-- A good stat block causes three continue events. -/
theorem postEvent_runs_to_completion_statBlk : ∃ env m m', Reachable m ∧
    yReceiverSS.postEvent env (.ser SOH) m = .ok m' ∧ m'.posted.length = 3 ∧ Quiet m' := by
  have hstarts : (yReceiverSS.session (.calm []) (.init .blank) []).toOption.any
      (fun m => m.running) = true := by
    decide +kernel
  have hopens : (yReceiverSS.session (.calm []) (.init .blank)
      ([] ++ [(.calm (restOf 0 (statChunk [97] [53])), .ser SOH)])).toOption.any
      (fun m => decide (m.posted.length = 3)) = true := by
    decide +kernel
  obtain ⟨m₀, m, m', hstart, hr, hrunning, hnext, hposted⟩ := Chart.run_of_sessions hstarts hopens
  obtain ⟨_, hs, hnil⟩ := hnext.cons_inv
  cases hnil.nil_inv rfl
  have hm : Reachable m := ⟨m₀, _, ⟨_, _, hstart⟩, hr⟩
  have hopen : ¬ Faults (.calm (restOf 0 (statChunk [97] [53]))) (.ser SOH) (configOf m) := by
    intro hfaults
    obtain ⟨f, hf⟩ := hfaults.postEvent m.posted
    rw [← hm.settled.shape] at hf
    rw [Chart.Step, hf] at hs
    cases hs
  obtain ⟨_, hok, hquiet, -⟩ := postEvent_runs_to_completion hm hrunning hopen
  cases hok.symm.trans hs
  exact ⟨_, m, m', hm, hs, of_decide_eq_true hposted, hquiet⟩

end YModem.Receiver
