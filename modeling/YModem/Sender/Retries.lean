import YModem.Sender.Trace

/-!
# How often a block is sent again

`ACKNAK` compares `errCnt` with `errB` before it resends a data block. `ACKNAKSTAT` and
`ONE` resend the stat block without that comparison: exactly the runs in which they never
do so with `errCnt` at the bound keep to it.
-/

namespace YModem.Sender

open YModem.Lib YModem.Peer YModem.SmartState

/-- One call: a new block starts the count, the same block again is counted. -/
def countResent (n : Nat) : Call → Nat
  | .sendBlk true _ => 0
  | .sendBlk false _ => n + 1
  | _ => n

/-- How often the block that `sendBlkPrepNext` has sent last has been sent again. -/
def resent (calls : List Call) : Nat := calls.foldl countResent 0

@[simp] theorem resent_concat (calls : List Call) (call : Call) :
    resent (calls ++ [call]) = countResent (resent calls) call := by
  simp [resent]

/-- Only calls that transmit count. -/
theorem resent_transmissions (calls : List Call) : resent (transmissions calls) = resent calls := by
  induction calls using List.reverseRecOn with
  | nil => rfl
  | append_singleton calls call ih =>
    rw [transmissions_append]
    by_cases h : transmits call = true
    · rw [show transmissions [call] = [call] from List.filter_cons_of_pos h, resent_concat, ih,
        resent_concat]
    · rw [show transmissions [call] = [] from List.filter_cons_of_neg h, List.append_nil, ih,
        resent_concat]
      cases call <;> first | rfl | exact absurd rfl h

theorem resent_congr {calls calls' : List Call} (h : transmissions calls' = transmissions calls) :
    resent calls' = resent calls := by
  rw [← resent_transmissions, h, resent_transmissions]

/-- The leaves in which the answer to a block is awaited. -/
def SState.answers : SState → Bool
  | .acknakstat | .one | .acknak => true
  | _ => false

/-- The event makes a leaf resend the stat block, whatever `errCnt` is. -/
def ResendsStat (v : Config) (mesg : Mesg) : Prop :=
  v.ctx.kbCan = false ∧
    ((v.leaf = some .acknakstat ∧ (mesg = .ser NAK ∨ mesg = .ser NCG)) ∨
      (v.leaf = some .one ∧ mesg = .ser NAK))

/-- While the answer to a block is awaited, `errCnt` counts how often it was resent. -/
def Counted (v : Config) : Prop :=
  ∀ st ∈ v.phase, st.answers = true → v.ctx.errCnt = resent v.ctx.calls % UINT_RANGE

/-- What a transition does to the count: a new block, the same block again, or neither. -/
inductive Recount (mesg : Mesg) (v v' : Config) : Prop where
  | fresh (hr : resent v'.ctx.calls = 0) (he : v'.ctx.errCnt = 0)
  | again (hr : resent v'.ctx.calls = resent v.ctx.calls + 1)
      (he : v'.ctx.errCnt = (v.ctx.errCnt + 1) % UINT_RANGE)
      (hwait : ∃ st ∈ v.phase, st.answers = true)
      (hwhy : ResendsStat v mesg ∨ v.ctx.errCnt < errB)
  | same (hr : resent v'.ctx.calls = resent v.ctx.calls)
      (hsame : ∀ st ∈ v'.phase, st.answers = true →
        v'.ctx.errCnt = v.ctx.errCnt ∧ ∃ st ∈ v.phase, st.answers = true)

section Transitions

variable {env : Env} {mesg : Mesg} {v v' : Config} {s s' : SenderY}

private theorem recount_stopped {back : Option SState}
    (hr : resent s'.calls = resent v.ctx.calls) : Recount mesg v ⟨none, back, s'⟩ :=
  .same hr (by simp [Config.phase])

private theorem recount_framed {leaf : Option SState} {back : Option SState}
    (hphase : (Config.mk leaf back s').phase = v.phase) (he : s'.errCnt = v.ctx.errCnt)
    (hr : resent s'.calls = resent v.ctx.calls) : Recount mesg v ⟨leaf, back, s'⟩ := by
  refine .same hr fun st hst hans => ⟨he, st, ?_, hans⟩
  rwa [hphase] at hst

private theorem phase_some {leaf : SState} {back : Option SState} (h : leaf ≠ .can) :
    (Config.mk (some leaf) back s).phase = some leaf := by
  rw [Config.phase, if_neg (by simpa using h)]

private theorem recount_left {leaf : SState} {back : Option SState} (hl : leaf ≠ .can)
    (hans : leaf.answers = false) (hr : resent s'.calls = resent v.ctx.calls) :
    Recount mesg v ⟨some leaf, back, s'⟩ := by
  refine .same hr fun st hst hst' => ?_
  rw [phase_some hl] at hst
  cases hst
  rw [hans] at hst'
  cases hst'

private theorem recount_again {leaf next : SState} {back : Option SState}
    (hl : leaf ≠ .can) (hans : leaf.answers = true)
    (hwhy : ResendsStat ⟨some leaf, back, s⟩ mesg ∨ s.errCnt < errB) :
    Recount mesg ⟨some leaf, back, s⟩
      ⟨some next, back, wait env (s.resendBlk.peer (·.incErrCnt))⟩ :=
  .again (resent_concat _ _) rfl ⟨leaf, by rw [phase_some hl]; rfl, hans⟩ hwhy

private theorem resent_sent (hs : s.sendBlkPrepNext = .ok s') : resent s'.calls = 0 := by
  rw [nextSent_calls (SenderY.nextSent hs), resent_concat]
  rfl

private theorem resent_prepared (hs : s.prepStatBlk env = .ok s') : resent s'.calls = resent s.calls :=
  resent_congr (statPrepared_transmissions (SenderY.statPrepared hs))

private theorem resent_closed (hs : s.closeTransferredFile env = .ok s') :
    resent s'.calls = resent s.calls := resent_congr (close_transmissions hs)

private theorem resent_cancel {text : String} (hs : cancel env text s = .ok s') :
    resent s'.calls = resent s.calls := resent_congr (cancel_transmissions hs)

theorem Trans.recount (h : Trans env mesg v v') (hw : v.WellFormed) : Recount mesg v v' := by
  cases h with
  | ignored => exact recount_framed rfl rfl rfl
  | kbCancel hl _ _ => exact recount_framed rfl rfl rfl
  | kbCancelCan => exact recount_framed rfl rfl rfl
  | kbCancelOpenErr hfd => exact recount_stopped (resent_congr (by simp [transmissions, transmits]))
  | kbCancelStatC _ hs =>
    refine recount_stopped (resent_congr ?_)
    simpa [transmissions, transmits] using close_transmissions hs
  | openError hf hfd => exact recount_stopped (resent_congr (by simp [transmissions, transmits]))
  | statSent hfd hs =>
    have hr := resent_sent hs
    exact .fresh hr rfl
  | statAcked hf hk =>
    refine .same rfl fun st hst hans => ⟨rfl, .acknakstat, ?_, rfl⟩
    rw [phase_some (by decide)]
    rfl
  | statResent hc hk =>
    refine recount_again (by decide) rfl (.inl ⟨hk, .inl ⟨rfl, ?_⟩⟩)
    rcases hc with rfl | rfl
    · exact .inl rfl
    · exact .inr rfl
  | endOfSession hf => exact recount_stopped (resent_congr (by simp [transmissions, transmits]))
  | noBlk hb hk hs =>
    exact recount_left (by decide) rfl ((resent_closed hs).trans (resent_concat _ _))
  | firstBlkSent hb hk hs =>
    have hr := resent_sent hs
    exact .fresh hr rfl
  | statNaked hk => exact recount_again (by decide) rfl (.inl ⟨hk, .inr ⟨rfl, rfl⟩⟩)
  | blkResent hc he hk => exact recount_again (by decide) rfl (.inr he)
  | lastBlkAcked hb hk hs =>
    exact recount_left (by decide) rfl ((resent_closed hs).trans (resent_concat _ _))
  | blkAcked hb hk hs =>
    have hr := resent_sent hs
    exact .fresh hr rfl
  | eotResent hf he => exact recount_left (by decide) rfl (resent_concat _ _)
  | eotAcked hk hs =>
    have hr := resent_prepared hs
    exact recount_left (by decide) rfl hr
  | eotNaked hk => exact recount_left (by decide) rfl (resent_concat _ _)
  | secondEotResent hk he => exact recount_left (by decide) rfl (resent_concat _ _)
  | fileDone hk hs =>
    have hr := resent_prepared hs
    exact recount_left (by decide) rfl (hr.trans (resent_concat _ _))
  | excessiveNAKs hl hnone he hs => exact recount_stopped (resent_cancel hs)
  | @interrupted leaf back s hl =>
    refine recount_framed ?_ rfl rfl
    cases leaf <;> cases hl <;> rfl
  | kbCancelled hc hk hnone hs => exact recount_stopped (resent_cancel hs)
  | timedOut hk hs => exact recount_stopped (resent_cancel hs)
  | @resumedSER c leaf s _ _ =>
    refine recount_framed ?_ rfl rfl
    have hl := hw.remembers leaf rfl
    cases leaf <;> cases hl <;> rfl
  | @resumedTM leaf s _ =>
    refine recount_framed ?_ rfl rfl
    have hl := hw.remembers leaf rfl
    cases leaf <;> cases hl <;> rfl
  | rcvCancelled hs =>
    refine recount_stopped (resent_congr ?_)
    simpa [transmissions, transmits] using close_transmissions hs

theorem Recount.counted (h : Recount mesg v v') (hc : Counted v) : Counted v' := by
  intro st hst hans
  cases h with
  | fresh hr he => rw [he, hr]; rfl
  | again hr he hwait hwhy =>
    obtain ⟨st₀, hst₀, hans₀⟩ := hwait
    rw [he, hr, hc st₀ hst₀ hans₀, Nat.mod_add_mod]
  | same hr hsame =>
    obtain ⟨he, st₀, hst₀, hans₀⟩ := hsame st hst hans
    rw [he, hr, hc st₀ hst₀ hans₀]

private theorem ResendsStat.taken {leaf : SState} {back : Option SState}
    (hr : ResendsStat ⟨some leaf, back, s⟩ mesg) : onMessage env leaf mesg s ≠ none := by
  obtain ⟨hk, ⟨hl, hm⟩ | ⟨hl, rfl⟩⟩ := hr
  · cases hl
    have htaken (c : UInt8) (hc : c = NAK ∨ c = NCG) : acknakstatSER env c s ≠ none := by
      have hack : c ≠ ACK := by rcases hc with rfl | rfl <;> decide
      rw [acknakstatSER, if_neg fun h => hack h.1, if_pos ⟨hc, hk⟩]
      exact Option.some_ne_none _
    rcases hm with rfl | rfl
    · exact htaken NAK (.inl rfl)
    · exact htaken NCG (.inr rfl)
  · cases hl
    show oneSER env NAK s ≠ none
    rw [oneSER, if_neg fun h => absurd h.1 (by decide), if_neg fun h => absurd h.1 (by decide),
      if_pos ⟨rfl, hk⟩]
    exact Option.some_ne_none _

/-- Nothing but the stat block is sent on such an event. -/
theorem Trans.resends_stat (h : Trans env mesg v v') (hr : ResendsStat v mesg) :
    resent v'.ctx.calls = resent v.ctx.calls + 1 := by
  have hwhy := hr.2
  cases h with
  | statResent | statNaked => exact resent_concat _ _
  | @ignored _ leaf _ _ hnone => exact absurd (hnone leaf leaf.mem_ancestors) hr.taken
  | excessiveNAKs hl hnone he hs => exact absurd hnone hr.taken
  | kbCancelled hc hk hnone hs => exact absurd hnone hr.taken
  | _ => simp [ACK, NAK, NCG, CAN] at hwhy

private theorem cancel_calls {text : String} (hs : cancel env text s = .ok s') :
    s.calls ++ [.cans] <+: s'.calls := by
  obtain ⟨t, ht, hs⟩ := bind_inv hs
  cases hs
  rcases SenderY.closeTransferredFile_spec.mp ht with ⟨-, rfl⟩ | ⟨-, -, rfl⟩
  · exact List.prefix_append _ _
  · exact (List.prefix_append _ _).trans (List.prefix_append _ _)

/-- A NAK that the leaf does not answer with the block ends the session. -/
theorem Trans.nak_ends {leaf : SState} (h : Trans env mesg v v') (hm : mesg = .ser NAK)
    (hl : v.leaf = some leaf) (hans : leaf.answers = true) (he : errB ≤ v.ctx.errCnt)
    (hr : ¬ ResendsStat v mesg) : v'.leaf = none ∧ v.ctx.calls ++ [.cans] <+: v'.ctx.calls := by
  cases h with
  | excessiveNAKs _ _ _ hs => exact ⟨rfl, cancel_calls hs⟩
  | kbCancelled _ _ _ hs => exact ⟨rfl, cancel_calls hs⟩
  | @ignored _ leaf _ s hnone =>
    cases hl
    subst hm
    have hsends : leaf.sends = true := by
      cases leaf <;> cases hans <;> rfl
    have htaken : nonCanSER env NAK s = none := hnone .nonCan (SState.nonCan_mem_ancestors hsends)
    rw [nonCanSER, if_pos ⟨rfl, he⟩] at htaken
    cases htaken
  | statResent hc hk => exact absurd ⟨hk, .inl ⟨rfl, .inl hm⟩⟩ hr
  | statNaked hk => exact absurd ⟨hk, .inr ⟨rfl, rfl⟩⟩ hr
  | blkResent _ hlt _ => exact absurd hlt (Nat.not_lt.mpr he)
  | _ =>
    first
    | (cases hl; cases hans; done)
    | simp [ACK, NAK, NCG, CAN] at hm

end Transitions

/-! ## Whole runs -/

/-- A step after which the block outstanding has been resent at most `errB` times; a NAK
for a block that has been resent `errB` times ends the session with CANs. A NAK in `CAN` is
not an answer to the block: it ends the wait for a second CAN. -/
def KeepsBound (m : Machine) (e : Env × Mesg) (m' : Machine) : Prop :=
  resent m'.ctx.calls ≤ errB ∧
    (e.2 = .ser NAK → errB ≤ resent m.ctx.calls → (∃ leaf, m.active = [leaf] ∧ leaf.answers = true) →
      m'.running = false ∧ m.ctx.calls ++ [.cans] <+: m'.ctx.calls)

/-- The stat block is not resent with `errCnt` at the bound. -/
def ChecksStat (m : Machine) (e : Env × Mesg) (_ : Machine) : Prop :=
  ResendsStat (configOf m) e.2 → m.ctx.errCnt < errB

/-- A machine whose `errCnt` counts the resends. -/
private def CountedMachine (m : Machine) : Prop := Settled m ∧ Counted (configOf m)

private theorem CountedMachine.step {m m' : Machine} {e : Env × Mesg} (hm : CountedMachine m)
    (h : ySenderSS.Step m e m') : CountedMachine m' := by
  obtain ⟨hs, htr⟩ := step_trans hm.1 h
  exact ⟨hs, (htr.recount hm.1.wellFormed).counted hm.2⟩

private theorem Started.counted {files : List File} {m : Machine} (h : Started files m) :
    CountedMachine m ∧ resent m.ctx.calls = 0 := by
  obtain ⟨env, blkBufs, hstart⟩ := h
  obtain ⟨hs, s, hprep, hc⟩ := start_inv hstart
  refine ⟨⟨hs, ?_⟩, ?_⟩
  · rw [hc]
    intro st hst hans
    cases hst
    cases hans
  · have hctx : m.ctx = startedCtx env s := congrArg Config.ctx hc
    have hr : resent s.calls = 0 := resent_prepared hprep
    rw [hctx]
    exact hr

/-- Below the bound `errCnt` has not wrapped. -/
private theorem errCnt_eq {v : Config} {st : SState} (hc : Counted v) (hst : st ∈ v.phase)
    (hans : st.answers = true) (hle : resent v.ctx.calls ≤ errB) :
    v.ctx.errCnt = resent v.ctx.calls := by
  rw [hc st hst hans]
  refine Nat.mod_eq_of_lt (lt_of_le_of_lt hle ?_)
  decide

private theorem ResendsStat.waits {v : Config} {mesg : Mesg} (h : ResendsStat v mesg) :
    ∃ st ∈ v.phase, st.answers = true := by
  obtain ⟨-, ⟨hl, -⟩ | ⟨hl, -⟩⟩ := h
  · exact ⟨.acknakstat, by simp [Config.phase, hl], rfl⟩
  · exact ⟨.one, by simp [Config.phase, hl], rfl⟩

private theorem step_keepsBound {m m' : Machine} {e : Env × Mesg} (hm : CountedMachine m)
    (hle : resent m.ctx.calls ≤ errB) (hc : ChecksStat m e m') (h : ySenderSS.Step m e m') :
    KeepsBound m e m' := by
  obtain ⟨hs, htr⟩ := step_trans hm.1 h
  constructor
  · cases htr.recount hm.1.wellFormed with
    | fresh hr _ => exact le_of_eq_of_le hr (Nat.zero_le _)
    | again hr _ hwait hwhy =>
      obtain ⟨st, hst, hans⟩ := hwait
      have herr : m.ctx.errCnt = resent m.ctx.calls := errCnt_eq hm.2 hst hans hle
      have hlt : m.ctx.errCnt < errB := hwhy.elim hc id
      have hr : resent m'.ctx.calls = resent m.ctx.calls + 1 := hr
      omega
    | same hr _ => exact le_of_eq_of_le hr hle
  · rintro hnak hge ⟨leaf, hl, hans⟩
    have hleaf : (configOf m).leaf = some leaf := by rw [configOf, hl]; rfl
    have hne : leaf ≠ .can := by
      rintro rfl
      cases hans
    have hst : leaf ∈ (configOf m).phase := by rw [Config.phase, hleaf, if_neg (by simpa using hne)]; rfl
    have herr : m.ctx.errCnt = resent m.ctx.calls := errCnt_eq hm.2 hst hans hle
    have hno : ¬ ResendsStat (configOf m) e.2 := fun hr => by
      have := hc hr
      omega
    obtain ⟨hnone, hcalls⟩ := htr.nak_ends hnak hleaf hans (le_of_le_of_eq hge herr.symm) hno
    exact ⟨by rw [hs.running_eq, hnone]; rfl, hcalls⟩

/-- **Giving up on a block.** The bound is kept along a run exactly when `ACKNAKSTAT` and
`ONE` never resend the stat block with `errCnt` at the bound. -/
theorem gives_up_iff {files : List File} {m₀ : Machine} (h₀ : Started files m₀)
    (es : List (Env × Mesg)) :
    EveryStep ySenderSS.Step KeepsBound m₀ es ↔ EveryStep ySenderSS.Step ChecksStat m₀ es := by
  obtain ⟨hm₀, hzero⟩ := h₀.counted
  constructor
  · intro hkeep es₁ e es₂ t u heq hr hst hres
    have hm : CountedMachine t := hr.invariant CountedMachine.step hm₀
    have hle : resent t.ctx.calls ≤ errB := by
      refine hr.invariant_of_everyStep (I := fun m => resent m.ctx.calls ≤ errB) (C := KeepsBound)
        (fun _ hk _ => hk.1) ?_ (le_of_eq_of_le hzero (Nat.zero_le _))
      exact EveryStep.init (heq ▸ hkeep)
    have hnext := (hkeep es₁ e es₂ t u heq hr hst).1
    have hsent : resent u.ctx.calls = resent t.ctx.calls + 1 :=
      (step_trans hm.1 hst).2.resends_stat hres
    obtain ⟨st, hst', hans⟩ := hres.waits
    have herr : t.ctx.errCnt = resent t.ctx.calls := errCnt_eq hm.2 hst' hans hle
    omega
  · intro hcheck es₁ e es₂ t u heq hr hst
    have hI : CountedMachine t ∧ resent t.ctx.calls ≤ errB := by
      refine hr.invariant_of_everyStep
        (I := fun m => CountedMachine m ∧ resent m.ctx.calls ≤ errB)
        (fun hs hc hst => ⟨hs.1.step hst, (step_keepsBound hs.1 hs.2 hc hst).1⟩) ?_
        ⟨hm₀, le_of_eq_of_le hzero (Nat.zero_le _)⟩
      exact EveryStep.init (heq ▸ hcheck)
    exact step_keepsBound hI.1 hI.2 (hcheck es₁ e es₂ t u heq hr hst) hst

/-- A sender that is started and gets a 'C' and then one NAK after the other. -/
def nakRun (n : Nat) : List (Env × Mesg) :=
  (.calm, .ser NCG) :: List.replicate n (.calm, .ser NAK)

/-- The theorem for a sender of one small file. -/
theorem gives_up_iff_small : ∃ m₀, Started [smallFile] m₀ ∧
    (EveryStep ySenderSS.Step KeepsBound m₀ (nakRun 11) ↔
      EveryStep ySenderSS.Step ChecksStat m₀ (nakRun 11)) := by
  have hrun : (ySenderSS.session .calm (SenderY.init [smallFile] fun _ => Blk.blank) []).toOption.any
      (fun m => m.running) = true := by
    decide +kernel
  obtain ⟨m₀, _, hstart, -⟩ := Chart.run_of_session hrun
  have h₀ : Started [smallFile] m₀ := ⟨_, _, hstart⟩
  exact ⟨m₀, h₀, gives_up_iff h₀ _⟩

/-- Eleven NAKs make the sender resend the stat block eleven times. -/
theorem stat_resent_past_bound : ∃ m₀ m, Started [smallFile] m₀ ∧
    Run ySenderSS.Step m₀ (nakRun 11) m ∧ m.active = [.acknakstat] ∧ resent m.ctx.calls = 11 ∧
    ¬ EveryStep ySenderSS.Step KeepsBound m₀ (nakRun 11) := by
  have hrun : (ySenderSS.session .calm (SenderY.init [smallFile] fun _ => Blk.blank)
      (nakRun 11)).toOption.any
      (fun m => decide (m.active = [SState.acknakstat] ∧ resent m.ctx.calls = 11)) = true := by
    decide +kernel
  obtain ⟨m₀, m, hstart, hr, -, hc⟩ := Chart.run_of_session hrun
  obtain ⟨hactive, hcount⟩ := of_decide_eq_true hc
  refine ⟨m₀, m, ⟨_, _, hstart⟩, hr, hactive, hcount, fun hkeep => ?_⟩
  -- The last step ends with eleven resends.
  have hsplit : nakRun 11 = nakRun 10 ++ [(.calm, .ser NAK)] := rfl
  rw [hsplit] at hr hkeep
  obtain ⟨t, hr', hst⟩ := hr.snoc_inv
  have hle := (hkeep.last hr' hst).1
  rw [hcount] at hle
  exact absurd hle (by decide)

end YModem.Sender
