import YModem.Sender.Trace

/-!
# What a keyboard cancel leaves of a session

Nearly every guard of the chart asks for `!KbCan`. The one of `EOT1` that sends the EOT
once more to a receiver which still asks for the first block does not: exactly the runs
that never take it stay silent.
-/

namespace YModem.Sender

open YModem.Lib YModem.Peer YModem.SmartState

/-- The bytes that end a session which was cancelled from the keyboard. -/
def Answer (c : UInt8) : Prop := c = ACK ∨ c = NAK ∨ c = NCG

/-- A step that sends no block and no EOT; a timeout, and outside of `CAN` an answer of the
receiver, ends the session. -/
structure Silent (m : Machine) (e : Env × Mesg) (m' : Machine) : Prop where
  quiet : transmissions m'.ctx.calls = transmissions m.ctx.calls
  timeout : e.2 = .tm → m'.running = false
  answer : ∀ c, e.2 = .ser c → Answer c → m.active ≠ [.can] → m'.running = false

/-- `EOT1` answers a 'C' for an empty file with another EOT. -/
def ResendsEot (v : Config) (mesg : Mesg) : Prop :=
  v.leaf = some .eot1 ∧ mesg = .ser NCG ∧ v.ctx.firstBlk = true ∧ v.ctx.errCnt < errB

/-- A cancelled session: the machine is stopped, or `KbCan` is set and no stat block is
about to be sent. -/
def Cancelled (v : Config) : Prop := ∀ leaf ∈ v.leaf, v.ctx.kbCan = true ∧ leaf ≠ .statC

section Transitions

variable {env : Env} {mesg : Mesg} {v v' : Config} {s s' : SenderY} {leaf : SState}
  {back : Option SState}

private theorem cancelled_stopped : Cancelled ⟨none, back, s⟩ := by
  simp [Cancelled]

private theorem Cancelled.kbCan (hc : Cancelled ⟨some leaf, back, s⟩) : s.kbCan ≠ false := by
  rw [(hc leaf rfl).1]
  decide

private theorem Cancelled.ne_statC (hc : Cancelled ⟨some leaf, back, s⟩) : leaf ≠ .statC :=
  (hc leaf rfl).2

/-- After a KB_C the session is cancelled. -/
theorem Trans.cancels (h : Trans env .kbC v v') (hw : v.WellFormed) : Cancelled v' := by
  cases h with
  | @ignored _ leaf _ s hnone =>
    intro l hl
    cases hl
    -- only a leaf below `NON_CAN` can have no handler for a KB_C, and only with `KbCan` set
    have hown := hnone leaf leaf.mem_ancestors
    have hsends : leaf.sends = true := by
      rcases hw.rests leaf rfl with hl | rfl
      · exact hl
      · cases hown
    refine ⟨?_, ?_⟩
    · have hno : nonCanKB_C s = none := hnone .nonCan (SState.nonCan_mem_ancestors hsends)
      by_contra hk
      rw [nonCanKB_C, if_pos (by simpa using hk)] at hno
      cases hno
    · rintro rfl
      cases hown
  | kbCancel hl hne _ =>
    intro l hmem
    cases hmem
    exact ⟨rfl, hne⟩
  | kbCancelCan =>
    intro l hmem
    cases hmem
    exact ⟨rfl, by decide⟩
  | kbCancelOpenErr => exact cancelled_stopped
  | kbCancelStatC => exact cancelled_stopped

/-- A cancelled session stays cancelled. -/
theorem Trans.cancelled (h : Trans env mesg v v') (hc : Cancelled v) : Cancelled v' := by
  cases h with
  | ignored => exact hc
  | kbCancel _ _ hk => exact absurd hk hc.kbCan
  | kbCancelCan => exact fun l hl => ⟨rfl, (hc l hl).2⟩
  | eotResent => exact hc
  | interrupted =>
    intro l hl
    cases hl
    exact ⟨(hc _ rfl).1, by decide⟩
  | openError | statSent => exact absurd rfl hc.ne_statC
  | statAcked _ hk | statResent _ hk | noBlk _ hk | firstBlkSent _ hk | statNaked hk
  | blkResent _ _ hk | lastBlkAcked _ hk | blkAcked _ hk | eotAcked hk | eotNaked hk
  | secondEotResent hk | fileDone hk | resumedSER _ hk | resumedTM hk => exact absurd hk hc.kbCan
  | _ => exact cancelled_stopped

/-- What a transition of a cancelled session sends, and when it ends the session. -/
theorem Trans.silent_or_resends (h : Trans env mesg v v') (hc : Cancelled v) :
    ResendsEot v mesg ∨ (transmissions v'.ctx.calls = transmissions v.ctx.calls ∧
      (mesg = .tm → v'.leaf = none) ∧
      ∀ c, mesg = .ser c → Answer c → v.leaf ≠ some .can → v'.leaf = none) := by
  cases h with
  | eotResent hf he => exact .inl ⟨rfl, rfl, hf, he⟩
  | @ignored _ leaf _ s hnone =>
    have htop := hnone .topLevel leaf.topLevel_mem_ancestors
    refine .inr ⟨rfl, ?_, ?_⟩
    · rintro rfl
      cases htop
    · rintro c rfl hans -
      replace htop : topLevelSER env c s = none := htop
      unfold topLevelSER at htop
      rw [if_pos ⟨(hc leaf rfl).1, hans⟩] at htop
      cases htop
  | kbCancel _ _ hk => exact absurd hk hc.kbCan
  | kbCancelCan => exact .inr ⟨rfl, by simp, by simp⟩
  | interrupted =>
    refine .inr ⟨rfl, by simp, ?_⟩
    rintro c hcan hans -
    cases hcan
    simp [Answer, CAN, ACK, NAK, NCG] at hans
  | openError | statSent => exact absurd rfl hc.ne_statC
  | statAcked _ hk | statResent _ hk | noBlk _ hk | firstBlkSent _ hk | statNaked hk
  | blkResent _ _ hk | lastBlkAcked _ hk | blkAcked _ hk | eotAcked hk | eotNaked hk
  | secondEotResent hk | fileDone hk | resumedSER _ hk | resumedTM hk => exact absurd hk hc.kbCan
  | kbCancelOpenErr | kbCancelStatC => exact absurd rfl hc.ne_statC
  | endOfSession _ => exact .inr ⟨by simp [transmissions, transmits], by simp, by simp⟩
  | excessiveNAKs _ _ _ hs => exact .inr ⟨cancel_transmissions hs, by simp, by simp⟩
  | kbCancelled _ _ _ hs => exact .inr ⟨cancel_transmissions hs, by simp, by simp⟩
  | timedOut _ hs => exact .inr ⟨cancel_transmissions hs, by simp, by simp⟩
  | rcvCancelled hs =>
    refine .inr ⟨?_, by simp, by simp⟩
    simpa [transmissions, transmits] using close_transmissions hs

/-- `EOT1` takes such an event itself. -/
private theorem ResendsEot.taken (hr : ResendsEot ⟨some leaf, back, s⟩ mesg) :
    onMessage env leaf mesg s ≠ none := by
  obtain ⟨hl, rfl, hf, he⟩ := hr
  cases hl
  show eot1SER env NCG s ≠ none
  rw [eot1SER, if_pos ⟨rfl, hf, he⟩]
  exact Option.some_ne_none _

/-- The EOT that is sent once more is a transmission. -/
theorem Trans.resends_eot (h : Trans env mesg v v') (hr : ResendsEot v mesg) :
    transmissions v'.ctx.calls = transmissions v.ctx.calls ++ [.sendByte EOT] := by
  have hleaf := hr.1
  have hmesg := hr.2.1
  cases h with
  | eotResent => simp [transmissions, transmits, wait, sendEOT]
  | @ignored _ leaf _ _ hnone => exact absurd (hnone leaf leaf.mem_ancestors) hr.taken
  | kbCancelled _ _ hnone _ => exact absurd hnone hr.taken
  | excessiveNAKs _ hnone _ _ => exact absurd hnone hr.taken
  | _ => simp [ACK, NAK, NCG, CAN] at hleaf hmesg

end Transitions

/-! ## Whole runs -/

/-- The EOT is not sent once more. -/
def KeepsEot (m : Machine) (e : Env × Mesg) (_ : Machine) : Prop := ¬ ResendsEot (configOf m) e.2

/-- A cancelled machine. -/
private def CancelledMachine (m : Machine) : Prop := Settled m ∧ Cancelled (configOf m)

private theorem CancelledMachine.step {m m' : Machine} {e : Env × Mesg} (hm : CancelledMachine m)
    (h : ySenderSS.Step m e m') : CancelledMachine m' := by
  obtain ⟨hs, ht⟩ := step_trans hm.1 h
  exact ⟨hs, ht.cancelled hm.2⟩

/-- One step of a cancelled machine is silent unless it resends the EOT. -/
private theorem CancelledMachine.silent_iff {m m' : Machine} {e : Env × Mesg}
    (hm : CancelledMachine m) (h : ySenderSS.Step m e m') : Silent m e m' ↔ KeepsEot m e m' := by
  obtain ⟨hs, ht⟩ := step_trans hm.1 h
  constructor
  · intro hsil hr
    have hsent : transmissions m'.ctx.calls = transmissions m.ctx.calls ++ [.sendByte EOT] :=
      ht.resends_eot hr
    rw [hsil.quiet] at hsent
    simp at hsent
  · intro hkeep
    obtain ⟨hquiet, htm, hans⟩ := (ht.silent_or_resends hm.2).resolve_left hkeep
    refine ⟨hquiet, fun he => ?_, fun c he hc hcan => ?_⟩
    · rw [hs.running_eq, htm he]
      rfl
    · have hleaf : (configOf m).leaf ≠ some .can := fun hl => hcan (by rw [hm.1.active_eq, hl]; rfl)
      rw [hs.running_eq, hans c he hc hleaf]
      rfl

/-- **A keyboard cancel silences the sender.** Whatever has happened before, the steps
after a KB_C are all silent exactly when `EOT1` never resends the EOT. -/
theorem silent_after_kbC_iff {files : List File} {m₀ m m₁ : Machine} {env : Env}
    {es : List (Env × Mesg)} (h₀ : Started files m₀) (hr : Run ySenderSS.Step m₀ es m)
    (hk : ySenderSS.Step m (env, .kbC) m₁) (fs : List (Env × Mesg)) :
    EveryStep ySenderSS.Step Silent m₁ fs ↔ EveryStep ySenderSS.Step KeepsEot m₁ fs := by
  have hm : Settled m := run_settled h₀.settled hr
  have hm₁ : CancelledMachine m₁ := by
    obtain ⟨hs, ht⟩ := step_trans hm hk
    exact ⟨hs, ht.cancels hm.wellFormed⟩
  have hstep {fs₁ : List (Env × Mesg)} {t : Machine} (hr : Run ySenderSS.Step m₁ fs₁ t) :
      CancelledMachine t := hr.invariant CancelledMachine.step hm₁
  constructor
  · intro hsil fs₁ e fs₂ t u heq hr hst
    exact ((hstep hr).silent_iff hst).mp (hsil fs₁ e fs₂ t u heq hr hst)
  · intro hkeep fs₁ e fs₂ t u heq hr hst
    exact ((hstep hr).silent_iff hst).mpr (hkeep fs₁ e fs₂ t u heq hr hst)

/-- An empty file. -/
def emptyFile : File := { smallFile with contents := [] }

/-- The stat block of an empty file is answered; the EOT follows at once. -/
def emptyRun : List (Env × Mesg) := [(.calm, .ser NCG), (.calm, .ser ACK), (.calm, .ser NCG)]

private theorem emptyRun_cancelled : ∃ m₀ m m₁ u, Started [emptyFile] m₀ ∧
    Run ySenderSS.Step m₀ emptyRun m ∧ ySenderSS.Step m (.calm, .kbC) m₁ ∧
    ySenderSS.Step m₁ (.calm, .ser NCG) u ∧ m₁.ctx.kbCan = true ∧
    ResendsEot (configOf m₁) (.ser NCG) := by
  have hcancel : (ySenderSS.session .calm (SenderY.init [emptyFile] fun _ => Blk.blank)
      (emptyRun ++ [(.calm, .kbC)])).toOption.any (fun m => decide (m.active = [SState.eot1] ∧
        m.ctx.kbCan = true ∧ m.ctx.firstBlk = true ∧ m.ctx.errCnt < errB)) = true := by
    decide +kernel
  have hagain : (ySenderSS.session .calm (SenderY.init [emptyFile] fun _ => Blk.blank)
      (emptyRun ++ [(.calm, .kbC)] ++ [(.calm, .ser NCG)])).toOption.any (fun _ => true) = true := by
    decide +kernel
  obtain ⟨m₀, m₁, u, hstart, hr, hc, hnext, -⟩ := Chart.run_of_sessions hcancel hagain
  obtain ⟨hactive, hk, hf, he⟩ := of_decide_eq_true hc
  obtain ⟨m, hr, hcan⟩ := hr.snoc_inv
  obtain ⟨w, hst, hw⟩ := hnext.cons_inv
  cases hw.nil_inv rfl
  exact ⟨m₀, m, m₁, u, ⟨_, _, hstart⟩, hr, hcan, hst, hk, by rw [configOf, hactive]; rfl, rfl, hf, he⟩

/-- The theorem for an empty file whose EOT is outstanding. -/
theorem silent_after_kbC_iff_empty : ∃ m₀ m m₁, Started [emptyFile] m₀ ∧
    Run ySenderSS.Step m₀ emptyRun m ∧ ySenderSS.Step m (.calm, .kbC) m₁ ∧
    (EveryStep ySenderSS.Step Silent m₁ [(.calm, .ser NCG), (.calm, .tm)] ↔
      EveryStep ySenderSS.Step KeepsEot m₁ [(.calm, .ser NCG), (.calm, .tm)]) := by
  obtain ⟨m₀, m, m₁, u, h₀, hr, hk, -⟩ := emptyRun_cancelled
  exact ⟨m₀, m, m₁, h₀, hr, hk, silent_after_kbC_iff h₀ hr hk _⟩

/-- An EOT is sent after a keyboard cancel, and the session goes on. -/
theorem eot_resent_after_kbC : ∃ m₀ m m₁ u, Started [emptyFile] m₀ ∧
    Run ySenderSS.Step m₀ emptyRun m ∧ ySenderSS.Step m (.calm, .kbC) m₁ ∧
    ySenderSS.Step m₁ (.calm, .ser NCG) u ∧ m₁.ctx.kbCan = true ∧
    transmissions u.ctx.calls = transmissions m₁.ctx.calls ++ [.sendByte EOT] ∧
    ¬ EveryStep ySenderSS.Step Silent m₁ [(.calm, .ser NCG)] := by
  obtain ⟨m₀, m, m₁, u, h₀, hr, hk, hst, hkb, hres⟩ := emptyRun_cancelled
  have hm : Settled m := run_settled h₀.settled hr
  have hsent : transmissions u.ctx.calls = transmissions m₁.ctx.calls ++ [.sendByte EOT] :=
    (step_trans (step_trans hm hk).1 hst).2.resends_eot hres
  refine ⟨m₀, m, m₁, u, h₀, hr, hk, hst, hkb, hsent, fun hsil => ?_⟩
  have hquiet := (hsil [] _ [] m₁ u rfl .refl hst).quiet
  rw [hsent] at hquiet
  simp at hquiet

end YModem.Sender
