import YModem.Receiver.Accept

/-!
# An isolated CAN byte

A CAN byte moves the machine to the state `CAN`, and the next timeout or byte moves it
back into `NON_CAN` along the stored history. `DataCancelable` stores none, and
`NON_CAN` only remembers the leaves that are its own sub-states.
-/

namespace YModem.Receiver

open YModem.Lib YModem.Peer YModem.SmartState

/-- The same leaf, or both leaves below `DataCancelable`. -/
def SamePhase (leaf leaf' : RState) : Prop :=
  leaf' = leaf ∨ (leaf.dataLeaf = true ∧ leaf'.dataLeaf = true)

/-- The members that carry the state of the transfer. -/
structure SameTransfer (r r' : ReceiverY) : Prop where
  transferringFileD : r'.transferringFileD = r.transferringFileD
  bytesRemaining : r'.bytesRemaining = r.bytesRemaining
  numLastGoodBlk : r'.numLastGoodBlk = r.numLastGoodBlk
  closeProb : r'.closeProb = r.closeProb
  errCnt : r'.errCnt = r.errCnt

/-- A timeout, or a byte other than CAN. -/
def EndsCan (mesg : Mesg) : Prop := mesg = .tm ∨ ∃ c, c ≠ CAN ∧ mesg = .ser c

/-- A CAN byte, followed by a timeout or another byte, leaves the machine in the phase it
was in and the transfer as it was. -/
def CanHarmless (m : Machine) : Prop :=
  ∀ env₁ env₂ mesg, EndsCan mesg → ∃ m₁ m₂ leaf leaf',
    yReceiverSS.Step m (env₁, .ser CAN) m₁ ∧ yReceiverSS.Step m₁ (env₂, mesg) m₂ ∧
      m.active = [leaf] ∧ m₂.active = [leaf'] ∧ SamePhase leaf leaf' ∧ SameTransfer m.ctx m₂.ctx

/-- Where the machine is after a CAN byte and the event that ends the wait for a second. -/
theorem can_excursion {m : Machine} {leaf : RState} (hm : Settled m) (hl : m.active = [leaf])
    (hw : leaf.waits = true) (hk : m.ctx.kbCan = false) (env₁ env₂ : Env) {mesg : Mesg}
    (he : EndsCan mesg) :
    ∃ m₁ m₂, yReceiverSS.Step m (env₁, .ser CAN) m₁ ∧ yReceiverSS.Step m₁ (env₂, mesg) m₂ ∧
      m₂.active = [RState.resumed (leaf.remembered (m.history .nonCan))] ∧
      SameTransfer m.ctx m₂.ctx ∧ m₂.ctx.kbCan = false ∧ m₂.ctx.syncLoss = m.ctx.syncLoss := by
  have hc := config_of_active hl
  obtain ⟨m₁, hs₁, hc₁⟩ := Trans.step hm (hc ▸ @Trans.interrupted env₁ _ _ _ hw)
  have hm₁ := (step_trans hm hs₁).1
  have hk₁ : (m.ctx.peer (·.tmPush env₁.elapsed TM_2CHAR)).kbCan = false := by simpa using hk
  rcases he with rfl | ⟨c, hcan, rfl⟩
  · obtain ⟨m₂, hs₂, hc₂⟩ := Trans.step hm₁ (hc₁ ▸ @Trans.resumedTM env₂ _ _ hk₁)
    have hm₂ := (step_trans hm₁ hs₂).1
    refine ⟨m₁, m₂, hs₁, hs₂, by rw [hm₂.active_eq, hc₂]; rfl, ?_⟩
    have hctx : m₂.ctx = _ := congrArg Config.ctx hc₂
    rw [hctx]
    exact ⟨⟨rfl, rfl, rfl, rfl, rfl⟩, hk, rfl⟩
  · obtain ⟨m₂, hs₂, hc₂⟩ := Trans.step hm₁ (hc₁ ▸ @Trans.resumedSER env₂ _ _ _ hk₁ hcan)
    have hm₂ := (step_trans hm₁ hs₂).1
    refine ⟨m₁, m₂, hs₁, hs₂, by rw [hm₂.active_eq, hc₂]; rfl, ?_⟩
    have hctx : m₂.ctx = _ := congrArg Config.ctx hc₂
    rw [hctx]
    exact ⟨⟨rfl, rfl, rfl, rfl, rfl⟩, hk, rfl⟩

/-- In a data phase the machine comes back to another leaf. -/
theorem not_canHarmless_of_dataLeaf {m : Machine} {leaf : RState} (hm : Settled m)
    (hl : m.active = [leaf]) (hd : leaf.dataLeaf = true) (hk : m.ctx.kbCan = false) :
    ¬ CanHarmless m := by
  intro h
  have hw : leaf.waits = true := by rcases RState.dataLeaf_cases hd with rfl | rfl <;> rfl
  obtain ⟨m₁, m₂, hs₁, hs₂, hback, -⟩ :=
    can_excursion hm hl hw hk (.calm []) (.calm []) (.inl rfl)
  obtain ⟨n₁, n₂, leaf₁, leaf₂, ht₁, ht₂, hl₁, hl₂, hphase, -⟩ :=
    h (.calm []) (.calm []) .tm (.inl rfl)
  cases Except.ok.inj (hs₁.symm.trans ht₁)
  cases Except.ok.inj (hs₂.symm.trans ht₂)
  have hrem : leaf.remembered (m.history .nonCan) = m.history .nonCan := if_pos hd
  rw [hrem, hl₂, List.cons.injEq] at hback
  obtain ⟨rfl, -⟩ := hback
  cases hl.symm.trans hl₁
  have hrest : (RState.resumed (m.history .nonCan)).dataLeaf = false := by
    rcases hm.wellFormed.remembers with hb | hb | hb <;>
      rw [show m.history .nonCan = _ from hb] <;> rfl
  rcases hphase with heq | ⟨-, hd'⟩
  · rw [heq, hd] at hrest
    cases hrest
  · rw [hd'] at hrest
    cases hrest

/-- **An isolated CAN byte is harmless exactly outside the data phases.** -/
theorem canHarmless_iff {m : Machine} {leaf : RState} (h : Reachable m) (hl : m.active = [leaf])
    (hw : leaf = .firstByteStat ∨ leaf = .firstByteData ∨ leaf = .eot ∨ leaf = .areWeDone)
    (hk : m.ctx.kbCan = false) :
    CanHarmless m ↔ leaf = .firstByteStat ∨ leaf = .areWeDone := by
  have hm := h.settled
  constructor
  · intro hh
    rcases hw with rfl | rfl | rfl | rfl
    · exact .inl rfl
    · exact absurd hh (not_canHarmless_of_dataLeaf hm hl rfl hk)
    · exact absurd hh (not_canHarmless_of_dataLeaf hm hl rfl hk)
    · exact .inr rfl
  · intro hh env₁ env₂ mesg he
    have hwait : leaf.waits = true := by rcases hh with rfl | rfl <;> rfl
    have hrem : RState.resumed (leaf.remembered (m.history .nonCan)) = leaf := by
      rcases hh with rfl | rfl <;> rfl
    obtain ⟨m₁, m₂, hs₁, hs₂, hback, hsame, -⟩ := can_excursion hm hl hwait hk env₁ env₂ he
    rw [hrem] at hback
    exact ⟨m₁, m₂, leaf, leaf, hs₁, hs₂, hl, hback, .inl rfl, hsame⟩

theorem canHarmless_at_start : CanHarmless startedMachine :=
  (canHarmless_iff ⟨_, [], started_startedMachine, .refl⟩ rfl (.inl rfl) rfl).2 (.inl rfl)

/-- A receiver that has opened the file `a` reads a CAN byte, times out, and then takes
the first data block of `a` for a stat block that names a file `b`. -/
theorem can_in_data_phase_harmful : ∃ m m', Reachable m ∧ m.active = [.firstByteData] ∧
    m.ctx.kbCan = false ∧ ¬ CanHarmless m ∧
    Run yReceiverSS.Step m [(.calm [], .ser CAN), (.calm [], .tm),
      (.calm (restOf 1 (statChunk [98] [55])), .ser SOH)] m' ∧
    .creat [98] 7 3 3 ∈ m'.ctx.calls := by
  obtain ⟨m, hopen, hm, hl, hhist, hnum, ho⟩ := opens_named_file [97] [53]
    started_startedMachine.settled rfl rfl rfl (by decide) (by decide) (by decide) (by decide)
    (by decide) (by decide : stoi [53] = some 5)
  have hreach : Reachable m := ⟨_, _, started_startedMachine, .single hopen⟩
  obtain ⟨m₁, m₂, hcan, htm, hback, hsame, hk₂, hs₂⟩ :=
    can_excursion hm hl rfl ho.kbCan (.calm []) (.calm []) (.inl rfl)
  have hm₂ := (step_trans (step_trans hm hcan).1 htm).1
  rw [hhist] at hback
  have herr : m₂.ctx.errCnt < errB := by
    rw [hsame.errCnt]
    exact lt_of_le_of_lt ho.errCnt (by decide)
  obtain ⟨m', hopen', _, _, _, _, ho'⟩ := opens_named_file [98] [55] hm₂ hback hk₂
    (hs₂.trans ho.syncLoss) herr (by decide) (by decide) (by decide) (by decide)
    (by decide : stoi [55] = some 7)
  have hnum₂ : m₂.ctx.numLastGoodBlk + 1 = 1 := by
    rw [hsame.numLastGoodBlk, hnum]
    decide
  rw [hnum₂] at hopen'
  refine ⟨m, m', hreach, hl, ho.kbCan, not_canHarmless_of_dataLeaf hm hl rfl ho.kbCan,
    .cons hcan (.cons htm (.single hopen')), ?_⟩
  have hfd : m₂.ctx.transferringFileD = 3 := hsame.transferringFileD.trans ho.transferringFileD
  rw [ho'.calls, hfd]
  simp [Env.calm]

end YModem.Receiver
