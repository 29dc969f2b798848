import YModem.Lib.Run
import YModem.Receiver.Transitions

/-!
# The machine takes exactly these transitions

The handlers, the history and the continue events of the chart, executed by the
SmartState runtime, amount to one transition of `Trans` for each event.
-/

namespace YModem.Receiver

open YModem.Lib YModem.Peer YModem.SmartState

/-! ## Which state takes an event -/

section Runtime

variable {env : Env} {leaf : RState} {back : Option RState} {r : ReceiverY} {mesg : Mesg}
  {posted : List Mesg} {reaction : Reaction RState ReceiverY} {m : Machine} {v : Config}

/-- The event is taken by the state `a`, above the states `below` that pass it on. -/
private theorem event_taken (below : List RState) (a : RState) {above : List RState}
    (hanc : yReceiverSS.ancestors leaf = below ++ a :: above)
    (hnone : ∀ b ∈ below, onMessage env b mesg r = none)
    (hsome : onMessage env a mesg r = some reaction)
    (hreact : yReceiverSS.react env a (Config.machine ⟨some leaf, back, r⟩ []) reaction = .ok m) :
    yReceiverSS.postEvent env mesg (Config.machine ⟨some leaf, back, r⟩ posted) =
      yReceiverSS.sendPostedMessages env 4 0 m := by
  apply Chart.postEvent_eq rfl
  rw [Chart.fireMessage_leaf (s := leaf) rfl, ← hreact]
  exact Chart.onMessageOf_eq below hanc hnone hsome

/-- An event whose handler posts nothing. -/
private theorem event_done (below : List RState) (a : RState) {above : List RState}
    (hanc : yReceiverSS.ancestors leaf = below ++ a :: above)
    (hnone : ∀ b ∈ below, onMessage env b mesg r = none)
    (hsome : onMessage env a mesg r = some reaction)
    (hreact : yReceiverSS.react env a (Config.machine ⟨some leaf, back, r⟩ []) reaction =
      .ok (v.machine [])) :
    ∃ ps, yReceiverSS.postEvent env mesg (Config.machine ⟨some leaf, back, r⟩ posted) =
      .ok (v.machine ps) :=
  ⟨[], (event_taken below a hanc hnone hsome hreact).trans
    (Chart.sendPostedMessages_nil (Nat.le_refl 0))⟩

/-- An event whose handler enters a state that posts a continue event. -/
private theorem event_chained {w : Config} (a : RState) {above : List RState}
    (hanc : yReceiverSS.ancestors leaf = a :: above)
    (hsome : onMessage env a mesg r = some reaction)
    (hreact : yReceiverSS.react env a (Config.machine ⟨some leaf, back, r⟩ []) reaction =
      .ok (w.machine [.cont]))
    (hchain : ∃ ps, yReceiverSS.sendPostedMessages env 4 0 (w.machine [.cont]) =
      .ok (v.machine ps)) :
    ∃ ps, yReceiverSS.postEvent env mesg (Config.machine ⟨some leaf, back, r⟩ posted) =
      .ok (v.machine ps) := by
  obtain ⟨ps, hps⟩ := hchain
  exact ⟨ps, (event_taken [] a hanc (by simp) hsome hreact).trans hps⟩

/-- The states that see an event before `NON_CAN` does. -/
private def belowNonCan (leaf : RState) : List RState :=
  if leaf.dataLeaf then [leaf, .dataCancelable] else [leaf]

private theorem ancestors_waits (hl : leaf.waits = true) :
    yReceiverSS.ancestors leaf = belowNonCan leaf ++ [.nonCan, .topLevel] := by
  cases leaf <;> cases hl <;> rfl

private theorem belowNonCan_passes
    (hleaf : onMessage env leaf mesg r = none)
    (hdata : leaf.dataLeaf = true → onMessage env .dataCancelable mesg r = none) :
    ∀ b ∈ belowNonCan leaf, onMessage env b mesg r = none := by
  intro b hb
  unfold belowNonCan at hb
  split at hb
  · rename_i hd
    rcases List.mem_pair.mp hb with rfl | rfl
    · exact hleaf
    · exact hdata hd
  · rw [List.mem_singleton.mp hb]
    exact hleaf

/-- An event taken by `NON_CAN` while a leaf waits. -/
private theorem event_nonCan (hl : leaf.waits = true)
    (hleaf : onMessage env leaf mesg r = none)
    (hdata : leaf.dataLeaf = true → onMessage env .dataCancelable mesg r = none)
    (hsome : onMessage env .nonCan mesg r = some reaction)
    (hreact : yReceiverSS.react env .nonCan (Config.machine ⟨some leaf, back, r⟩ []) reaction =
      .ok (v.machine [])) :
    ∃ ps, yReceiverSS.postEvent env mesg (Config.machine ⟨some leaf, back, r⟩ posted) =
      .ok (v.machine ps) :=
  event_done (belowNonCan leaf) .nonCan (ancestors_waits hl) (belowNonCan_passes hleaf hdata)
    hsome hreact

/-- An event taken by `Receiver_TopLevel` while a leaf waits. -/
private theorem event_topLevel (hl : leaf.waits = true)
    (hleaf : onMessage env leaf mesg r = none)
    (hdata : leaf.dataLeaf = true → onMessage env .dataCancelable mesg r = none)
    (hnonCan : onMessage env .nonCan mesg r = none)
    (hsome : onMessage env .topLevel mesg r = some reaction)
    (hreact : yReceiverSS.react env .topLevel (Config.machine ⟨some leaf, back, r⟩ []) reaction =
      .ok (v.machine [])) :
    ∃ ps, yReceiverSS.postEvent env mesg (Config.machine ⟨some leaf, back, r⟩ posted) =
      .ok (v.machine ps) := by
  have hanc : yReceiverSS.ancestors leaf = (belowNonCan leaf ++ [.nonCan]) ++ [.topLevel] := by
    rw [ancestors_waits hl, List.append_assoc]
    rfl
  refine event_done _ .topLevel hanc ?_ hsome hreact
  intro b hb
  rcases List.mem_append.mp hb with hb | hb
  · exact belowNonCan_passes hleaf hdata b hb
  · rw [List.mem_singleton.mp hb]
    exact hnonCan

/-- The bytes that a waiting leaf does not handle itself. -/
private theorem ser_passes {c : UInt8} (hl : leaf.waits = true)
    (hsoh : c = SOH → r.kbCan = true)
    (heot : c = EOT → leaf ≠ .eot ∧ (leaf = .firstByteStat → r.closeProb ≠ 0) ∧
      (leaf = .firstByteData → r.kbCan = true)) :
    onMessage env leaf (.ser c) r = none := by
  have hblk : (!r.kbCan && c == SOH) = false := by
    by_cases h : c = SOH
    · simp [hsoh h]
    · simp [h]
  rcases RState.waits_cases hl with rfl | hd | rfl
  · have hcp : ¬ (c = EOT ∧ r.closeProb = 0) := fun ⟨h, h0⟩ => (heot h).2.1 rfl h0
    show firstByteStatSER env c r = none
    simp only [firstByteStatSER, ← and_assoc, hcp, false_and, if_false, hblk]
    rfl
  · rcases RState.dataLeaf_cases hd with rfl | rfl
    · have : (!r.kbCan && c == EOT) = false := by
        by_cases h : c = EOT
        · simp [(heot h).2.2 rfl]
        · simp [h]
      show firstByteDataSER env c r = none
      simp only [firstByteDataSER, this]
      rfl
    · exact if_neg fun h => (heot h).1 rfl
  · show areWeDoneSER env c r = none
    simp only [areWeDoneSER, hblk]
    rfl

private theorem passes_of_none {a : RState} (h : onMessage env a mesg r = none) :
    ∀ b ∈ [a], onMessage env b mesg r = none := by
  intro b hb
  rw [List.mem_singleton.mp hb]
  exact h

private theorem ser_passes_dataCancelable {c : UInt8} (hsoh : c = SOH → r.kbCan = true) :
    onMessage env .dataCancelable (.ser c) r = none := by
  show dataCancelableSER env c r = none
  by_cases h : c = SOH
  · simp [dataCancelableSER, hsoh h]
  · simp [dataCancelableSER, h]

/-- Only the transient states handle a continue event. -/
private theorem cont_passes (hl : leaf.rests = true) :
    ∀ b ∈ yReceiverSS.ancestors leaf, onMessage env b .cont r = none := by
  have hanc : ∀ b ∈ yReceiverSS.ancestors leaf, b ∉ [RState.condTransientCheck,
      .condTransientOpen, .condTransientEOT, .condlTransientStat] := by
    revert hl
    cases leaf <;> decide
  intro b hb
  have := hanc b hb
  cases b <;> first | rfl | simp at this

private theorem statBlk_taken (hk : r.kbCan = false) :
    ∃ reaction, onMessage env .firstByteStat (.ser SOH) r = some reaction ∧
      yReceiverSS.react env .firstByteStat (Config.machine ⟨some .firstByteStat, back, r⟩ [])
        reaction = .ok (Config.machine ⟨some .condlTransientStat, back, statBlkRead env r⟩
          [.cont]) :=
  ⟨_, if_pos (by simp [hk]), rfl⟩

private theorem blkWhenDone_taken (hk : r.kbCan = false) :
    ∃ reaction, onMessage env .areWeDone (.ser SOH) r = some reaction ∧
      yReceiverSS.react env .areWeDone (Config.machine ⟨some .areWeDone, back, r⟩ [])
        reaction = .ok (Config.machine ⟨some .condlTransientStat, back,
          (r.getRestBlk env).peer (·.incErrCnt)⟩ [.cont]) :=
  ⟨_, if_pos (by simp [hk]), rfl⟩

end Runtime

/-! ## From a transition to the run of the machine -/

section

variable {env : Env} {r : ReceiverY} {posted : List Mesg}

private theorem chain_next {n i : Nat} {leaf : RState} {back : Option RState} {m : Machine}
    {reaction : Reaction RState ReceiverY} {above : List RState}
    (hp : posted[i]? = some .cont) (hanc : yReceiverSS.ancestors leaf = leaf :: above)
    (hsome : onMessage env leaf .cont r = some reaction)
    (hreact : yReceiverSS.react env leaf (Config.machine ⟨some leaf, back, r⟩ posted) reaction =
      .ok m) :
    yReceiverSS.sendPostedMessages env (n + 1) i (Config.machine ⟨some leaf, back, r⟩ posted) =
      yReceiverSS.sendPostedMessages env n (i + 1) m := by
  apply Chart.sendPostedMessages_next hp
  rw [Chart.fireMessage_leaf (s := leaf) rfl, ← hreact]
  exact Chart.onMessageOf_eq [] hanc (by simp) hsome

/-- The last continue event of a chain. -/
private theorem chain_done {n i : Nat} {leaf : RState} {back : Option RState} {v : Config}
    {ps : List Mesg} {reaction : Reaction RState ReceiverY} {above : List RState}
    (hp : posted[i]? = some .cont) (hanc : yReceiverSS.ancestors leaf = leaf :: above)
    (hsome : onMessage env leaf .cont r = some reaction)
    (hreact : yReceiverSS.react env leaf (Config.machine ⟨some leaf, back, r⟩ posted) reaction =
      .ok (v.machine ps)) (hlen : ps.length ≤ i + 1) :
    ∃ ps', yReceiverSS.sendPostedMessages env (n + 1) i
      (Config.machine ⟨some leaf, back, r⟩ posted) = .ok (v.machine ps') :=
  ⟨ps, (chain_next hp hanc hsome hreact).trans (Chart.sendPostedMessages_nil hlen)⟩

/-- A good stat block is handed on to `CondTransientCheck`. -/
private theorem chain_check {back : Option RState} (hs : r.syncLoss = false)
    (he : r.errCnt < errB) (hg : r.goodBlk = true) :
    yReceiverSS.sendPostedMessages env 4 0
      (Config.machine ⟨some .condlTransientStat, back, r⟩ [.cont]) =
    yReceiverSS.sendPostedMessages env 3 1
      (Config.machine ⟨some .condTransientCheck, back, r.checkForAnotherFile⟩
        [.cont, .cont]) := by
  have hok : (!r.syncLoss && decide (r.errCnt < errB)) = true := by simp [hs, he]
  apply chain_next rfl rfl
  · exact (if_neg (by simp [hg])).trans (if_pos (by simp [hok, hg]))
  · rfl

theorem StatBlk.chain {leaf : Option RState} {back : Option RState} {r' : ReceiverY}
    (h : StatBlk env r leaf r') :
    ∃ ps, yReceiverSS.sendPostedMessages env 4 0
      (Config.machine ⟨some .condlTransientStat, back, r⟩ [.cont]) =
        .ok (Config.machine ⟨leaf, back, r'⟩ ps) := by
  have opening {r' : ReceiverY} (ha : r.checkForAnotherFile.anotherFile ≠ 0)
      (ho : r.checkForAnotherFile.openFileForTransfer env = .ok r') :
      yReceiverSS.sendPostedMessages env 3 1
        (Config.machine ⟨some .condTransientCheck, back, r.checkForAnotherFile⟩ [.cont, .cont]) =
      yReceiverSS.sendPostedMessages env 2 2
        (Config.machine ⟨some .condTransientOpen, back, r'⟩ [.cont, .cont, .cont]) := by
    apply chain_next rfl rfl
    · exact if_neg ha
    · show (do
          let ctx ← r.checkForAnotherFile.openFileForTransfer env
          yReceiverSS.executeEntry env (some .nonCan) (some .condTransientOpen)
            ⟨[], histOf back, true, [.cont, .cont], ctx⟩) = _
      rw [ho]
      rfl
  cases h with
  | again hs he hg =>
    apply chain_done rfl rfl
    exacts [if_pos (by simp [hs, he, hg]), rfl, Nat.le_refl 1]
  | noFile hs he hg ha =>
    rw [chain_check hs he hg]
    apply chain_done rfl rfl
    exacts [if_pos ha, rfl, Nat.le_refl 2]
  | opened r' hs he hg ha ho hfd =>
    rw [chain_check hs he hg, opening ha ho]
    apply chain_done rfl rfl
    exacts [if_pos hfd, rfl, Nat.le_refl 3]
  | creatError r' hs he hg ha ho hfd =>
    rw [chain_check hs he hg, opening ha ho]
    apply chain_done rfl rfl
    exacts [if_neg (by simp [hfd]), rfl, Nat.le_refl 3]
  | gaveUp h =>
    have hnot : (!r.syncLoss && decide (r.errCnt < errB)) = false := by
      rcases h with h | h
      · simp [h]
      · simp [Nat.not_lt.mpr h]
    apply chain_done rfl rfl
    · exact (if_neg (by simp [hnot])).trans ((if_neg (by simp [hnot])).trans
        (if_pos (by simpa using h)))
    · rfl
    · exact Nat.le_refl 1

end

private theorem histOf_update (back : Option RState) (s : RState) :
    Function.update (histOf back) .nonCan (some s) = histOf (some s) := by
  funext t
  by_cases h : t = .nonCan
  · subst h
    simp [histOf]
  · simp [histOf, h]

theorem Trans.postEvent {env : Env} {mesg : Mesg} {v v' : Config} (h : Trans env mesg v v')
    (hw : v.WellFormed) (posted : List Mesg) :
    ∃ ps, yReceiverSS.postEvent env mesg (v.machine posted) = .ok (v'.machine ps) := by
  cases h with
  | @ignored leaf back r hl =>
    refine ⟨[], ?_⟩
    refine (Chart.postEvent_eq rfl ?_).trans (Chart.sendPostedMessages_nil (Nat.le_refl 0))
    rw [Chart.fireMessage_leaf (s := leaf) rfl]
    exact Chart.onMessageOf_ignored (cont_passes hl)
  | @kbCancel leaf _ _ hl hne =>
    rcases RState.rests_cases hl with hw | rfl | rfl
    · exact event_topLevel hw (by cases leaf <;> cases hw <;> rfl) (fun _ => rfl) rfl rfl rfl
    · exact absurd rfl hne
    · exact event_done [.can] .topLevel rfl (passes_of_none rfl) rfl rfl
  | kbCancelImmediate => exact event_done [] .condTransientData rfl (by simp) rfl rfl
  | @purged leaf _ r c hl hk hcan hsoh heot =>
    apply event_nonCan hl
    · refine ser_passes hl (fun h => absurd h hsoh) fun h => ?_
      rcases heot h with rfl | ⟨rfl, hcp⟩
      · simp
      · simp [hcp]
    · exact fun _ => ser_passes_dataCancelable fun h => absurd h hsoh
    · exact if_pos (by simp [hk, hcan])
    · rfl
  | purgedData => exact event_done [] .condTransientData rfl (by simp) rfl rfl
  | @interrupted leaf back r hl =>
    have hleaf : onMessage env leaf (.ser CAN) r = none :=
      ser_passes hl (fun h => absurd h (by decide)) fun h => absurd h (by decide)
    have hdata : leaf.dataLeaf = true → onMessage env .dataCancelable (.ser CAN) r = none :=
      fun _ => ser_passes_dataCancelable fun h => absurd h (by decide)
    apply event_nonCan hl hleaf hdata
    · exact (if_neg (by simp)).trans (if_pos rfl)
    · rcases RState.waits_cases hl with rfl | hd | rfl
      · exact congrArg (fun hist => (Except.ok ⟨[.can], hist, true, [], _⟩ : Except Fault Machine))
          (histOf_update back .firstByteStat)
      · rcases RState.dataLeaf_cases hd with rfl | rfl <;> rfl
      · exact congrArg (fun hist => (Except.ok ⟨[.can], hist, true, [], _⟩ : Except Fault Machine))
          (histOf_update back .areWeDone)
  | @kbCancelDelayed leaf back r c hl hk hcan heot =>
    have hnone : nonCanSER env c r = none := (if_neg (by simp [hk])).trans (if_neg hcan)
    have hres : yReceiverSS.react env .topLevel (Config.machine ⟨some leaf, back, r⟩ [])
        (.go none fun r => .ok (if r.purge.cans.kbCan then
            r.purge.cans.peer (·.addResult "KbCancelled (delayed)")
          else r.purge.cans.peer (·.addResult "ExcessiveErrors"))) =
        .ok (Config.machine ⟨none, back, r.purge.cans.peer
          (·.addResult "KbCancelled (delayed)")⟩ []) :=
      congrArg (fun ctx => (Except.ok ⟨[], histOf back, false, [], ctx⟩ : Except Fault Machine))
        (if_pos hk)
    rcases hl with hl | rfl
    · refine event_topLevel hl ?_ ?_ hnone rfl hres
      · exact ser_passes hl (fun _ => hk) fun h => ⟨(heot h).1, (heot h).2, fun _ => hk⟩
      · exact fun _ => ser_passes_dataCancelable fun _ => hk
    · refine event_done [.can] .topLevel rfl ?_ rfl hres
      exact passes_of_none ((if_neg (by simp [hk])).trans (if_neg hcan))
  | @dataBlk leaf back r hl hk =>
    rcases RState.dataLeaf_cases hl with rfl | rfl
    · apply event_done [.firstByteData] .dataCancelable rfl
      · exact passes_of_none (if_neg (by simp [SOH, EOT]))
      · exact if_pos (by simp [hk])
      · rfl
    · apply event_done [.eot] .dataCancelable rfl
      · exact passes_of_none rfl
      · exact if_pos (by simp [hk])
      · rfl
  | firstEOT hk =>
    apply event_done [] .firstByteData rfl (by simp)
    exacts [if_pos (by simp [hk]), rfl]
  | @secondEOT back r hc =>
    have hchain : ∃ ps, yReceiverSS.sendPostedMessages env 4 0
        (Config.machine ⟨some .condTransientEOT, back, r.closeTransferredFile env⟩ [.cont]) =
        .ok (Config.machine ⟨some .firstByteStat, back,
          acknowledgeEOT env (r.closeTransferredFile env)⟩ ps) := by
      apply chain_done rfl rfl
      exacts [if_pos hc, rfl, Nat.le_refl 1]
    exact event_chained .eot rfl rfl rfl hchain
  | @closeError back r hc =>
    have hchain : ∃ ps, yReceiverSS.sendPostedMessages env 4 0
        (Config.machine ⟨some .condTransientEOT, back, r.closeTransferredFile env⟩ [.cont]) =
        .ok (Config.machine ⟨none, back,
          (r.closeTransferredFile env).cans.peer (·.addResult "CloseError")⟩ ps) := by
      apply chain_done rfl rfl
      exacts [if_neg hc, rfl, Nat.le_refl 1]
    exact event_chained .eot rfl rfl rfl hchain
  | excessiveEOTs hc he =>
    apply event_done [] .firstByteStat rfl (by simp)
    exacts [if_pos ⟨rfl, hc, he⟩, rfl]
  | eotAgain hc he =>
    apply event_done [] .firstByteStat rfl (by simp)
    · exact (if_neg (by simp [Nat.not_le.mpr he])).trans (if_pos ⟨rfl, hc, he⟩)
    · rfl
  | @statBlk back r _ _ hk h =>
    obtain ⟨_, hsome, hreact⟩ := @statBlk_taken env back r hk
    exact event_chained .firstByteStat rfl hsome hreact h.chain
  | @blkWhenDone back r _ _ hk h =>
    obtain ⟨_, hsome, hreact⟩ := @blkWhenDone_taken env back r hk
    exact event_chained .areWeDone rfl hsome hreact h.chain
  | @retry leaf _ r hl he hk =>
    have hl' : leaf.waits = true := by
      rcases hl with rfl | hd
      · rfl
      · rcases RState.dataLeaf_cases hd with rfl | rfl <;> rfl
    apply event_nonCan hl'
    · rcases hl with rfl | hd
      · rfl
      · rcases RState.dataLeaf_cases hd with rfl | rfl <;> rfl
    · exact fun _ => rfl
    · exact if_pos ⟨he, hk⟩
    · rfl
  | @gaveUp leaf _ r hl h =>
    have htm {leaf : RState} (hd : leaf = .firstByteStat ∨ leaf.dataLeaf = true) :
        leaf.waits = true ∧ onMessage env leaf .tm r = none := by
      rcases hd with rfl | hd
      · exact ⟨rfl, rfl⟩
      · rcases RState.dataLeaf_cases hd with rfl | rfl <;> exact ⟨rfl, rfl⟩
    rw [← or_assoc] at hl
    rcases hl with hl | rfl
    · obtain ⟨hw, hleaf⟩ := htm hl
      apply event_topLevel hw hleaf (fun _ => rfl)
      · refine if_neg fun ⟨he, hk⟩ => ?_
        rcases h with h | ⟨-, h⟩
        · rw [hk] at h
          cases h
        · omega
      · rfl
      · rfl
    · have hk : r.kbCan = true := h.resolve_right fun h => h.1 rfl
      refine event_done [.can] .topLevel rfl ?_ rfl rfl
      exact passes_of_none (if_neg (by simp [hk]))
  | answered hs he =>
    apply event_done [] .condTransientData rfl (by simp)
    · exact if_pos (by simp [hs, he])
    · rfl
  | @abandoned _ r h =>
    have hnot : (!r.syncLoss && decide (r.errCnt < errB)) = false := by
      rcases h with h | h
      · simp [h]
      · simp [Nat.not_lt.mpr h]
    apply event_done [] .condTransientData rfl (by simp)
    · exact (if_neg (by simp [hnot])).trans (if_pos (by simpa using h))
    · have hs : (r.cans.closeTransferredFile env).syncLoss = r.syncLoss := by simp
      rw [← hs]
      rfl
  | endOfSession => exact event_done [] .areWeDone rfl (by simp) rfl rfl
  | @resumedSER back r c hk hcan =>
    apply event_done [] .can rfl (by simp)
    · exact if_pos (by simp [hk, hcan])
    · rcases hw.remembers with h | h | h <;> cases h <;> rfl
  | @resumedTM back r hk =>
    apply event_done [] .can rfl (by simp)
    · exact if_pos (by simp [hk])
    · rcases hw.remembers with h | h | h <;> cases h <;> rfl
  | sndCancelled => exact event_done [] .can rfl (by simp) rfl rfl

/-! ## What a machine can reach -/

private theorem StatFault.chain {env : Env} {r : ReceiverY} (h : StatFault env r)
    (back : Option RState) : ∃ f, r.checkForAnotherFile.openFileForTransfer env = .error f ∧
      yReceiverSS.sendPostedMessages env 4 0
        (Config.machine ⟨some .condlTransientStat, back, r⟩ [.cont]) = .error f := by
  obtain ⟨f, hf⟩ := h.fault
  refine ⟨f, hf, (chain_check h.inSync h.bound h.good).trans
    (Chart.sendPostedMessages_fault rfl ?_)⟩
  rw [Chart.fireMessage_leaf (s := .condTransientCheck) rfl]
  apply (Chart.onMessageOf_eq [] rfl (by simp) (if_neg h.named)).trans
  show (do
      let ctx ← r.checkForAnotherFile.openFileForTransfer env
      yReceiverSS.executeEntry env (some .nonCan) (some .condTransientOpen)
        ⟨[], histOf back, true, [.cont, .cont], ctx⟩) = _
  rw [hf]
  rfl

/-- An event that faults does so as `openFileForTransfer` does. -/
theorem Faults.postEvent_open {env : Env} {mesg : Mesg} {v : Config} (h : Faults env mesg v)
    (posted : List Mesg) : ∃ f r, ReceiverY.openFileForTransfer env r = .error f ∧
      yReceiverSS.postEvent env mesg (v.machine posted) = .error f := by
  cases h with
  | @statBlk back r hk h =>
    obtain ⟨_, hsome, hreact⟩ := @statBlk_taken env back r hk
    obtain ⟨f, hopen, hf⟩ := h.chain back
    exact ⟨f, _, hopen, (event_taken [] .firstByteStat rfl (by simp) hsome hreact).trans hf⟩
  | @blkWhenDone back r hk h =>
    obtain ⟨_, hsome, hreact⟩ := @blkWhenDone_taken env back r hk
    obtain ⟨f, hopen, hf⟩ := h.chain back
    exact ⟨f, _, hopen, (event_taken [] .areWeDone rfl (by simp) hsome hreact).trans hf⟩

/-- An event that faults has no next machine. -/
theorem Faults.postEvent {env : Env} {mesg : Mesg} {v : Config} (h : Faults env mesg v)
    (posted : List Mesg) : ∃ f, yReceiverSS.postEvent env mesg (v.machine posted) = .error f := by
  obtain ⟨f, _, -, hf⟩ := h.postEvent_open posted
  exact ⟨f, hf⟩

/-- The configuration a machine is in. -/
def configOf (m : Machine) : Config := ⟨m.active.head?, m.history .nonCan, m.ctx⟩

@[simp] theorem configOf_machine (v : Config) (posted : List Mesg) :
    configOf (v.machine posted) = v := by
  obtain ⟨leaf, back, ctx⟩ := v
  cases leaf <;> rfl

/-- A machine between two events. -/
structure Settled (m : Machine) : Prop where
  wellFormed : (configOf m).WellFormed
  shape : m = (configOf m).machine m.posted

theorem Settled.of_machine {v : Config} (hw : v.WellFormed) (posted : List Mesg) :
    Settled (v.machine posted) :=
  ⟨by rwa [configOf_machine], by rw [configOf_machine]; rfl⟩

/-- Between two events the context may be changed from outside. -/
theorem Settled.withCtx {m : Machine} (hm : Settled m) (ctx : ReceiverY) :
    Settled { m with ctx := ctx } :=
  ⟨⟨hm.wellFormed.rests, hm.wellFormed.remembers⟩,
    congrArg (fun n : Machine => { n with ctx := ctx }) hm.shape⟩

theorem config_of_active {m : Machine} {leaf : RState} (hl : m.active = [leaf]) :
    configOf m = ⟨some leaf, m.history .nonCan, m.ctx⟩ := by
  rw [configOf, hl]
  rfl

theorem Settled.active_eq {m : Machine} (hm : Settled m) : m.active = (configOf m).leaf.toList := by
  conv_lhs => rw [hm.shape]
  rfl

theorem Settled.running_eq {m : Machine} (hm : Settled m) :
    m.running = (configOf m).leaf.isSome := by
  conv_lhs => rw [hm.shape]
  rfl

theorem Settled.active_of_running {m : Machine} (hm : Settled m) (h : m.running = true) :
    ∃ leaf, m.active = [leaf] := by
  rw [hm.running_eq, Option.isSome_iff_exists] at h
  obtain ⟨leaf, hl⟩ := h
  exact ⟨leaf, by rw [hm.active_eq, hl]; rfl⟩

theorem Settled.running_of_active {m : Machine} {leaf : RState} (hm : Settled m)
    (h : m.active = [leaf]) : m.running = true := by
  rw [hm.running_eq, config_of_active h]
  rfl

/-- **One event, one transition.** -/
theorem step_trans {m m' : Machine} {e : Env × Mesg} (hm : Settled m)
    (h : yReceiverSS.Step m e m') : Settled m' ∧ Trans e.1 e.2 (configOf m) (configOf m') := by
  obtain ⟨env, mesg⟩ := e
  obtain ⟨hw, hshape⟩ := hm
  unfold Chart.Step at h
  rw [hshape] at h
  generalize configOf m = v at hw h ⊢
  obtain ⟨leaf, back, r⟩ := v
  cases leaf with
  | none => cases h
  | some leaf =>
    rcases Trans.total env mesg back r (hw.rests leaf rfl) with ⟨v', ht⟩ | hf
    · obtain ⟨ps, hp⟩ := ht.postEvent hw m.posted
      rw [hp] at h
      cases h
      rw [configOf_machine]
      exact ⟨Settled.of_machine (ht.wellFormed hw) ps, ht⟩
    · obtain ⟨f, hp⟩ := hf.postEvent m.posted
      rw [hp] at h
      cases h

/-- A transition is an event the machine takes. -/
theorem Trans.step {m : Machine} {env : Env} {mesg : Mesg} {v' : Config} (hm : Settled m)
    (h : Trans env mesg (configOf m) v') :
    ∃ m', yReceiverSS.Step m (env, mesg) m' ∧ configOf m' = v' := by
  obtain ⟨ps, hp⟩ := h.postEvent hm.wellFormed m.posted
  rw [← hm.shape] at hp
  exact ⟨v'.machine ps, hp, configOf_machine v' ps⟩

/-- A configuration has at most one transition on an event. -/
theorem Trans.functional {env : Env} {mesg : Mesg} {v v₁ v₂ : Config} (h₁ : Trans env mesg v v₁)
    (h₂ : Trans env mesg v v₂) (hw : v.WellFormed) : v₁ = v₂ := by
  obtain ⟨ps₁, hp₁⟩ := h₁.postEvent hw []
  obtain ⟨ps₂, hp₂⟩ := h₂.postEvent hw []
  have hmachine : v₁.machine ps₁ = v₂.machine ps₂ := Except.ok.inj (hp₁.symm.trans hp₂)
  have hconfig := congrArg configOf hmachine
  rwa [configOf_machine, configOf_machine] at hconfig

/-- The context when the machine has been started. -/
def startedCtx (env : Env) (rcvBlk : RcvBlk) : ReceiverY :=
  { ({ (ReceiverY.init rcvBlk).peer (·.sendByte NCG) with closeProb := -1, errCnt := 0 } :
    ReceiverY).peer (·.tm env.elapsed TM_SOH) with kbCan := false }

/-- A freshly started receiver. -/
def Started (m : Machine) : Prop :=
  ∃ env rcvBlk, yReceiverSS.start env (ReceiverY.init rcvBlk) = .ok m

theorem start_eq (env : Env) (rcvBlk : RcvBlk) :
    yReceiverSS.start env (ReceiverY.init rcvBlk) =
      .ok (Config.machine ⟨some .firstByteStat, none, startedCtx env rcvBlk⟩ []) := by
  have hist : histOf none = fun _ => none := by
    funext s
    simp [histOf]
  rw [Config.machine, hist]
  rfl

theorem Started.settled {m : Machine} (h : Started m) : Settled m := by
  obtain ⟨env, rcvBlk, h⟩ := h
  rw [start_eq] at h
  cases h
  exact Settled.of_machine ⟨by simp [RState.rests, RState.waits], .inl rfl⟩ []

theorem Started.config {m : Machine} (h : Started m) :
    ∃ env rcvBlk, configOf m = ⟨some .firstByteStat, none, startedCtx env rcvBlk⟩ := by
  obtain ⟨env, rcvBlk, h⟩ := h
  rw [start_eq] at h
  cases h
  exact ⟨env, rcvBlk, configOf_machine _ _⟩

/-- **The invariant rule of the receiver.** What holds of the configuration at the start
and is kept by every transition on an admissible event holds after every run. -/
theorem run_invariant {I : Config → Prop} {P : Env × Mesg → Prop} {m m' : Machine}
    {es : List (Env × Mesg)}
    (hstep : ∀ {env mesg v v'}, P (env, mesg) → v.WellFormed → I v → Trans env mesg v v' → I v')
    (hm : Settled m) (hI : I (configOf m)) (hok : ∀ e ∈ es, P e)
    (h : Run yReceiverSS.Step m es m') : Settled m' ∧ I (configOf m') := by
  refine h.invariant_of_labels (I := fun m => Settled m ∧ I (configOf m)) ?_ hok ⟨hm, hI⟩
  intro s e t he ⟨hs, hIs⟩ hst
  obtain ⟨ht, htr⟩ := step_trans hs hst
  exact ⟨ht, hstep he hs.wellFormed hIs htr⟩

/-- A receiver that some sequence of events has led to. -/
def Reachable (m : Machine) : Prop :=
  ∃ m₀ es, Started m₀ ∧ Run yReceiverSS.Step m₀ es m

theorem Reachable.invariant {I : Config → Prop} {m : Machine} (h : Reachable m)
    (hstart : ∀ env rcvBlk, I ⟨some .firstByteStat, none, startedCtx env rcvBlk⟩)
    (hstep : ∀ {env mesg v v'}, v.WellFormed → I v → Trans env mesg v v' → I v') :
    Settled m ∧ I (configOf m) := by
  obtain ⟨m₀, es, h₀, hr⟩ := h
  obtain ⟨env, rcvBlk, hc⟩ := h₀.config
  exact run_invariant (P := fun _ => True) (fun _ => hstep) h₀.settled (hc ▸ hstart env rcvBlk)
    (fun _ _ => trivial) hr

theorem Reachable.settled {m : Machine} (h : Reachable m) : Settled m :=
  (h.invariant (I := fun _ => True) (fun _ _ => trivial) (fun _ _ _ => trivial)).1

end YModem.Receiver
