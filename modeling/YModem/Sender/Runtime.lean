import YModem.Lib.Run
import YModem.Sender.Transitions

/-!
# The machine takes only these transitions

The handlers of the chart, executed by the SmartState runtime, do to a machine what one
transition of `Trans` does to its configuration, or the event does not return.
-/

namespace YModem.Sender

open YModem.Lib YModem.Peer YModem.SmartState

section Runtime

variable {env : Env} {mesg : Mesg} {leaf : SState} {back : Option SState} {s : SenderY}
  {m : Machine} {effect : SenderY → Except Fault SenderY} {reaction : Reaction SState SenderY}

/-- A machine in a configuration that an event may lead to. -/
private def Lands (env : Env) (mesg : Mesg) (v : Config) (m : Machine) : Prop :=
  ∃ v', m = v'.machine [] ∧ Trans env mesg v v'

private theorem react_stay (caller : SState)
    (h : ySenderSS.react env caller (Config.machine ⟨some leaf, back, s⟩ []) (.stay effect) = .ok m) :
    ∃ s', effect s = .ok s' ∧ m = Config.machine ⟨some leaf, back, s'⟩ [] := by
  obtain ⟨s', hs, hm⟩ := bind_inv h
  cases hm
  exact ⟨s', hs, rfl⟩

private theorem react_final (caller : SState)
    (h : ySenderSS.react env caller (Config.machine ⟨some leaf, back, s⟩ []) (.go none effect) =
      .ok m) : ∃ s', effect s = .ok s' ∧ m = Config.machine ⟨none, back, s'⟩ [] := by
  obtain ⟨_, hroot, h⟩ := bind_inv h
  cases hroot
  obtain ⟨s', hs, hm⟩ := bind_inv h
  cases hm
  exact ⟨s', hs, rfl⟩

/-- A transition from leaf to leaf. -/
private theorem react_go {next : SState} (hl : leaf.sends = true) (hn : next.sends = true)
    (hne : leaf ≠ next)
    (h : ySenderSS.react env leaf (Config.machine ⟨some leaf, back, s⟩ []) (.go (some next) effect) =
      .ok m) : ∃ s', effect s = .ok s' ∧ m = Config.machine ⟨some next, back, s'⟩ [] := by
  have hexit : ySenderSS.executeExit leaf (some next) (Config.machine ⟨some leaf, back, s⟩ []) =
      .ok (some .nonCan, ⟨[], histOf back, true, [], s⟩) := by
    cases leaf <;> cases hl <;> cases next <;> cases hn <;> first | rfl | exact absurd rfl hne
  obtain ⟨_, hroot, h⟩ := bind_inv h
  rw [hexit] at hroot
  cases hroot
  obtain ⟨s', hs, hm⟩ := bind_inv h
  refine ⟨s', hs, ?_⟩
  have hentry : ySenderSS.executeEntry env (some .nonCan) (some next)
      (⟨[], histOf back, true, [], s'⟩ : Machine) = .ok (Config.machine ⟨some next, back, s'⟩ []) := by
    cases next <;> cases hn <;> rfl
  exact Except.ok.inj (hm.symm.trans hentry)

private theorem histOf_update (back : Option SState) (leaf : SState) :
    Function.update (histOf back) .nonCan (some leaf) = histOf (some leaf) := by
  funext st
  by_cases h : st = .nonCan
  · subst h
    simp [histOf]
  · simp [histOf, h]

/-- `NON_CAN` is left for `CAN`. -/
theorem react_can (hl : leaf.sends = true) :
    ySenderSS.react env .nonCan (Config.machine ⟨some leaf, back, s⟩ []) (.go (some .can) effect) =
      effect s >>= fun s' => .ok (Config.machine ⟨some .can, some leaf, s'⟩ []) := by
  have hexit : ySenderSS.executeExit .nonCan (some .can) (Config.machine ⟨some leaf, back, s⟩ []) =
      .ok (some .topLevel, ⟨[], histOf (some leaf), true, [], s⟩) := by
    rw [← histOf_update back leaf]
    cases leaf <;> cases hl <;> rfl
  show (ySenderSS.executeExit .nonCan (some .can) (Config.machine ⟨some leaf, back, s⟩ []) >>=
    fun p => effect p.2.ctx >>= fun ctx =>
      ySenderSS.executeEntry env p.1 (some .can) { p.2 with ctx := ctx }) = _
  rw [hexit]
  rfl

/-- `CAN` is left for the leaf that `NON_CAN` remembers. -/
theorem react_resume (hl : leaf.sends = true) :
    ySenderSS.react env .can (Config.machine ⟨some .can, some leaf, s⟩ [])
      (.go (some .nonCan) effect) =
      effect s >>= fun s' => .ok (Config.machine ⟨some leaf, some leaf, s'⟩ []) := by
  have hentry (s' : SenderY) : ySenderSS.executeEntry env (some .topLevel) (some .nonCan)
      (⟨[], histOf (some leaf), true, [], s'⟩ : Machine) =
      .ok (Config.machine ⟨some leaf, some leaf, s'⟩ []) := by
    cases leaf <;> cases hl <;> rfl
  show (effect s >>= fun s' => ySenderSS.executeEntry env (some .topLevel) (some .nonCan)
    (⟨[], histOf (some leaf), true, [], s'⟩ : Machine)) = _
  simp only [hentry]

/-! ## The handlers of the leaves -/

private theorem acknak_lands {c : UInt8} (hsome : acknakSER env c s = some reaction)
    (h : ySenderSS.react env .acknak (Config.machine ⟨some .acknak, back, s⟩ []) reaction = .ok m) :
    Lands env (.ser c) ⟨some .acknak, back, s⟩ m := by
  unfold acknakSER at hsome
  split_ifs at hsome with hnak hlast hack <;> cases hsome
  · obtain ⟨s', hs, hm⟩ := react_stay _ h
    cases hs
    exact ⟨_, hm, .blkResent hnak.1 hnak.2.1 hnak.2.2⟩
  · obtain ⟨s', hs, hm⟩ := react_go rfl rfl (by decide) h
    obtain ⟨t, ht, hs⟩ := bind_inv hs
    cases hs
    obtain ⟨rfl, hb, hk⟩ := hlast
    exact ⟨_, hm, .lastBlkAcked hb hk ht⟩
  · obtain ⟨s', hs, hm⟩ := react_stay _ h
    obtain ⟨t, ht, hs⟩ := bind_inv hs
    cases hs
    obtain ⟨rfl, hb, hk⟩ := hack
    exact ⟨_, hm, .blkAcked hb hk ht⟩

private theorem eot1_lands {c : UInt8} (hsome : eot1SER env c s = some reaction)
    (h : ySenderSS.react env .eot1 (Config.machine ⟨some .eot1, back, s⟩ []) reaction = .ok m) :
    Lands env (.ser c) ⟨some .eot1, back, s⟩ m := by
  unfold eot1SER at hsome
  split_ifs at hsome with hncg hack hnak <;> cases hsome
  · obtain ⟨s', hs, hm⟩ := react_stay _ h
    cases hs
    obtain ⟨rfl, hf, he⟩ := hncg
    exact ⟨_, hm, .eotResent hf he⟩
  · obtain ⟨s', hs, hm⟩ := react_go rfl rfl (by decide) h
    obtain ⟨t, ht, hs⟩ := bind_inv hs
    cases hs
    obtain ⟨rfl, hk⟩ := hack
    exact ⟨_, hm, .eotAcked hk ht⟩
  · obtain ⟨s', hs, hm⟩ := react_go rfl rfl (by decide) h
    cases hs
    obtain ⟨rfl, hk⟩ := hnak
    exact ⟨_, hm, .eotNaked hk⟩

private theorem one_lands {c : UInt8} (hsome : oneSER env c s = some reaction)
    (h : ySenderSS.react env .one (Config.machine ⟨some .one, back, s⟩ []) reaction = .ok m) :
    Lands env (.ser c) ⟨some .one, back, s⟩ m := by
  unfold oneSER at hsome
  split_ifs at hsome with hempty hfirst hnak <;> cases hsome
  · obtain ⟨s', hs, hm⟩ := react_go rfl rfl (by decide) h
    obtain ⟨rfl, hb, hk⟩ := hempty
    exact ⟨_, hm, .noBlk hb hk hs⟩
  · obtain ⟨s', hs, hm⟩ := react_go rfl rfl (by decide) h
    obtain ⟨t, ht, hs⟩ := bind_inv hs
    cases hs
    obtain ⟨rfl, hb, hk⟩ := hfirst
    exact ⟨_, hm, .firstBlkSent hb hk ht⟩
  · obtain ⟨s', hs, hm⟩ := react_go rfl rfl (by decide) h
    cases hs
    obtain ⟨rfl, hk⟩ := hnak
    exact ⟨_, hm, .statNaked hk⟩

private theorem eoteot_lands {c : UInt8} (hsome : eoteotSER env c s = some reaction)
    (h : ySenderSS.react env .eoteot (Config.machine ⟨some .eoteot, back, s⟩ []) reaction = .ok m) :
    Lands env (.ser c) ⟨some .eoteot, back, s⟩ m := by
  unfold eoteotSER at hsome
  split_ifs at hsome with hnak hack <;> cases hsome
  · obtain ⟨s', hs, hm⟩ := react_stay _ h
    cases hs
    obtain ⟨rfl, hk, he⟩ := hnak
    exact ⟨_, hm, .secondEotResent hk he⟩
  · obtain ⟨s', hs, hm⟩ := react_go rfl rfl (by decide) h
    obtain ⟨t, ht, hs⟩ := bind_inv hs
    cases hs
    obtain ⟨rfl, hk⟩ := hack
    exact ⟨_, hm, .fileDone hk ht⟩

private theorem statC_lands {c : UInt8} (hsome : statCSER env c s = some reaction)
    (h : ySenderSS.react env .statC (Config.machine ⟨some .statC, back, s⟩ []) reaction = .ok m) :
    Lands env (.ser c) ⟨some .statC, back, s⟩ m := by
  unfold statCSER at hsome
  split_ifs at hsome with herr hsend <;> cases hsome
  · obtain ⟨s', hs, hm⟩ := react_final _ h
    cases hs
    obtain ⟨rfl, hf, hfd⟩ := herr
    exact ⟨_, hm, .openError hf hfd⟩
  · obtain ⟨s', hs, hm⟩ := react_go rfl rfl (by decide) h
    obtain ⟨t, ht, hs⟩ := bind_inv hs
    cases hs
    obtain ⟨rfl, hfd⟩ := hsend
    exact ⟨_, hm, .statSent hfd ht⟩

private theorem statC_kbC_lands (hsome : statCKB_C env = some reaction)
    (h : ySenderSS.react env .statC (Config.machine ⟨some .statC, back, s⟩ []) reaction = .ok m) :
    Lands env .kbC ⟨some .statC, back, s⟩ m := by
  cases hsome
  obtain ⟨s', hs, hm⟩ := react_final _ h
  by_cases hfd : s.transferringFileD = -1
  · rw [if_pos hfd] at hs
    cases hs
    exact ⟨_, hm, .kbCancelOpenErr hfd⟩
  · rw [if_neg hfd] at hs
    obtain ⟨t, ht, hs⟩ := bind_inv hs
    cases hs
    exact ⟨_, hm, .kbCancelStatC hfd ht⟩

private theorem acknakstat_lands {c : UInt8} (hsome : acknakstatSER env c s = some reaction)
    (h : ySenderSS.react env .acknakstat (Config.machine ⟨some .acknakstat, back, s⟩ []) reaction =
      .ok m) : Lands env (.ser c) ⟨some .acknakstat, back, s⟩ m := by
  unfold acknakstatSER at hsome
  split_ifs at hsome with hack hnak hend <;> cases hsome
  · obtain ⟨s', hs, hm⟩ := react_go rfl rfl (by decide) h
    cases hs
    obtain ⟨rfl, hf, hk⟩ := hack
    exact ⟨_, hm, .statAcked hf hk⟩
  · obtain ⟨s', hs, hm⟩ := react_stay _ h
    cases hs
    exact ⟨_, hm, .statResent hnak.1 hnak.2⟩
  · obtain ⟨s', hs, hm⟩ := react_final _ h
    cases hs
    obtain ⟨rfl, hf⟩ := hend
    exact ⟨_, hm, .endOfSession hf⟩

private theorem leaf_lands (hl : leaf.sends = true) (hsome : onMessage env leaf mesg s = some reaction)
    (h : ySenderSS.react env leaf (Config.machine ⟨some leaf, back, s⟩ []) reaction = .ok m) :
    Lands env mesg ⟨some leaf, back, s⟩ m := by
  cases mesg with
  | ser c =>
    cases leaf with
    | acknak => exact acknak_lands hsome h
    | eot1 => exact eot1_lands hsome h
    | one => exact one_lands hsome h
    | eoteot => exact eoteot_lands hsome h
    | statC => exact statC_lands hsome h
    | acknakstat => exact acknakstat_lands hsome h
    | topLevel | nonCan | can => cases hl
  | kbC =>
    cases leaf with
    | statC => exact statC_kbC_lands hsome h
    | topLevel | nonCan | can => cases hl
    | _ => cases hsome
  | cont | tm => cases leaf <;> cases hl <;> cases hsome

/-! ## The handlers above the leaves -/

private theorem nonCan_lands (hl : leaf.sends = true) (hnone : onMessage env leaf mesg s = none)
    (hsome : onMessage env .nonCan mesg s = some reaction)
    (h : ySenderSS.react env .nonCan (Config.machine ⟨some leaf, back, s⟩ []) reaction = .ok m) :
    Lands env mesg ⟨some leaf, back, s⟩ m := by
  cases mesg with
  | ser c =>
    replace hsome : nonCanSER env c s = some reaction := hsome
    unfold nonCanSER at hsome
    split_ifs at hsome with hnak hcan <;> cases hsome
    · obtain ⟨s', hs, hm⟩ := react_final _ h
      obtain ⟨rfl, he⟩ := hnak
      exact ⟨_, hm, .excessiveNAKs hl hnone he hs⟩
    · rw [react_can hl] at h
      cases h
      subst hcan
      exact ⟨_, rfl, .interrupted hl⟩
  | kbC =>
    replace hsome : nonCanKB_C s = some reaction := hsome
    unfold nonCanKB_C at hsome
    split_ifs at hsome with hk
    cases hsome
    obtain ⟨s', hs, hm⟩ := react_stay _ h
    cases hs
    refine ⟨_, hm, .kbCancel hl ?_ hk⟩
    rintro rfl
    cases hnone
  | cont | tm => cases hsome

private theorem topLevel_lands (hnone : onMessage env leaf mesg s = none)
    (hsome : onMessage env .topLevel mesg s = some reaction)
    (h : ySenderSS.react env .topLevel (Config.machine ⟨some leaf, back, s⟩ []) reaction = .ok m) :
    Lands env mesg ⟨some leaf, back, s⟩ m := by
  cases mesg with
  | ser c =>
    replace hsome : topLevelSER env c s = some reaction := hsome
    unfold topLevelSER at hsome
    split_ifs at hsome with hk
    cases hsome
    obtain ⟨s', hs, hm⟩ := react_final _ h
    exact ⟨_, hm, .kbCancelled hk.2 hk.1 hnone hs⟩
  | tm =>
    cases hsome
    obtain ⟨s', hs, hm⟩ := react_final _ h
    refine ⟨_, hm, .timedOut ?_ ?_⟩
    · rintro rfl
      replace hnone : canTM s = none := hnone
      unfold canTM at hnone
      split_ifs at hnone with hk
      · cases hnone
      · simpa using hk
    · obtain ⟨t, ht, hs⟩ := bind_inv hs
      have hkb : t.kbCan = s.kbCan := by
        rcases SenderY.closeTransferredFile_spec.mp ht with ⟨-, rfl⟩ | ⟨-, -, rfl⟩ <;> rfl
      show (do
        let s' ← s.cans.closeTransferredFile env
        return s'.peer _) = _
      rw [ht, ok_bind, ← hs, hkb]
      split_ifs <;> rfl
  | cont | kbC => cases hsome

private theorem can_lands (hw : ∃ l, back = some l ∧ l.sends = true)
    (hsome : onMessage env .can mesg s = some reaction)
    (h : ySenderSS.react env .can (Config.machine ⟨some .can, back, s⟩ []) reaction = .ok m) :
    Lands env mesg ⟨some .can, back, s⟩ m := by
  obtain ⟨l, rfl, hl⟩ := hw
  cases mesg with
  | ser c =>
    replace hsome : canSER env c s = some reaction := hsome
    unfold canSER at hsome
    split_ifs at hsome with hne hcan <;> cases hsome
    · rw [react_resume hl] at h
      cases h
      exact ⟨_, rfl, .resumedSER hne.1 hne.2⟩
    · obtain ⟨s', hs, hm⟩ := react_final _ h
      obtain ⟨t, ht, hs⟩ := bind_inv hs
      cases hs
      subst hcan
      exact ⟨_, hm, .rcvCancelled ht⟩
  | tm =>
    replace hsome : canTM s = some reaction := hsome
    unfold canTM at hsome
    split_ifs at hsome with hk
    cases hsome
    rw [react_resume hl] at h
    cases h
    exact ⟨_, rfl, .resumedTM hk⟩
  | kbC =>
    cases hsome
    obtain ⟨s', hs, hm⟩ := react_stay _ h
    cases hs
    exact ⟨_, hm, .kbCancelCan⟩
  | cont => cases hsome

theorem ancestors_sends (hl : leaf.sends = true) :
    ySenderSS.ancestors leaf = [leaf, .nonCan, .topLevel] := by
  cases leaf <;> cases hl <;> rfl

/-- The event is taken by the state `a`, above the states `below` that pass it on. -/
private theorem onMessageOf_taken (below : List SState) (a : SState) {above : List SState}
    (hanc : ySenderSS.ancestors leaf = below ++ a :: above)
    (hnone : ∀ b ∈ below, onMessage env b mesg s = none)
    (hsome : onMessage env a mesg s = some reaction) :
    ySenderSS.onMessageOf env mesg leaf (Config.machine ⟨some leaf, back, s⟩ []) =
      ySenderSS.react env a (Config.machine ⟨some leaf, back, s⟩ []) reaction :=
  Chart.onMessageOf_eq below hanc hnone hsome

private theorem react_of_taken (below : List SState) (a : SState) {above : List SState}
    (hanc : ySenderSS.ancestors leaf = below ++ a :: above)
    (hnone : ∀ b ∈ below, onMessage env b mesg s = none)
    (hsome : onMessage env a mesg s = some reaction)
    (h : ySenderSS.onMessageOf env mesg leaf (Config.machine ⟨some leaf, back, s⟩ []) = .ok m) :
    ySenderSS.react env a (Config.machine ⟨some leaf, back, s⟩ []) reaction = .ok m := by
  rw [← onMessageOf_taken below a hanc hnone hsome, h]

/-- The same as an event of the machine. -/
private theorem postEvent_taken (below : List SState) (a : SState) {above : List SState}
    (hanc : ySenderSS.ancestors leaf = below ++ a :: above)
    (hnone : ∀ b ∈ below, onMessage env b mesg s = none)
    (hsome : onMessage env a mesg s = some reaction) (posted : List Mesg) :
    ySenderSS.postEvent env mesg (Config.machine ⟨some leaf, back, s⟩ posted) =
      ySenderSS.react env a (Config.machine ⟨some leaf, back, s⟩ []) reaction >>=
        ySenderSS.sendPostedMessages env 1 0 := by
  show (ySenderSS.fireMessage env mesg (Config.machine ⟨some leaf, back, s⟩ []) >>=
    ySenderSS.sendPostedMessages env 1 0) = _
  rw [Chart.fireMessage_leaf (s := leaf) rfl, onMessageOf_taken below a hanc hnone hsome]

/-- Whatever the handlers do to a machine, the next configuration is one of `Trans`. -/
private theorem onMessageOf_lands (hw : Config.WellFormed ⟨some leaf, back, s⟩)
    (h : ySenderSS.onMessageOf env mesg leaf (Config.machine ⟨some leaf, back, s⟩ []) = .ok m) :
    Lands env mesg ⟨some leaf, back, s⟩ m := by
  by_cases hnone : ∀ a ∈ ySenderSS.ancestors leaf, onMessage env a mesg s = none
  · rw [Chart.onMessageOf_ignored hnone] at h
    cases h
    exact ⟨_, rfl, .ignored hnone⟩
  rcases hw.rests leaf rfl with hl | rfl
  · cases h₁ : onMessage env leaf mesg s with
    | some r => exact leaf_lands hl h₁ (react_of_taken [] leaf (ancestors_sends hl) (by simp) h₁ h)
    | none =>
      cases h₂ : onMessage env .nonCan mesg s with
      | some r =>
        exact nonCan_lands hl h₁ h₂
          (react_of_taken [leaf] .nonCan (ancestors_sends hl) (by simpa using h₁) h₂ h)
      | none =>
        cases h₃ : onMessage env .topLevel mesg s with
        | some r =>
          exact topLevel_lands h₁ h₃ (react_of_taken [leaf, .nonCan] .topLevel (ancestors_sends hl)
            (by simpa using ⟨h₁, h₂⟩) h₃ h)
        | none =>
          refine absurd ?_ hnone
          rw [ancestors_sends hl]
          simpa using ⟨h₁, h₂, h₃⟩
  · have hback : ∃ l, back = some l ∧ l.sends = true := by
      obtain ⟨l, hb⟩ := Option.ne_none_iff_exists'.mp (hw.held rfl)
      exact ⟨l, hb, hw.remembers l hb⟩
    cases h₁ : onMessage env .can mesg s with
    | some r => exact can_lands hback h₁ (react_of_taken [] .can rfl (by simp) h₁ h)
    | none =>
      cases h₃ : onMessage env .topLevel mesg s with
      | some r =>
        exact topLevel_lands h₁ h₃ (react_of_taken [.can] .topLevel rfl (by simpa using h₁) h₃ h)
      | none =>
        refine absurd ?_ hnone
        show ∀ a ∈ [SState.can, .topLevel], onMessage env a mesg s = none
        simpa using ⟨h₁, h₃⟩

/-- A transition to `FinalState`. -/
theorem postEvent_final (below : List SState) (a : SState) {above : List SState}
    (hanc : ySenderSS.ancestors leaf = below ++ a :: above)
    (hnone : ∀ b ∈ below, onMessage env b mesg s = none)
    (hsome : onMessage env a mesg s = final effect) (posted : List Mesg) :
    ySenderSS.postEvent env mesg (Config.machine ⟨some leaf, back, s⟩ posted) =
      effect s >>= fun s' => .ok (Config.machine ⟨none, back, s'⟩ []) := by
  rw [postEvent_taken below a hanc hnone hsome]
  show (effect s >>= fun ctx => .ok (Config.machine ⟨none, back, ctx⟩ [])) >>= _ = _
  cases effect s <;> rfl

/-- A transition from leaf to leaf that the leaf takes. -/
theorem postEvent_go {next : SState} {s' : SenderY} (hl : leaf.sends = true)
    (hn : next.sends = true) (hne : leaf ≠ next) (hsome : onMessage env leaf mesg s = go next effect)
    (hs : effect s = .ok s') (posted : List Mesg) :
    ySenderSS.postEvent env mesg (Config.machine ⟨some leaf, back, s⟩ posted) =
      .ok (Config.machine ⟨some next, back, s'⟩ []) := by
  have hexit : ySenderSS.executeExit leaf (some next) (Config.machine ⟨some leaf, back, s⟩ []) =
      .ok (some .nonCan, ⟨[], histOf back, true, [], s⟩) := by
    cases leaf <;> cases hl <;> cases next <;> cases hn <;> first | rfl | exact absurd rfl hne
  have hentry : ySenderSS.executeEntry env (some .nonCan) (some next)
      (⟨[], histOf back, true, [], s'⟩ : Machine) = .ok (Config.machine ⟨some next, back, s'⟩ []) := by
    cases next <;> cases hn <;> rfl
  rw [postEvent_taken [] leaf (ancestors_sends hl) (by simp) hsome]
  show (ySenderSS.executeExit leaf (some next) (Config.machine ⟨some leaf, back, s⟩ []) >>= fun p =>
    effect p.2.ctx >>= fun ctx => ySenderSS.executeEntry env p.1 (some next) { p.2 with ctx := ctx }) >>=
    _ = _
  rw [hexit, ok_bind, hs, ok_bind, hentry, ok_bind]
  exact Chart.sendPostedMessages_nil (Nat.le_refl 0)

/-- An internal transition that the leaf takes. -/
theorem postEvent_stay {s' : SenderY} (hl : leaf.sends = true)
    (hsome : onMessage env leaf mesg s = stay effect) (hs : effect s = .ok s') (posted : List Mesg) :
    ySenderSS.postEvent env mesg (Config.machine ⟨some leaf, back, s⟩ posted) =
      .ok (Config.machine ⟨some leaf, back, s'⟩ []) := by
  rw [postEvent_taken [] leaf (ancestors_sends hl) (by simp) hsome]
  show (effect s >>= fun ctx => .ok (Config.machine ⟨some leaf, back, ctx⟩ [])) >>= _ = _
  rw [hs, ok_bind, ok_bind]
  exact Chart.sendPostedMessages_nil (Nat.le_refl 0)

/-! ## The events that enter and leave `CAN` -/

/-- No leaf of `NON_CAN` handles a CAN byte. -/
private theorem can_passes (hl : leaf.sends = true) : onMessage env leaf (.ser CAN) s = none := by
  have hack : ¬ CAN = ACK := by decide
  have hnak : ¬ CAN = NAK := by decide
  have hncg : ¬ CAN = NCG := by decide
  cases leaf with
  | topLevel | nonCan | can => cases hl
  | acknak =>
    show acknakSER env CAN s = none
    simp only [acknakSER, hack, hnak, hncg, false_and, or_self, if_false]
  | eot1 =>
    show eot1SER env CAN s = none
    simp only [eot1SER, hack, hnak, hncg, false_and, if_false]
  | one =>
    show oneSER env CAN s = none
    simp only [oneSER, hnak, hncg, false_and, if_false]
  | eoteot =>
    show eoteotSER env CAN s = none
    simp only [eoteotSER, hack, hnak, false_and, if_false]
  | statC =>
    show statCSER env CAN s = none
    simp only [statCSER, hncg, false_and, if_false]
  | acknakstat =>
    show acknakstatSER env CAN s = none
    simp only [acknakstatSER, hack, hnak, hncg, false_and, or_self, if_false]

/-- A CAN byte read while a leaf of `NON_CAN` is active. -/
theorem postEvent_can (hl : leaf.sends = true) (posted : List Mesg) :
    ySenderSS.postEvent env (.ser CAN) (Config.machine ⟨some leaf, back, s⟩ posted) =
      .ok (Config.machine ⟨some .can, some leaf, s.peer (·.tmPush env.elapsed TM_CHAR)⟩ []) := by
  have hleaf : ∀ b ∈ [leaf], onMessage env b (.ser CAN) s = none := by
    intro b hb
    rw [List.mem_singleton.mp hb]
    exact can_passes hl
  have hsome : onMessage env .nonCan (.ser CAN) s =
      go .can fun s => .ok (s.peer (·.tmPush env.elapsed TM_CHAR)) := by
    show nonCanSER env CAN s = _
    have hnak : ¬ CAN = NAK := by decide
    rw [nonCanSER, if_neg (fun h => hnak h.1), if_pos rfl]
  rw [postEvent_taken [leaf] .nonCan (ancestors_sends hl) hleaf hsome, react_can hl, ok_bind, ok_bind]
  exact Chart.sendPostedMessages_nil (Nat.le_refl 0)

/-- What ends the wait for a second CAN byte without one. -/
theorem postEvent_resume (hl : leaf.sends = true) (hk : s.kbCan = false)
    (hm : mesg = .tm ∨ ∃ c, c ≠ CAN ∧ mesg = .ser c) (posted : List Mesg) :
    ySenderSS.postEvent env mesg (Config.machine ⟨some .can, some leaf, s⟩ posted) =
      .ok (Config.machine ⟨some leaf, some leaf, s.peer (·.tmPop)⟩ []) := by
  have hsome : onMessage env .can mesg s = go .nonCan fun s => .ok (s.peer (·.tmPop)) := by
    rcases hm with rfl | ⟨c, hc, rfl⟩
    · exact if_pos hk
    · exact if_pos ⟨hc, hk⟩
  rw [postEvent_taken [] .can rfl (by simp) hsome, react_resume hl, ok_bind, ok_bind]
  exact Chart.sendPostedMessages_nil (Nat.le_refl 0)

/-- The second CAN byte. -/
theorem postEvent_rcvCancelled (posted : List Mesg) :
    ySenderSS.postEvent env (.ser CAN) (Config.machine ⟨some .can, back, s⟩ posted) =
      s.closeTransferredFile env >>= fun s' =>
        .ok (Config.machine ⟨none, back, s'.clearCan.peer (·.addResult "RcvCancelled")⟩ []) := by
  have hsome : onMessage env .can (.ser CAN) s =
      final fun s => do
        let s ← s.closeTransferredFile env
        return s.clearCan.peer (·.addResult "RcvCancelled") := by
    show canSER env CAN s = _
    rw [canSER, if_neg (by simp), if_pos rfl]
  rw [postEvent_final [] .can rfl (by simp) hsome]
  show (s.closeTransferredFile env >>= fun s' =>
    .ok (s'.clearCan.peer (·.addResult "RcvCancelled"))) >>= _ = _
  cases s.closeTransferredFile env <;> rfl

end Runtime

/-! ## Machines between two events -/

/-- The configuration a machine is in. -/
def configOf (m : Machine) : Config := ⟨m.active.head?, m.history .nonCan, m.ctx⟩

@[simp] theorem configOf_machine (v : Config) (posted : List Mesg) :
    configOf (v.machine posted) = v := by
  obtain ⟨leaf, back, ctx⟩ := v
  cases leaf <;> rfl

/-- A machine between two events. -/
structure Settled (m : Machine) : Prop where
  wellFormed : (configOf m).WellFormed
  shape : m = (configOf m).machine m.posted

theorem Settled.of_machine {v : Config} (hw : v.WellFormed) (posted : List Mesg) :
    Settled (v.machine posted) :=
  ⟨by rwa [configOf_machine], by rw [configOf_machine]; rfl⟩

/-- Between two events the context may be changed from outside. -/
theorem Settled.withCtx {m : Machine} (hm : Settled m) (ctx : SenderY) :
    Settled { m with ctx := ctx } :=
  ⟨⟨hm.wellFormed.rests, hm.wellFormed.remembers, hm.wellFormed.held⟩,
    congrArg (fun n : Machine => { n with ctx := ctx }) hm.shape⟩

theorem Settled.active_eq {m : Machine} (hm : Settled m) : m.active = (configOf m).leaf.toList := by
  conv_lhs => rw [hm.shape]
  rfl

theorem Settled.running_eq {m : Machine} (hm : Settled m) :
    m.running = (configOf m).leaf.isSome := by
  conv_lhs => rw [hm.shape]
  rfl

/-- **One event, one transition.** -/
theorem step_trans {m m' : Machine} {e : Env × Mesg} (hm : Settled m)
    (h : ySenderSS.Step m e m') : Settled m' ∧ Trans e.1 e.2 (configOf m) (configOf m') := by
  obtain ⟨env, mesg⟩ := e
  obtain ⟨hw, hshape⟩ := hm
  unfold Chart.Step at h
  rw [hshape] at h
  generalize configOf m = v at hw h ⊢
  obtain ⟨leaf, back, s⟩ := v
  cases leaf with
  | none => cases h
  | some leaf =>
    obtain ⟨m₁, hfire, hposted⟩ := bind_inv (show ySenderSS.fireMessage env mesg
      (Config.machine ⟨some leaf, back, s⟩ []) >>= ySenderSS.sendPostedMessages env 1 0 = .ok m'
      from h)
    rw [Chart.fireMessage_leaf (s := leaf) rfl] at hfire
    obtain ⟨v', rfl, ht⟩ := onMessageOf_lands hw hfire
    rw [Chart.sendPostedMessages_nil (Nat.le_refl 0)] at hposted
    cases hposted
    rw [configOf_machine]
    exact ⟨Settled.of_machine (ht.wellFormed hw) [], ht⟩

/-- An event that leads the configuration of a machine to another one leads the machine there. -/
theorem Settled.step {m : Machine} {env : Env} {mesg : Mesg} {v v' : Config} (hm : Settled m)
    (hv : configOf m = v)
    (h : ∀ posted, ySenderSS.postEvent env mesg (v.machine posted) = .ok (v'.machine [])) :
    ∃ m', ySenderSS.Step m (env, mesg) m' ∧ configOf m' = v' := by
  refine ⟨v'.machine [], ?_, configOf_machine v' []⟩
  unfold Chart.Step
  rw [hm.shape, hv]
  exact h m.posted

/-- The context when the first stat block has been prepared. -/
def startedCtx (env : Env) (s : SenderY) : SenderY := wait env { clearErr s with kbCan := false }

theorem start_inv {env : Env} {files : List File} {blkBufs : Fin 2 → Blk} {m : Machine}
    (h : ySenderSS.start env (SenderY.init files blkBufs) = .ok m) :
    Settled m ∧ ∃ s, (SenderY.init files blkBufs).prepStatBlk env = .ok s ∧
      configOf m = ⟨some .statC, none, startedCtx env s⟩ := by
  have hist : histOf none = fun _ => none := by
    funext st
    simp [histOf]
  obtain ⟨m₁, henter, h⟩ := bind_inv h
  obtain ⟨p, hentry, henter⟩ := bind_inv henter
  obtain ⟨s, hs, hp⟩ := bind_inv (show (SenderY.init files blkBufs).prepStatBlk env >>= _ = .ok p
    from hentry)
  cases hp
  cases henter
  cases h
  have hm : (⟨[.statC], fun _ => none, true, [], startedCtx env s⟩ : Machine) =
      Config.machine ⟨some .statC, none, startedCtx env s⟩ [] := by
    rw [Config.machine, hist]
    rfl
  refine ⟨?_, s, hs, rfl⟩
  show Settled (⟨[.statC], fun _ => none, true, [], startedCtx env s⟩ : Machine)
  rw [hm]
  exact Settled.of_machine ⟨by simp [SState.sends], by simp, by simp⟩ []

/-- A sender that has just been started on a list of files. -/
def Started (files : List File) (m : Machine) : Prop :=
  ∃ env blkBufs, ySenderSS.start env (SenderY.init files blkBufs) = .ok m

theorem Started.settled {files : List File} {m : Machine} (h : Started files m) : Settled m := by
  obtain ⟨env, blkBufs, h⟩ := h
  exact (start_inv h).1

theorem run_settled {m m' : Machine} {es : List (Env × Mesg)} (hm : Settled m)
    (h : Run ySenderSS.Step m es m') : Settled m' :=
  h.invariant (I := Settled) (fun hs hst => (step_trans hs hst).1) hm

end YModem.Sender
