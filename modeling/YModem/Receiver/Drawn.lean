import YModem.Peer.Arrows
import YModem.Receiver.Runtime

/-!
# The receiver's chart as it is drawn (`yReceiver.smc`)

The generated handlers and the runtime do what the drawn chart says in every run in which no CAN
arrives while a state of `DataCancelable` is active. The history mark of `NON_CAN` would then
remember `DataCancelable`, and the runtime, which only lets the state around a leaf remember it,
keeps what was remembered before.
-/

namespace YModem.Receiver

open YModem.Lib YModem.Peer YModem.SmartState
open Peer.Drawn

namespace Drawn

abbrev RArrow := Arrow RState Mesg Env ReceiverY Fault

/-- Where the initial arrows lead. -/
def initial : RState → Option RState
  | .topLevel => some .nonCan
  | .nonCan => some .firstByteStat
  | .dataCancelable => some .firstByteData
  | _ => none

/-- The history marks. -/
def history : RState → Bool
  | .topLevel | .nonCan => true
  | _ => false

def entry (env : Env) (st : RState) (r : ReceiverY) : Except Fault (ReceiverY × List Mesg) :=
  match st with
  | .topLevel =>
    let r := { r.peer (·.sendByte NCG) with closeProb := -1, errCnt := 0 }
    .ok ({ r.peer (·.tm env.elapsed TM_SOH) with kbCan := false }, [])
  | .condTransientData => .ok (r.peer (·.tm env.elapsed 0), [])
  | .condTransientCheck | .condTransientOpen | .condTransientEOT | .condlTransientStat =>
    .ok (r, [.cont])
  | _ => .ok (r, [])

def arrows : RState → List RArrow
  | .topLevel =>
    [kbC (some .topLevel) (fun _ => true) fun _ r => .ok { r with kbCan := true },
      ser none (fun _ _ => true) fun _ r => .ok <|
        let r := r.purge.cans
        if r.kbCan then r.peer (·.addResult "KbCancelled (delayed)")
        else r.peer (·.addResult "ExcessiveErrors"),
      tm none (fun _ => true) fun _ r => .ok <|
        let r := r.cans
        if r.kbCan then r.peer (·.addResult "KbCancelled")
        else r.peer (·.addResult "ExcessiveErrors")]
  | .nonCan =>
    [ser (some .nonCan) (fun c r => !r.kbCan && c != CAN) fun _ r => .ok r.purge,
      ser (some .can) (fun c _ => c == CAN) fun env r =>
        .ok (r.peer (·.tmPush env.elapsed TM_2CHAR)),
      tm (some .nonCan) (fun r => decide (r.errCnt < errB) && !r.kbCan) fun env r => .ok <|
        let r := if r.transferringFileD = -1 then r.peer (·.sendByte NCG) else r.peer (·.sendByte NAK)
        countAndWait env r]
  | .firstByteStat =>
    [ser none (fun c r => c == EOT && r.closeProb == 0 && decide (errB ≤ r.errCnt)) fun _ r =>
        .ok (r.cans.peer (·.addResult "ExcessiveEOTs")),
      ser (some .firstByteStat) (fun c r => c == EOT && r.closeProb == 0 && decide (r.errCnt < errB))
        fun env r => .ok (countAndWait env ((r.peer (·.sendByte ACK)).peer (·.sendByte NCG))),
      ser (some .condlTransientStat) (fun c r => !r.kbCan && c == SOH) fun env r => .ok <|
        let r := r.getRestBlk env
        if r.closeProb = 0 then { r with errCnt := 0, closeProb := -1 } else r]
  | .dataCancelable =>
    [ser (some .condTransientData) (fun c r => !r.kbCan && c == SOH) fun env r => .ok <|
        let r := r.getRestBlk env
        if r.goodBlk1st then { r with errCnt := 0, anotherFile := 0 } else r.peer (·.incErrCnt)]
  | .firstByteData =>
    [ser (some .eot) (fun c r => !r.kbCan && c == EOT) fun env r =>
        .ok (countAndWait env (r.purge.peer (·.sendByte NAK)))]
  | .eot =>
    [ser (some .condTransientEOT) (fun c _ => c == EOT) fun env r => .ok (r.closeTransferredFile env)]
  | .condTransientData =>
    [kbC none (fun _ => true) fun _ r =>
        .ok (r.cans.peer (·.addResult "kbCancelled (immediate)")),
      tm (some .dataCancelable) (fun r => !r.syncLoss && decide (r.errCnt < errB)) fun env r => .ok <|
        let r :=
          if r.goodBlk then
            let r := r.peer (·.sendByte ACK)
            if r.anotherFile ≠ 0 then r.peer (·.sendByte NCG) else r
          else r.peer (·.sendByte NAK)
        let r := if r.goodBlk1st then r.writeChunk else r
        r.peer (·.tm env.elapsed TM_SOH),
      tm none (fun r => r.syncLoss || decide (errB ≤ r.errCnt)) fun env r => .ok <|
        let r := r.cans.closeTransferredFile env
        if r.syncLoss then r.peer (·.addResult "LossOfSyncronization")
        else r.peer (·.addResult "ExcessiveErrors"),
      ser (some .condTransientData) (fun _ _ => true) fun _ r => .ok r.purge]
  | .condTransientCheck =>
    [cont (some .areWeDone) (fun r => r.anotherFile == 0) fun env r =>
        .ok ((r.peer (·.sendByte ACK)).peer (·.tm env.elapsed TM_SOH)),
      cont (some .condTransientOpen) (fun r => r.anotherFile != 0) fun env r =>
        r.openFileForTransfer env]
  | .condTransientOpen =>
    [cont (some .firstByteData) (fun r => r.transferringFileD != -1) fun env r =>
        .ok (((r.peer (·.sendByte ACK)).peer (·.sendByte NCG)).peer (·.tm env.elapsed TM_SOH)),
      cont none (fun r => r.transferringFileD == -1) fun _ r =>
        .ok (r.cans.peer (·.addResult "CreatError"))]
  | .condTransientEOT =>
    [cont (some .firstByteStat) (fun r => r.closeProb == 0) fun env r => .ok <|
        let r := (r.peer (·.sendByte ACK)).peer (·.sendByte NCG)
        let r := { r.peer (·.addResult "Done, ") with errCnt := 0 }
        r.peer (·.tm env.elapsed TM_SOH),
      cont none (fun r => r.closeProb != 0) fun _ r => .ok (r.cans.peer (·.addResult "CloseError"))]
  | .condlTransientStat =>
    [cont (some .firstByteStat)
        (fun r => !r.syncLoss && decide (r.errCnt < errB) && !r.goodBlk) fun env r =>
          .ok (countAndWait env (r.peer (·.sendByte NAK))),
      cont (some .condTransientCheck)
        (fun r => !r.syncLoss && decide (r.errCnt < errB) && r.goodBlk) fun _ r =>
          .ok r.checkForAnotherFile,
      cont none (fun r => r.syncLoss || decide (errB ≤ r.errCnt)) fun _ r => .ok <|
        let r := r.cans
        if r.syncLoss then r.peer (·.addResult "LossOfSync at Stat Blk")
        else r.peer (·.addResult "ExcessiveErrors at Stat")]
  | .areWeDone =>
    [tm none (fun _ => true) fun _ r => .ok (r.peer (·.addResult "EndOfSession")),
      ser (some .condlTransientStat) (fun c r => !r.kbCan && c == SOH) fun env r =>
        .ok ((r.getRestBlk env).peer (·.incErrCnt))]
  | .can =>
    [ser (some .nonCan) (fun c r => c != CAN && !r.kbCan) fun _ r =>
        .ok (r.purge.peer (·.tmPop)),
      ser none (fun c _ => c == CAN) fun env r =>
        .ok ((r.closeTransferredFile env).clearCan.peer (·.addResult "SndCancelled")),
      tm (some .nonCan) (fun r => !r.kbCan) fun _ r => .ok (r.peer (·.tmPop))]

end Drawn

/-- The chart of the file `yReceiver.smc`. -/
def yReceiver : Statechart RState Mesg Env ReceiverY Fault where
  top := .topLevel
  parent := RState.parent
  initial := Drawn.initial
  history := Drawn.history
  entry := Drawn.entry
  arrows := Drawn.arrows

section Agreement

variable {env : Env} {mesg : Mesg} {st : RState} {r : ReceiverY}

theorem sameTree : SameTree yReceiverSS yReceiver where
  top := rfl
  parent := rfl
  path := by
    intro st
    cases st <;> repeat first | exact .top rfl | refine .inner rfl ?_
  initial := by intro st; cases st <;> rfl
  inside := by
    intro st i h
    cases st <;> cases h <;> rfl
  history := by
    funext st
    cases st <;> rfl

/-- No two arrows out of one state are for the same message at once. -/
theorem arrows_apart (st : RState) (mesg : Mesg) (r : ReceiverY) :
    (yReceiver.arrows st).Pairwise fun a b => ¬ (a.guard mesg r = true ∧ b.guard mesg r = true) := by
  cases st <;> cases mesg <;>
    simp +contextual [yReceiver, Drawn.arrows, ser, tm, kbC, cont, SOH, EOT, CAN, or_imp]

/-- The handlers try the guards of the arrows in the order in which they are listed. -/
theorem onMessage_eq_find? (env : Env) (st : RState) (mesg : Mesg) (r : ReceiverY) :
    onMessage env st mesg r =
      ((yReceiver.arrows st).find? (·.guard mesg r)).map (reactionOf st env) := by
  delta onMessage
  cases st <;> cases mesg <;>
    simp [topLevelKB_C, topLevelSER, topLevelTM, nonCanSER, nonCanTM, dataCancelableSER,
      firstByteDataSER, eotSER, condTransientDataKB_C, condTransientDataTM, condTransientDataSER,
      firstByteStatSER, condTransientCheckCONT, condTransientOpenCONT, condTransientEOTCONT,
      condlTransientStatCONT, areWeDoneTM, areWeDoneSER, canSER, canTM, stay, go, final, yReceiver,
      Drawn.arrows, ser, tm, kbC, cont, find?_cons_map, reactionOf, and_assoc]
  -- Where the guards of two arrows are each other's negation, the handler tests one of them.
  case condTransientCheck.cont => by_cases h : r.anotherFile = 0 <;> simp [h, reactionOf]
  case condTransientOpen.cont => by_cases h : r.transferringFileD = -1 <;> simp [h]
  case condTransientEOT.cont => by_cases h : r.closeProb = 0 <;> simp [h, reactionOf]

theorem mem_outward (st : RState) : ∀ tgt ∈ (yReceiver.arrows st).filterMap (·.target), tgt ≠ st →
    st ∉ yReceiverSS.ancestors tgt := by
  cases st <;> decide

/-- Only a CAN leads to the state `CAN`. -/
theorem can_of_target (caller : RState) : ∀ a ∈ yReceiver.arrows caller, a.target = some .can →
    a.guard mesg r = true → mesg = .ser CAN := by
  cases caller <;> cases mesg <;> simp [yReceiver, Drawn.arrows, ser, tm, kbC, cont]

/-- The history pointers remember what the history marks do, unless a CAN ends what is going on in
`DataCancelable`. -/
theorem remembers {leaf : RState} (hcan : mesg = .ser CAN → leaf.dataLeaf = false) :
    SmartState.Remembers yReceiverSS yReceiver leaf mesg := by
  have hall : ∀ caller ∈ yReceiverSS.ancestors leaf,
      ∀ tgt ∈ (yReceiver.arrows caller).filterMap (·.target), tgt ≠ caller →
        (tgt = .can → leaf.dataLeaf = false) →
        ∀ root ∈ yReceiverSS.getRoot caller tgt, caller ≠ root ∧
          SameTree.Marked yReceiverSS leaf caller
            ((yReceiverSS.ancestors leaf).takeWhile fun p => !decide (p = root)) := by
    unfold SameTree.Marked
    cases leaf <;> decide
  refine sameTree.remembers fun caller hmem a ha hg tgt root ht hne hroot => ?_
  refine hall caller hmem tgt (List.mem_filterMap.mpr ⟨a, ha, ht⟩) hne ?_ root hroot
  rintro rfl
  obtain ⟨ctx, hg⟩ := hg
  exact hcan (can_of_target caller a ha ht hg)

/-- What is remembered is the same exactly when no CAN ends what is going on in `DataCancelable`. -/
theorem remembers_iff {leaf : RState} : SmartState.Remembers yReceiverSS yReceiver leaf mesg ↔
    (mesg = .ser CAN → leaf.dataLeaf = false) := by
  refine ⟨?_, remembers⟩
  rintro h rfl
  by_contra hdata
  have hleaf := RState.dataLeaf_cases (Bool.not_eq_false _ ▸ hdata)
  have hcaller : .nonCan ∈ yReceiverSS.ancestors leaf := by
    rcases hleaf with rfl | rfl <;> decide
  -- The mark of `NON_CAN` remembers `DataCancelable`, and the pointer of `NON_CAN` is not touched.
  have hhist := h .nonCan hcaller _ (.tail _ (.head _)) ⟨.init .blank, rfl⟩ .can .topLevel rfl
    (by decide) rfl ⟨[leaf], fun _ => none, true, [], .init .blank⟩ rfl
  have hback := congrFun hhist .nonCan
  rcases hleaf with rfl | rfl <;> cases hback

theorem entry_posts (env : Env) (st : RState) (r r' : ReceiverY) (posts : List Mesg)
    (h : yReceiver.entry env st r = .ok (r', posts)) : ∀ mesg ∈ posts, mesg = .cont := by
  cases st <;> cases h <;> simp

theorem implements : Implements yReceiverSS yReceiver where
  toSameTree := sameTree
  entry := by
    funext env st r
    cases st <;> rfl
  reaction env st mesg r :=
    reaction_of_find? (onMessage_eq_find? env st mesg r) (arrows_apart st mesg r)
  outward := by
    intro st a ha tgt ht hne
    exact mem_outward st tgt (List.mem_filterMap.mpr ⟨a, ha, ht⟩) hne
  posts env st r r' posts h mesg hmem leaf := by
    obtain rfl := entry_posts env st r r' posts h mesg hmem
    exact remembers (by simp)

/-! ## Whole sessions -/

theorem openFileForTransfer_ne_rounds : r.openFileForTransfer env ≠ .error .rounds := by
  cases hname : cString (r.rcvBlk.val.drop DATA_POS) with
  | none =>
    rw [ReceiverY.openFileForTransfer, hname]
    simp
  | some fileName =>
    rw [ReceiverY.openFileForTransfer_of_name hname, ReceiverY.readSize]
    split
    · simp
    · split <;> simp

/-- An event never causes more posted messages than the model of the runtime allows for. -/
theorem enoughRounds {m : Machine} (hm : Settled m) (e : Env × Mesg) :
    EnoughRounds yReceiverSS m e := by
  obtain ⟨env, mesg⟩ := e
  intro m₁ hfire hrounds
  cases hrunning : m.running with
  | false =>
    rw [hm.running_eq, Option.isSome_eq_false_iff, Option.isNone_iff_eq_none] at hrunning
    have hactive : m.active = [] := by rw [hm.active_eq, hrunning]; rfl
    simp only [Chart.fireMessage, hactive, List.foldlM_nil] at hfire
    cases hfire
    cases (Chart.sendPostedMessages_nil (Nat.le_refl 0)).symm.trans hrounds
  | true =>
    have hpost : yReceiverSS.postEvent env mesg m = .error .rounds :=
      (Chart.postEvent_eq hrunning hfire).trans hrounds
    obtain ⟨leaf, hactive⟩ := hm.active_of_running hrunning
    have hrests := hm.wellFormed.rests leaf (by rw [config_of_active hactive]; rfl)
    rw [hm.shape] at hpost
    rcases Trans.total env mesg (m.history .nonCan) m.ctx hrests with ⟨v, hv⟩ | hf
    · rw [← config_of_active hactive] at hv
      obtain ⟨ps, hok⟩ := hv.postEvent hm.wellFormed m.posted
      cases hok.symm.trans hpost
    · rw [← config_of_active hactive] at hf
      obtain ⟨f, r, hopen, hf⟩ := hf.postEvent_open m.posted
      cases hf.symm.trans hpost
      exact openFileForTransfer_ne_rounds hopen

theorem opens_start : yReceiver.Opens (fun _ => none) yReceiver.top [.firstByteStat, .nonCan] := by
  have h : yReceiver.Opens (fun _ => none) .topLevel (([] ++ [.firstByteStat]) ++ [.nonCan]) :=
    .inner rfl (.inner rfl (.leaf rfl))
  exact h

/-- No CAN arrives while a state of `DataCancelable` is active. -/
def CanApart (m : Machine) (es : List (Env × Mesg)) : Prop :=
  ∀ es₁ e es₂ t, es = es₁ ++ e :: es₂ → Run yReceiverSS.Step m es₁ t → e.2 = .ser CAN →
    ∀ leaf ∈ t.active, leaf.dataLeaf = false

/-- **The receiver's machine has the sessions that its drawn chart has**, as long as no CAN arrives
while a state of `DataCancelable` is active. -/
theorem receiver_follows_chart {rcvBlk : RcvBlk} {es : List (Env × Mesg)}
    {v : ChartState RState ReceiverY}
    (hcan : ∀ m₀, yReceiverSS.start env (.init rcvBlk) = .ok m₀ → CanApart m₀ es) :
    (∃ m₀ m, yReceiverSS.start env (.init rcvBlk) = .ok m₀ ∧ Run yReceiverSS.Step m₀ es m ∧
        yReceiverSS.view m = v) ↔
      ∃ v₀, yReceiver.Starts env (.init rcvBlk) v₀ ∧ Run yReceiver.Step v₀ es v := by
  have hquiet : ∀ st ∈ [.firstByteStat, .nonCan] ++ [yReceiver.top], ∀ r r' posts,
      yReceiver.entry env st r = .ok (r', posts) → posts = [] := by
    intro st hst r r' posts h
    simp only [yReceiver, List.cons_append, List.nil_append, List.mem_cons, List.not_mem_nil,
      or_false] at hst
    rcases hst with rfl | rfl | rfl <;> cases h <;> rfl
  refine implements.session_iff opens_start hquiet ?_ ?_
  · intro m₀ hstart es₁ e es₂ t hes hrun leaf hleaf
    exact remembers fun hser => hcan m₀ hstart es₁ e es₂ t hes hrun hser leaf hleaf
  · intro m₀ es₁ t e hstart hrun
    have ht : Reachable t := ⟨m₀, es₁, ⟨env, rcvBlk, hstart⟩, hrun⟩
    exact enoughRounds ht.settled e

/-- A CAN that arrives before the first block. -/
theorem receiver_follows_chart_interrupted : ∃ v₀ v,
    yReceiver.Starts (.calm []) (.init .blank) v₀ ∧
      Run yReceiver.Step v₀ [(.calm [], .ser CAN)] v ∧ v.active = [.can, .topLevel] := by
  have hstart := start_eq (.calm []) .blank
  have hcan : ∀ m₀, yReceiverSS.start (.calm []) (.init .blank) = .ok m₀ →
      CanApart m₀ [(.calm [], .ser CAN)] := by
    intro m₀ h es₁ e es₂ t hes hrun _ leaf hleaf
    obtain rfl := Except.ok.inj (hstart.symm.trans h)
    cases es₁ with
    | nil =>
      cases hrun.nil_inv rfl
      obtain rfl := List.mem_singleton.mp hleaf
      rfl
    | cons e' es₁ => simp at hes
  have hsettled := Started.settled ⟨_, _, hstart⟩
  obtain ⟨m, hstep, hconfig⟩ := (Trans.interrupted rfl).step hsettled
  obtain ⟨v₀, hv₀, hrun⟩ := (receiver_follows_chart hcan).mp ⟨_, m, hstart, Run.single hstep, rfl⟩
  refine ⟨v₀, _, hv₀, hrun, ?_⟩
  have hleaf : m.active.head? = some .can := congrArg Config.leaf hconfig
  simp only [Chart.view, hleaf]
  rfl

end Agreement

end YModem.Receiver
