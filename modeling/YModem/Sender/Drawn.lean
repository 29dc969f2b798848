import YModem.Peer.Arrows
import YModem.Sender.Trace

/-!
# The sender's chart as it is drawn (`ySender.smc`)

The chart file has the states, where the initial arrows lead, the history mark of `NON_CAN`, and
the arrows with their messages, guards and actions, from which `ySenderSS.cpp` was generated. The
generated handlers, executed by the runtime, do in every run what the drawn chart says, in which
the order of the arrows out of a state has no meaning.
-/

namespace YModem.Sender

open YModem.Lib YModem.Peer YModem.SmartState
open Peer.Drawn

namespace Drawn

abbrev SArrow := Arrow SState Mesg Env SenderY Fault

/-- Where the initial arrows lead. -/
def initial : SState → Option SState
  | .topLevel => some .nonCan
  | .nonCan => some .statC
  | _ => none

/-- The history marks. -/
def history : SState → Bool
  | .nonCan => true
  | _ => false

def entry (env : Env) (st : SState) (s : SenderY) : Except Fault (SenderY × List Mesg) :=
  match st with
  | .topLevel => do
    let s ← s.prepStatBlk env
    return (wait env { clearErr s with kbCan := false }, [])
  | _ => .ok (s, [])

def arrows : SState → List SArrow
  | .topLevel =>
    [tm none (fun _ => true) fun env s => do
        let s ← s.cans.closeTransferredFile env
        if s.kbCan then return s.peer (·.addResult "KbCancelled")
        else return s.peer (·.addResult "Timeout"),
      ser none (fun c s => s.kbCan && (c == ACK || c == NAK || c == NCG))
        fun env => cancel env "KbCancelled"]
  | .nonCan =>
    [ser none (fun c s => c == NAK && decide (errB ≤ s.errCnt)) fun env =>
        cancel env "ExcessiveNAKs",
      ser (some .can) (fun c _ => c == CAN) fun env s =>
        .ok (s.peer (·.tmPush env.elapsed TM_CHAR)),
      kbC (some .nonCan) (fun s => !s.kbCan) fun _ s =>
        .ok ({ s with kbCan := true }.peer (·.tmRed (TM_VL - TM_2CHAR)))]
  | .acknak =>
    [ser (some .acknak)
        (fun c s => (c == NAK || (c == NCG && s.firstBlk)) && decide (s.errCnt < errB) && !s.kbCan)
        fun env s => .ok (wait env (s.resendBlk.peer (·.incErrCnt))),
      ser (some .eot1) (fun c s => c == ACK && s.bytesRd == 0 && !s.kbCan) fun env s => do
        let s ← (clearErr (sendEOT s)).closeTransferredFile env
        return wait env s,
      ser (some .acknak) (fun c s => c == ACK && s.bytesRd != 0 && !s.kbCan) fun env s => do
        let s ← s.sendBlkPrepNext
        return { wait env (clearErr s) with firstBlk := false }]
  | .eot1 =>
    [ser (some .eot1) (fun c s => c == NCG && s.firstBlk && decide (s.errCnt < errB)) fun env s =>
        .ok (wait env ((sendEOT s).peer (·.incErrCnt))),
      ser (some .statC) (fun c s => c == ACK && !s.kbCan) fun env s => do
        let s ← s.prepStatBlk env
        return wait env s,
      ser (some .eoteot) (fun c s => c == NAK && !s.kbCan) fun env s =>
        .ok { wait env (clearErr (sendEOT s)) with firstBlk := false }]
  | .one =>
    [ser (some .eot1) (fun c s => c == NCG && s.bytesRd == 0 && !s.kbCan) fun env s =>
        (clearErr (wait env (sendEOT s))).closeTransferredFile env,
      ser (some .acknak) (fun c s => c == NCG && s.bytesRd != 0 && !s.kbCan) fun env s => do
        let s ← s.sendBlkPrepNext
        return clearErr (wait env s),
      ser (some .acknakstat) (fun c s => c == NAK && !s.kbCan) fun env s =>
        .ok (wait env (s.resendBlk.peer (·.incErrCnt)))]
  | .eoteot =>
    [ser (some .eoteot) (fun c s => c == NAK && !s.kbCan && decide (s.errCnt < errB)) fun env s =>
        .ok (wait env ((sendEOT s).peer (·.incErrCnt))),
      ser (some .statC) (fun c s => c == ACK && !s.kbCan) fun env s => do
        let s ← (s.peer (·.addResult "Done, ")).prepStatBlk env
        return wait env s]
  | .statC =>
    [ser none (fun c s => c == NCG && s.fileName.isSome && s.transferringFileD == -1) fun _ s =>
        .ok (s.cans.peer (·.addResult "OpenError")),
      ser (some .acknakstat) (fun c s => c == NCG && s.transferringFileD != -1) fun env s => do
        let s ← s.sendBlkPrepNext
        return wait env (clearErr s),
      kbC none (fun _ => true) fun env s =>
        if s.transferringFileD = -1 then .ok (s.peer (·.setResult "KbCancelledOpenErr"))
        else do
          let s ← s.closeTransferredFile env
          return s.peer (·.setResult "KbCancelledFromStatC")]
  | .acknakstat =>
    [ser (some .one) (fun c s => c == ACK && s.fileName.isSome && !s.kbCan) fun env s =>
        .ok (wait env { s with firstBlk := true }),
      ser (some .acknakstat) (fun c s => (c == NAK || c == NCG) && !s.kbCan) fun env s =>
        .ok (wait env (s.resendBlk.peer (·.incErrCnt))),
      ser none (fun c s => c == ACK && s.fileName.isNone) fun _ s =>
        .ok (s.peer (·.addResult "EndOfSession"))]
  | .can =>
    [kbC (some .can) (fun _ => true) fun _ s => .ok { s with kbCan := true },
      ser (some .nonCan) (fun c s => c != CAN && !s.kbCan) fun _ s => .ok (s.peer (·.tmPop)),
      ser none (fun c _ => c == CAN) fun env s => do
        let s ← s.closeTransferredFile env
        return s.clearCan.peer (·.addResult "RcvCancelled"),
      tm (some .nonCan) (fun s => !s.kbCan) fun _ s => .ok (s.peer (·.tmPop))]

end Drawn

/-- The chart of the file `ySender.smc`. -/
def ySender : Statechart SState Mesg Env SenderY Fault where
  top := .topLevel
  parent := SState.parent
  initial := Drawn.initial
  history := Drawn.history
  entry := Drawn.entry
  arrows := Drawn.arrows

section Agreement

variable {env : Env} {mesg : Mesg} {st : SState} {s : SenderY}

theorem sameTree : SameTree ySenderSS ySender where
  top := rfl
  parent := rfl
  path := by
    intro st
    cases st <;> repeat first | exact .top rfl | refine .inner rfl ?_
  initial := by intro st; cases st <;> rfl
  inside := by
    intro st i h
    cases st <;> cases h <;> rfl
  history := by
    funext st
    cases st <;> rfl

/-- No two arrows out of one state are for the same message at once. -/
theorem arrows_apart (st : SState) (mesg : Mesg) (s : SenderY) :
    (ySender.arrows st).Pairwise fun a b => ¬ (a.guard mesg s = true ∧ b.guard mesg s = true) := by
  cases st <;> cases mesg <;>
    simp +contextual [ySender, Drawn.arrows, ser, tm, kbC, ACK, NAK, NCG, CAN, or_imp]

/-- The handlers try the guards of the arrows in the order in which they are listed. -/
theorem onMessage_eq_find? (env : Env) (st : SState) (mesg : Mesg) (s : SenderY) :
    onMessage env st mesg s =
      ((ySender.arrows st).find? (·.guard mesg s)).map (reactionOf st env) := by
  delta onMessage
  cases st <;> cases mesg <;>
    simp [topLevelTM, topLevelSER, nonCanSER, nonCanKB_C, acknakSER, eot1SER, oneSER,
      eoteotSER, statCSER, statCKB_C, acknakstatSER, canKB_C, canSER, canTM, stay, go, final, ySender,
      Drawn.arrows, ser, tm, kbC, find?_cons_map, reactionOf, and_assoc, or_assoc,
      Option.isSome_iff_ne_none]

/-- An arrow between two states leaves its own, and the history pointers remember what the mark of
`NON_CAN` does. -/
theorem remembers (leaf : SState) (mesg : Mesg) : Remembers ySenderSS ySender leaf mesg := by
  have hall : ∀ caller ∈ ySenderSS.ancestors leaf,
      ∀ tgt ∈ (ySender.arrows caller).filterMap (·.target), tgt ≠ caller →
        ∀ root ∈ ySenderSS.getRoot caller tgt, caller ≠ root ∧ SameTree.Marked ySenderSS leaf caller
          ((ySenderSS.ancestors leaf).takeWhile fun p => !decide (p = root)) := by
    unfold SameTree.Marked
    cases leaf <;> decide
  refine sameTree.remembers fun caller hmem a ha _ tgt root ht hne hroot => ?_
  exact hall caller hmem tgt (List.mem_filterMap.mpr ⟨a, ha, ht⟩) hne root hroot

theorem implements : Implements ySenderSS ySender where
  toSameTree := sameTree
  entry := by
    funext env st s
    cases st <;> rfl
  reaction env st mesg s :=
    reaction_of_find? (onMessage_eq_find? env st mesg s) (arrows_apart st mesg s)
  outward := by
    have hall (st : SState) : ∀ tgt ∈ (ySender.arrows st).filterMap (·.target), tgt ≠ st →
        st ∉ ySenderSS.ancestors tgt := by
      cases st <;> decide
    intro st a ha tgt ht hne
    exact hall st tgt (List.mem_filterMap.mpr ⟨a, ha, ht⟩) hne
  posts := fun _ _ _ _ _ _ mesg _ leaf => remembers leaf mesg

/-! ## Whole sessions -/

theorem opens_start : ySender.Opens (fun _ => none) ySender.top [.statC, .nonCan] := by
  have h : ySender.Opens (fun _ => none) .topLevel (([] ++ [.statC]) ++ [.nonCan]) :=
    .inner rfl (.inner rfl (.leaf rfl))
  exact h

theorem entry_quiet (env : Env) (st : SState) (s s' : SenderY) (posts : List Mesg)
    (h : ySender.entry env st s = .ok (s', posts)) : posts = [] := by
  cases st with
  | topLevel =>
    obtain ⟨s₁, -, h⟩ := bind_inv h
    cases h
    rfl
  | _ =>
    cases h
    rfl

/-- **The sender's machine has the sessions that its drawn chart has**: what the generated code and
the runtime do with any messages, in any order, is what the chart says, and what the chart says
can be done, they do. -/
theorem sender_follows_chart {es : List (Env × Mesg)} {v : ChartState SState SenderY} :
    (∃ m₀ m, ySenderSS.start env s = .ok m₀ ∧ Run ySenderSS.Step m₀ es m ∧ ySenderSS.view m = v) ↔
      ∃ v₀, ySender.Starts env s v₀ ∧ Run ySender.Step v₀ es v := by
  have hquiet : ∀ st ∈ [.statC, .nonCan] ++ [ySender.top], ∀ s s' posts,
      ySender.entry env st s = .ok (s', posts) → posts = [] :=
    fun st _ => entry_quiet env st
  have hrem (m : StateMgr SState Mesg SenderY) (es : List (Env × Mesg)) :
      RemembersAlong ySenderSS ySender m es :=
    fun _ e _ _ _ _ leaf _ => remembers leaf e.2
  refine implements.session_iff opens_start hquiet (fun m₀ _ => hrem m₀ es) ?_
  intro m₀ es₁ t e hstart hrun
  have hsingle := implements.start_single opens_start hquiet hstart
  obtain ⟨-, ht⟩ := implements.run_of_run hsingle (hrem m₀ es₁) hrun
  exact implements.enoughRounds ht (fun leaf _ => remembers leaf e.2) entry_quiet

end Agreement

end YModem.Sender
