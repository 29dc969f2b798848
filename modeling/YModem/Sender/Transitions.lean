import YModem.Sender.Blocks
import YModem.Sender.Chart

/-!
# What one event may do to the sender

Between two events the machine is stopped or has one active leaf, and the only history it
stores is the one of `NON_CAN`. `Trans` lists what an event that returns may have done;
an effect that can exit the process appears as a hypothesis.
-/

namespace YModem.Sender

open YModem.Lib YModem.Peer YModem.SmartState

/-- The history pointers, of which only the one of `NON_CAN` is ever set. -/
def histOf (back : Option SState) : SState → Option SState :=
  fun st => if st = .nonCan then back else none

/-- A machine between two events: the active leaf, unless it is stopped, and the history
of `NON_CAN`. -/
structure Config where
  leaf : Option SState
  back : Option SState
  ctx : SenderY

def Config.machine (v : Config) (posted : List Mesg) : Machine :=
  ⟨v.leaf.toList, histOf v.back, v.leaf.isSome, posted, v.ctx⟩

/-- The leaves below `NON_CAN`. -/
def SState.sends : SState → Bool
  | .topLevel | .nonCan | .can => false
  | _ => true

/-! The states whose handlers a message reaches. -/

theorem SState.mem_ancestors (leaf : SState) : leaf ∈ ySenderSS.ancestors leaf := by
  cases leaf <;> decide

theorem SState.topLevel_mem_ancestors (leaf : SState) : .topLevel ∈ ySenderSS.ancestors leaf := by
  cases leaf <;> decide

theorem SState.nonCan_mem_ancestors {leaf : SState} (hl : leaf.sends = true) :
    .nonCan ∈ ySenderSS.ancestors leaf := by
  cases leaf <;> cases hl <;> decide

/-- A leaf is active, and `CAN` is entered with a leaf of `NON_CAN` remembered. -/
structure Config.WellFormed (v : Config) : Prop where
  rests : ∀ leaf ∈ v.leaf, leaf.sends = true ∨ leaf = .can
  remembers : ∀ leaf ∈ v.back, leaf.sends = true
  held : v.leaf = some .can → v.back ≠ none

inductive Trans (env : Env) : Mesg → Config → Config → Prop where
  | ignored {mesg leaf back s}
      (hnone : ∀ a ∈ ySenderSS.ancestors leaf, onMessage env a mesg s = none) :
      Trans env mesg ⟨some leaf, back, s⟩ ⟨some leaf, back, s⟩
  | kbCancel {leaf back s} (hl : leaf.sends = true) (hne : leaf ≠ .statC) (hk : s.kbCan = false) :
      Trans env .kbC ⟨some leaf, back, s⟩
        ⟨some leaf, back, { s with kbCan := true }.peer (·.tmRed (TM_VL - TM_2CHAR))⟩
  | kbCancelCan {back s} :
      Trans env .kbC ⟨some .can, back, s⟩ ⟨some .can, back, { s with kbCan := true }⟩
  | kbCancelOpenErr {back s} (hfd : s.transferringFileD = -1) :
      Trans env .kbC ⟨some .statC, back, s⟩
        ⟨none, back, s.peer (·.setResult "KbCancelledOpenErr")⟩
  | kbCancelStatC {back s s'} (hfd : s.transferringFileD ≠ -1)
      (hs : s.closeTransferredFile env = .ok s') :
      Trans env .kbC ⟨some .statC, back, s⟩
        ⟨none, back, s'.peer (·.setResult "KbCancelledFromStatC")⟩
  | openError {back s} (hf : s.fileName ≠ none) (hfd : s.transferringFileD = -1) :
      Trans env (.ser NCG) ⟨some .statC, back, s⟩
        ⟨none, back, s.cans.peer (·.addResult "OpenError")⟩
  | statSent {back s s'} (hfd : s.transferringFileD ≠ -1) (hs : s.sendBlkPrepNext = .ok s') :
      Trans env (.ser NCG) ⟨some .statC, back, s⟩
        ⟨some .acknakstat, back, wait env (clearErr s')⟩
  | statAcked {back s} (hf : s.fileName ≠ none) (hk : s.kbCan = false) :
      Trans env (.ser ACK) ⟨some .acknakstat, back, s⟩
        ⟨some .one, back, wait env { s with firstBlk := true }⟩
  | statResent {c back s} (hc : c = NAK ∨ c = NCG) (hk : s.kbCan = false) :
      Trans env (.ser c) ⟨some .acknakstat, back, s⟩
        ⟨some .acknakstat, back, wait env (s.resendBlk.peer (·.incErrCnt))⟩
  | endOfSession {back s} (hf : s.fileName = none) :
      Trans env (.ser ACK) ⟨some .acknakstat, back, s⟩
        ⟨none, back, s.peer (·.addResult "EndOfSession")⟩
  | noBlk {back s s'} (hb : s.bytesRd = 0) (hk : s.kbCan = false)
      (hs : (clearErr (wait env (sendEOT s))).closeTransferredFile env = .ok s') :
      Trans env (.ser NCG) ⟨some .one, back, s⟩ ⟨some .eot1, back, s'⟩
  | firstBlkSent {back s s'} (hb : s.bytesRd ≠ 0) (hk : s.kbCan = false)
      (hs : s.sendBlkPrepNext = .ok s') :
      Trans env (.ser NCG) ⟨some .one, back, s⟩ ⟨some .acknak, back, clearErr (wait env s')⟩
  | statNaked {back s} (hk : s.kbCan = false) :
      Trans env (.ser NAK) ⟨some .one, back, s⟩
        ⟨some .acknakstat, back, wait env (s.resendBlk.peer (·.incErrCnt))⟩
  | blkResent {c back s} (hc : c = NAK ∨ (c = NCG ∧ s.firstBlk = true)) (he : s.errCnt < errB)
      (hk : s.kbCan = false) :
      Trans env (.ser c) ⟨some .acknak, back, s⟩
        ⟨some .acknak, back, wait env (s.resendBlk.peer (·.incErrCnt))⟩
  | lastBlkAcked {back s s'} (hb : s.bytesRd = 0) (hk : s.kbCan = false)
      (hs : (clearErr (sendEOT s)).closeTransferredFile env = .ok s') :
      Trans env (.ser ACK) ⟨some .acknak, back, s⟩ ⟨some .eot1, back, wait env s'⟩
  | blkAcked {back s s'} (hb : s.bytesRd ≠ 0) (hk : s.kbCan = false)
      (hs : s.sendBlkPrepNext = .ok s') :
      Trans env (.ser ACK) ⟨some .acknak, back, s⟩
        ⟨some .acknak, back, { wait env (clearErr s') with firstBlk := false }⟩
  | eotResent {back s} (hf : s.firstBlk = true) (he : s.errCnt < errB) :
      Trans env (.ser NCG) ⟨some .eot1, back, s⟩
        ⟨some .eot1, back, wait env ((sendEOT s).peer (·.incErrCnt))⟩
  | eotAcked {back s s'} (hk : s.kbCan = false) (hs : s.prepStatBlk env = .ok s') :
      Trans env (.ser ACK) ⟨some .eot1, back, s⟩ ⟨some .statC, back, wait env s'⟩
  | eotNaked {back s} (hk : s.kbCan = false) :
      Trans env (.ser NAK) ⟨some .eot1, back, s⟩
        ⟨some .eoteot, back, { wait env (clearErr (sendEOT s)) with firstBlk := false }⟩
  | secondEotResent {back s} (hk : s.kbCan = false) (he : s.errCnt < errB) :
      Trans env (.ser NAK) ⟨some .eoteot, back, s⟩
        ⟨some .eoteot, back, wait env ((sendEOT s).peer (·.incErrCnt))⟩
  | fileDone {back s s'} (hk : s.kbCan = false)
      (hs : (s.peer (·.addResult "Done, ")).prepStatBlk env = .ok s') :
      Trans env (.ser ACK) ⟨some .eoteot, back, s⟩ ⟨some .statC, back, wait env s'⟩
  | excessiveNAKs {leaf back s s'} (hl : leaf.sends = true)
      (hnone : onMessage env leaf (.ser NAK) s = none) (he : errB ≤ s.errCnt)
      (hs : cancel env "ExcessiveNAKs" s = .ok s') :
      Trans env (.ser NAK) ⟨some leaf, back, s⟩ ⟨none, back, s'⟩
  | interrupted {leaf back s} (hl : leaf.sends = true) :
      Trans env (.ser CAN) ⟨some leaf, back, s⟩
        ⟨some .can, some leaf, s.peer (·.tmPush env.elapsed TM_CHAR)⟩
  | kbCancelled {c leaf back s s'} (hc : c = ACK ∨ c = NAK ∨ c = NCG) (hk : s.kbCan = true)
      (hnone : onMessage env leaf (.ser c) s = none) (hs : cancel env "KbCancelled" s = .ok s') :
      Trans env (.ser c) ⟨some leaf, back, s⟩ ⟨none, back, s'⟩
  | timedOut {leaf back s s'} (hk : leaf = .can → s.kbCan = true)
      (hs : cancel env (if s.kbCan then "KbCancelled" else "Timeout") s = .ok s') :
      Trans env .tm ⟨some leaf, back, s⟩ ⟨none, back, s'⟩
  | resumedSER {c leaf s} (hc : c ≠ CAN) (hk : s.kbCan = false) :
      Trans env (.ser c) ⟨some .can, some leaf, s⟩ ⟨some leaf, some leaf, s.peer (·.tmPop)⟩
  | resumedTM {leaf s} (hk : s.kbCan = false) :
      Trans env .tm ⟨some .can, some leaf, s⟩ ⟨some leaf, some leaf, s.peer (·.tmPop)⟩
  | rcvCancelled {back s s'} (hs : s.closeTransferredFile env = .ok s') :
      Trans env (.ser CAN) ⟨some .can, back, s⟩
        ⟨none, back, s'.clearCan.peer (·.addResult "RcvCancelled")⟩

theorem Trans.wellFormed {env : Env} {mesg : Mesg} {v v' : Config} (h : Trans env mesg v v')
    (hw : v.WellFormed) : v'.WellFormed := by
  obtain ⟨hr, hb, hh⟩ := hw
  cases h with
  | ignored => exact ⟨hr, hb, hh⟩
  | kbCancel => exact ⟨hr, hb, hh⟩
  | kbCancelCan => exact ⟨hr, hb, hh⟩
  | @interrupted leaf _ _ hl => exact ⟨by simp, by simpa using hl, by simp⟩
  | @resumedSER _ leaf _ _ _ => exact ⟨by simpa using .inl (hb leaf rfl), hb, by simp⟩
  | @resumedTM leaf _ _ => exact ⟨by simpa using .inl (hb leaf rfl), hb, by simp⟩
  | _ => exact ⟨by simp [SState.sends], hb, by simp⟩

end YModem.Sender
