import YModem.Sender.Context

/-!
# The sender's state chart (`ySenderSS.cpp`)

Each state class of the generated chart is a state here, and each `on..Message` is a
function from the context to the reaction of the first guard that holds.
-/

namespace YModem.Sender

open YModem.Peer YModem.SmartState

/-- The state classes of `ySenderSS`, without the name of the parent they end in. -/
inductive SState where
  | topLevel
  | nonCan
  | statC
  | acknak
  | eot1
  | one
  | eoteot
  | acknakstat
  | can
deriving DecidableEq, Repr

namespace SState

def parent : SState → Option SState
  | topLevel => none
  | nonCan | can => some topLevel
  | _ => some nonCan

def subStates : SState → List SState
  | topLevel => [nonCan, can]
  | nonCan => [statC, acknak, eot1, one, eoteot, acknakstat]
  | _ => []

def myHistory : SState → Bool
  | nonCan => true
  | _ => false

end SState

abbrev Handler := Option (Reaction SState SenderY)

section Handlers

variable (env : Env) (c : UInt8) (s : SenderY)

/-- An internal transition. -/
def stay (effect : SenderY → Except Fault SenderY) : Handler := some (.stay effect)

/-- An external transition. -/
def go (next : SState) (effect : SenderY → Except Fault SenderY) : Handler :=
  some (.go (some next) effect)

/-- A transition to `FinalState`. -/
def final (effect : SenderY → Except Fault SenderY) : Handler := some (.go none effect)

/-- `ctx.tm(TM_VL)`. -/
def wait (s : SenderY) : SenderY := s.peer (·.tm env.elapsed TM_VL)

/-- `ctx.errCnt=0`. -/
def clearErr (s : SenderY) : SenderY := { s with errCnt := 0 }

/-- `ctx.sendByte(EOT)`. -/
def sendEOT (s : SenderY) : SenderY := s.peer (·.sendByte EOT)

/-- `ctx.cans(); ctx.closeTransferredFile(); ctx.result += text;` -/
def cancel (text : String) (s : SenderY) : Except Fault SenderY := do
  let s ← s.cans.closeTransferredFile env
  return s.peer (·.addResult text)

def topLevelTM : Handler :=
  final fun s => do
    let s ← s.cans.closeTransferredFile env
    if s.kbCan then return s.peer (·.addResult "KbCancelled")
    else return s.peer (·.addResult "Timeout")

def topLevelSER : Handler :=
  if s.kbCan = true ∧ (c = ACK ∨ c = NAK ∨ c = NCG) then final (cancel env "KbCancelled")
  else none

def nonCanSER : Handler :=
  if c = NAK ∧ errB ≤ s.errCnt then final (cancel env "ExcessiveNAKs")
  else if c = CAN then go .can fun s => .ok (s.peer (·.tmPush env.elapsed TM_CHAR))
  else none

def nonCanKB_C : Handler :=
  if s.kbCan = false then
    stay fun s => .ok ({ s with kbCan := true }.peer (·.tmRed (TM_VL - TM_2CHAR)))
  else none

def acknakSER : Handler :=
  if (c = NAK ∨ (c = NCG ∧ s.firstBlk = true)) ∧ s.errCnt < errB ∧ s.kbCan = false then
    stay fun s => .ok (wait env (s.resendBlk.peer (·.incErrCnt)))
  else if c = ACK ∧ s.bytesRd = 0 ∧ s.kbCan = false then
    go .eot1 fun s => do
      let s ← (clearErr (sendEOT s)).closeTransferredFile env
      return wait env s
  else if c = ACK ∧ s.bytesRd ≠ 0 ∧ s.kbCan = false then
    stay fun s => do
      let s ← s.sendBlkPrepNext
      return { wait env (clearErr s) with firstBlk := false }
  else none

def eot1SER : Handler :=
  if c = NCG ∧ s.firstBlk = true ∧ s.errCnt < errB then
    stay fun s => .ok (wait env ((sendEOT s).peer (·.incErrCnt)))
  else if c = ACK ∧ s.kbCan = false then
    go .statC fun s => do
      let s ← s.prepStatBlk env
      return wait env s
  else if c = NAK ∧ s.kbCan = false then
    go .eoteot fun s => .ok { wait env (clearErr (sendEOT s)) with firstBlk := false }
  else none

def oneSER : Handler :=
  if c = NCG ∧ s.bytesRd = 0 ∧ s.kbCan = false then
    go .eot1 fun s => (clearErr (wait env (sendEOT s))).closeTransferredFile env
  else if c = NCG ∧ s.bytesRd ≠ 0 ∧ s.kbCan = false then
    go .acknak fun s => do
      let s ← s.sendBlkPrepNext
      return clearErr (wait env s)
  else if c = NAK ∧ s.kbCan = false then
    go .acknakstat fun s => .ok (wait env (s.resendBlk.peer (·.incErrCnt)))
  else none

def eoteotSER : Handler :=
  if c = NAK ∧ s.kbCan = false ∧ s.errCnt < errB then
    stay fun s => .ok (wait env ((sendEOT s).peer (·.incErrCnt)))
  else if c = ACK ∧ s.kbCan = false then
    go .statC fun s => do
      let s ← (s.peer (·.addResult "Done, ")).prepStatBlk env
      return wait env s
  else none

def statCSER : Handler :=
  if c = NCG ∧ s.fileName ≠ none ∧ s.transferringFileD = -1 then
    final fun s => .ok (s.cans.peer (·.addResult "OpenError"))
  else if c = NCG ∧ s.transferringFileD ≠ -1 then
    go .acknakstat fun s => do
      let s ← s.sendBlkPrepNext
      return wait env (clearErr s)
  else none

def statCKB_C : Handler :=
  final fun s =>
    if s.transferringFileD = -1 then .ok (s.peer (·.setResult "KbCancelledOpenErr"))
    else do
      let s ← s.closeTransferredFile env
      return s.peer (·.setResult "KbCancelledFromStatC")

def acknakstatSER : Handler :=
  if c = ACK ∧ s.fileName ≠ none ∧ s.kbCan = false then
    go .one fun s => .ok (wait env { s with firstBlk := true })
  else if (c = NAK ∨ c = NCG) ∧ s.kbCan = false then
    stay fun s => .ok (wait env (s.resendBlk.peer (·.incErrCnt)))
  else if c = ACK ∧ s.fileName = none then
    final fun s => .ok (s.peer (·.addResult "EndOfSession"))
  else none

def canKB_C : Handler := stay fun s => .ok { s with kbCan := true }

def canSER : Handler :=
  if c ≠ CAN ∧ s.kbCan = false then go .nonCan fun s => .ok (s.peer (·.tmPop))
  else if c = CAN then
    final fun s => do
      let s ← s.closeTransferredFile env
      return s.clearCan.peer (·.addResult "RcvCancelled")
  else none

def canTM : Handler :=
  if s.kbCan = false then go .nonCan fun s => .ok (s.peer (·.tmPop)) else none

end Handlers

/-- The `onMessage` of each state. -/
def onMessage (env : Env) (st : SState) (mesg : Mesg) (s : SenderY) : Handler :=
  match st, mesg with
  | .topLevel, .tm => topLevelTM env
  | .topLevel, .ser c => topLevelSER env c s
  | .nonCan, .ser c => nonCanSER env c s
  | .nonCan, .kbC => nonCanKB_C s
  | .acknak, .ser c => acknakSER env c s
  | .eot1, .ser c => eot1SER env c s
  | .one, .ser c => oneSER env c s
  | .eoteot, .ser c => eoteotSER env c s
  | .statC, .ser c => statCSER env c s
  | .statC, .kbC => statCKB_C env
  | .acknakstat, .ser c => acknakstatSER env c s
  | .can, .kbC => canKB_C
  | .can, .ser c => canSER env c s
  | .can, .tm => canTM s
  | _, _ => none

/-- The `onEntry` of each state; no state of this chart posts a message. -/
def onEntry (env : Env) (st : SState) (s : SenderY) : Except Fault (SenderY × List Mesg) :=
  match st with
  | .topLevel => do
    let s ← s.prepStatBlk env
    return (wait env { clearErr s with kbCan := false }, [])
  | _ => .ok (s, [])

def ySenderSS : Chart SState Mesg Env SenderY where
  top := .topLevel
  parent := SState.parent
  subStates := SState.subStates
  myHistory := SState.myHistory
  height := 2
  rounds := 1
  onEntry := onEntry
  onMessage := onMessage
  rooted := by intro st; cases st <;> rfl

abbrev Machine := StateMgr SState Mesg SenderY

end YModem.Sender
