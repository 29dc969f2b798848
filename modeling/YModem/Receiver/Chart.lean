import YModem.Receiver.Context

/-!
# The receiver's state chart (`yReceiverSS.cpp`)

Each state class of the generated chart is a state here, and each `on..Message` is a
function from the context to the reaction of the first guard that holds.
-/

namespace YModem.Receiver

open YModem.Peer YModem.SmartState

/-- The state classes of `yReceiverSS`, without the name of the parent they end in. -/
inductive RState where
  | topLevel
  | nonCan
  | firstByteStat
  | dataCancelable
  | firstByteData
  | eot
  | condTransientData
  | condTransientCheck
  | condTransientOpen
  | condTransientEOT
  | condlTransientStat
  | areWeDone
  | can
deriving DecidableEq, Repr

namespace RState

def parent : RState → Option RState
  | topLevel => none
  | nonCan | can => some topLevel
  | firstByteData | eot => some dataCancelable
  | _ => some nonCan

def subStates : RState → List RState
  | topLevel => [nonCan, can]
  | nonCan => [firstByteStat, dataCancelable, condTransientData, condTransientCheck,
      condTransientOpen, condTransientEOT, condlTransientStat, areWeDone]
  | dataCancelable => [firstByteData, eot]
  | _ => []

def myHistory : RState → Bool
  | topLevel | nonCan => true
  | _ => false

end RState

abbrev Handler := Option (Reaction RState ReceiverY)

section Handlers

variable (env : Env) (c : UInt8) (r : ReceiverY)

/-- An internal transition whose effect cannot fail. -/
def stay (effect : ReceiverY → ReceiverY) : Handler := some (.stay fun r => .ok (effect r))

/-- An external transition whose effect cannot fail. -/
def go (next : RState) (effect : ReceiverY → ReceiverY) : Handler :=
  some (.go (some next) fun r => .ok (effect r))

/-- A transition to `FinalState`. -/
def final (effect : ReceiverY → ReceiverY) : Handler := some (.go none fun r => .ok (effect r))

/-- `++ctx.errCnt; ctx.tm(TM_SOH);` -/
def countAndWait (r : ReceiverY) : ReceiverY :=
  (r.peer (·.incErrCnt)).peer (·.tm env.elapsed TM_SOH)

def topLevelKB_C : Handler := stay fun r => { r with kbCan := true }

def topLevelSER : Handler :=
  final fun r =>
    let r := r.purge.cans
    if r.kbCan then r.peer (·.addResult "KbCancelled (delayed)")
    else r.peer (·.addResult "ExcessiveErrors")

def topLevelTM : Handler :=
  final fun r =>
    let r := r.cans
    if r.kbCan then r.peer (·.addResult "KbCancelled")
    else r.peer (·.addResult "ExcessiveErrors")

def nonCanSER : Handler :=
  if !r.kbCan && c != CAN then stay fun r => r.purge
  else if c = CAN then go .can fun r => r.peer (·.tmPush env.elapsed TM_2CHAR)
  else none

def nonCanTM : Handler :=
  if r.errCnt < errB ∧ r.kbCan = false then
    stay fun r =>
      let r := if r.transferringFileD = -1 then r.peer (·.sendByte NCG) else r.peer (·.sendByte NAK)
      countAndWait env r
  else none

def dataCancelableSER : Handler :=
  if !r.kbCan && c == SOH then
    go .condTransientData fun r =>
      let r := r.getRestBlk env
      if r.goodBlk1st then { r with errCnt := 0, anotherFile := 0 } else r.peer (·.incErrCnt)
  else none

def firstByteDataSER : Handler :=
  if !r.kbCan && c == EOT then
    go .eot fun r => countAndWait env (r.purge.peer (·.sendByte NAK))
  else none

def eotSER : Handler :=
  if c = EOT then go .condTransientEOT fun r => r.closeTransferredFile env else none

def condTransientDataKB_C : Handler :=
  final fun r => r.cans.peer (·.addResult "kbCancelled (immediate)")

def condTransientDataTM : Handler :=
  if !r.syncLoss && decide (r.errCnt < errB) then
    go .dataCancelable fun r =>
      let r :=
        if r.goodBlk then
          let r := r.peer (·.sendByte ACK)
          if r.anotherFile ≠ 0 then r.peer (·.sendByte NCG) else r
        else r.peer (·.sendByte NAK)
      let r := if r.goodBlk1st then r.writeChunk else r
      r.peer (·.tm env.elapsed TM_SOH)
  else if r.syncLoss || decide (r.errCnt ≥ errB) then
    final fun r =>
      let r := r.cans.closeTransferredFile env
      if r.syncLoss then r.peer (·.addResult "LossOfSyncronization")
      else r.peer (·.addResult "ExcessiveErrors")
  else none

def condTransientDataSER : Handler := stay fun r => r.purge

def firstByteStatSER : Handler :=
  if c = EOT ∧ r.closeProb = 0 ∧ r.errCnt ≥ errB then
    final fun r => r.cans.peer (·.addResult "ExcessiveEOTs")
  else if c = EOT ∧ r.closeProb = 0 ∧ r.errCnt < errB then
    stay fun r => countAndWait env ((r.peer (·.sendByte ACK)).peer (·.sendByte NCG))
  else if !r.kbCan && c == SOH then
    go .condlTransientStat fun r =>
      let r := r.getRestBlk env
      if r.closeProb = 0 then { r with errCnt := 0, closeProb := -1 } else r
  else none

def condTransientCheckCONT : Handler :=
  if r.anotherFile = 0 then
    go .areWeDone fun r => (r.peer (·.sendByte ACK)).peer (·.tm env.elapsed TM_SOH)
  else some (.go (some .condTransientOpen) fun r => r.openFileForTransfer env)

def condTransientOpenCONT : Handler :=
  if r.transferringFileD ≠ -1 then
    go .firstByteData fun r =>
      ((r.peer (·.sendByte ACK)).peer (·.sendByte NCG)).peer (·.tm env.elapsed TM_SOH)
  else final fun r => r.cans.peer (·.addResult "CreatError")

def condTransientEOTCONT : Handler :=
  if r.closeProb = 0 then
    go .firstByteStat fun r =>
      let r := (r.peer (·.sendByte ACK)).peer (·.sendByte NCG)
      let r := { r.peer (·.addResult "Done, ") with errCnt := 0 }
      r.peer (·.tm env.elapsed TM_SOH)
  else final fun r => r.cans.peer (·.addResult "CloseError")

def condlTransientStatCONT : Handler :=
  if !r.syncLoss && decide (r.errCnt < errB) && !r.goodBlk then
    go .firstByteStat fun r => countAndWait env (r.peer (·.sendByte NAK))
  else if !r.syncLoss && decide (r.errCnt < errB) && r.goodBlk then
    go .condTransientCheck fun r => r.checkForAnotherFile
  else if r.syncLoss || decide (r.errCnt ≥ errB) then
    final fun r =>
      let r := r.cans
      if r.syncLoss then r.peer (·.addResult "LossOfSync at Stat Blk")
      else r.peer (·.addResult "ExcessiveErrors at Stat")
  else none

def areWeDoneTM : Handler := final fun r => r.peer (·.addResult "EndOfSession")

def areWeDoneSER : Handler :=
  if !r.kbCan && c == SOH then
    go .condlTransientStat fun r => (r.getRestBlk env).peer (·.incErrCnt)
  else none

def canSER : Handler :=
  if c != CAN && !r.kbCan then go .nonCan fun r => r.purge.peer (·.tmPop)
  else if c = CAN then
    final fun r => (r.closeTransferredFile env).clearCan.peer (·.addResult "SndCancelled")
  else none

def canTM : Handler :=
  if !r.kbCan then go .nonCan fun r => r.peer (·.tmPop) else none

end Handlers

/-- The `onMessage` of each state. -/
def onMessage (env : Env) (s : RState) (mesg : Mesg) (r : ReceiverY) : Handler :=
  match s, mesg with
  | .topLevel, .kbC => topLevelKB_C
  | .topLevel, .ser _ => topLevelSER
  | .topLevel, .tm => topLevelTM
  | .nonCan, .ser c => nonCanSER env c r
  | .nonCan, .tm => nonCanTM env r
  | .dataCancelable, .ser c => dataCancelableSER env c r
  | .firstByteData, .ser c => firstByteDataSER env c r
  | .eot, .ser c => eotSER env c
  | .condTransientData, .kbC => condTransientDataKB_C
  | .condTransientData, .tm => condTransientDataTM env r
  | .condTransientData, .ser _ => condTransientDataSER
  | .firstByteStat, .ser c => firstByteStatSER env c r
  | .condTransientCheck, .cont => condTransientCheckCONT env r
  | .condTransientOpen, .cont => condTransientOpenCONT env r
  | .condTransientEOT, .cont => condTransientEOTCONT env r
  | .condlTransientStat, .cont => condlTransientStatCONT env r
  | .areWeDone, .tm => areWeDoneTM
  | .areWeDone, .ser c => areWeDoneSER env c r
  | .can, .ser c => canSER env c r
  | .can, .tm => canTM r
  | _, _ => none

/-- The `onEntry` of each state; `POST("*",CONT)` posts to the whole machine. -/
def onEntry (env : Env) (s : RState) (r : ReceiverY) : Except Fault (ReceiverY × List Mesg) :=
  match s with
  | .topLevel =>
    let r := { r.peer (·.sendByte NCG) with closeProb := -1, errCnt := 0 }
    .ok ({ r.peer (·.tm env.elapsed TM_SOH) with kbCan := false }, [])
  | .condTransientData => .ok (r.peer (·.tm env.elapsed 0), [])
  | .condTransientCheck | .condTransientOpen | .condTransientEOT | .condlTransientStat =>
    .ok (r, [.cont])
  | _ => .ok (r, [])

/-- No event of this chart causes more than three posted messages. -/
def yReceiverSS : Chart RState Mesg Env ReceiverY where
  top := .topLevel
  parent := RState.parent
  subStates := RState.subStates
  myHistory := RState.myHistory
  height := 3
  rounds := 4
  onEntry := onEntry
  onMessage := onMessage
  rooted := by intro s; cases s <;> rfl

abbrev Machine := StateMgr RState Mesg ReceiverY

end YModem.Receiver
