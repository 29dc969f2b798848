import YModem.Receiver.Chart

/-!
# What one event may do to the receiver

Between two events the machine is stopped or has one active leaf, and the only
history it ever stores is the one of `NON_CAN`. `Config` is that picture of the
machine, and `Trans` lists every way in which one event, with the posted messages it
causes, leads from one configuration to the next.
-/

namespace YModem.Receiver

open YModem.Lib YModem.Peer YModem.SmartState

/-- The history pointers, of which only the one of `NON_CAN` is ever set. -/
def histOf (back : Option RState) : RState → Option RState :=
  fun s => if s = .nonCan then back else none

/-- A machine between two events: the active leaf, unless it is stopped, and the history
of `NON_CAN`. -/
structure Config where
  leaf : Option RState
  back : Option RState
  ctx : ReceiverY

/-- The machine with this configuration; the list of posted messages is a leftover. -/
def Config.machine (v : Config) (posted : List Mesg) : Machine :=
  ⟨v.leaf.toList, histOf v.back, v.leaf.isSome, posted, v.ctx⟩

/-- The leaves that wait for a first byte. -/
def RState.waits : RState → Bool
  | .firstByteStat | .firstByteData | .eot | .areWeDone => true
  | _ => false

/-- The leaves in which an event can end. -/
def RState.rests : RState → Bool
  | .condTransientData | .can => true
  | s => s.waits

theorem RState.rests_cases {leaf : RState} (h : leaf.rests = true) :
    leaf.waits = true ∨ leaf = .condTransientData ∨ leaf = .can := by
  cases leaf <;> simp [rests, waits] at h ⊢

/-- The leaves below `DataCancelable`. -/
def RState.dataLeaf : RState → Bool
  | .firstByteData | .eot => true
  | _ => false

theorem RState.waits_cases {leaf : RState} (h : leaf.waits = true) :
    leaf = .firstByteStat ∨ leaf.dataLeaf = true ∨ leaf = .areWeDone := by
  cases leaf <;> simp [waits, dataLeaf] at h ⊢

theorem RState.dataLeaf_cases {leaf : RState} (h : leaf.dataLeaf = true) :
    leaf = .firstByteData ∨ leaf = .eot := by
  cases leaf <;> simp [dataLeaf] at h ⊢

/-- What a leaf leaves behind in the history of `NON_CAN` when a CAN byte is read. -/
def RState.remembered (leaf : RState) (back : Option RState) : Option RState :=
  if leaf.dataLeaf then back else some leaf

/-- The leaf that entering `NON_CAN` activates. -/
def RState.resumed (back : Option RState) : RState := back.getD .firstByteStat

/-- What can be stored in the history of `NON_CAN`. -/
def Remembers (back : Option RState) : Prop :=
  back = none ∨ back = some .firstByteStat ∨ back = some .areWeDone

structure Config.WellFormed (v : Config) : Prop where
  rests : ∀ s ∈ v.leaf, s.rests = true
  remembers : Remembers v.back

/-- The continue events from `CondlTransientStat` on: a bad block, the empty stat block,
a file opened, a file that could not be created, and giving up. -/
inductive StatBlk (env : Env) (r : ReceiverY) : Option RState → ReceiverY → Prop where
  | again (hs : r.syncLoss = false) (he : r.errCnt < errB) (hg : r.goodBlk = false) :
      StatBlk env r (some .firstByteStat) (countAndWait env (r.peer (·.sendByte NAK)))
  | noFile (hs : r.syncLoss = false) (he : r.errCnt < errB) (hg : r.goodBlk = true)
      (ha : r.checkForAnotherFile.anotherFile = 0) :
      StatBlk env r (some .areWeDone)
        ((r.checkForAnotherFile.peer (·.sendByte ACK)).peer (·.tm env.elapsed TM_SOH))
  | opened (r' : ReceiverY) (hs : r.syncLoss = false) (he : r.errCnt < errB)
      (hg : r.goodBlk = true) (ha : r.checkForAnotherFile.anotherFile ≠ 0)
      (ho : r.checkForAnotherFile.openFileForTransfer env = .ok r')
      (hfd : r'.transferringFileD ≠ -1) :
      StatBlk env r (some .firstByteData)
        (((r'.peer (·.sendByte ACK)).peer (·.sendByte NCG)).peer (·.tm env.elapsed TM_SOH))
  | creatError (r' : ReceiverY) (hs : r.syncLoss = false) (he : r.errCnt < errB)
      (hg : r.goodBlk = true) (ha : r.checkForAnotherFile.anotherFile ≠ 0)
      (ho : r.checkForAnotherFile.openFileForTransfer env = .ok r')
      (hfd : r'.transferringFileD = -1) :
      StatBlk env r none (r'.cans.peer (·.addResult "CreatError"))
  | gaveUp (h : r.syncLoss = true ∨ errB ≤ r.errCnt) :
      StatBlk env r none
        (if r.syncLoss then r.cans.peer (·.addResult "LossOfSync at Stat Blk")
         else r.cans.peer (·.addResult "ExcessiveErrors at Stat"))

/-- The context in which `FirstByteStat` hands a block to `CondlTransientStat`. -/
def statBlkRead (env : Env) (r : ReceiverY) : ReceiverY :=
  if (r.getRestBlk env).closeProb = 0 then { r.getRestBlk env with errCnt := 0, closeProb := -1 }
  else r.getRestBlk env

/-- The context in which a leaf of `DataCancelable` hands a block to `CondTransientData`. -/
def dataBlkRead (env : Env) (r : ReceiverY) : ReceiverY :=
  (if (r.getRestBlk env).goodBlk1st then { r.getRestBlk env with errCnt := 0, anotherFile := 0 }
   else (r.getRestBlk env).peer (·.incErrCnt)).peer (·.tm env.elapsed 0)

theorem statBlkRead_eq (env : Env) (r : ReceiverY) :
    statBlkRead env r = { r.getRestBlk env with
      errCnt := if r.closeProb = 0 then 0 else r.errCnt
      closeProb := if r.closeProb = 0 then -1 else r.closeProb } := by
  have hc := r.getRestBlk_closeProb env
  have he := r.getRestBlk_errCnt env
  unfold statBlkRead
  generalize r.getRestBlk env = g at hc he ⊢
  rw [← hc, ← he]
  split_ifs <;> rfl

@[simp] theorem statBlkRead_transferringFileD (env : Env) (r : ReceiverY) :
    (statBlkRead env r).transferringFileD = r.transferringFileD := by
  rw [statBlkRead_eq]
  exact r.getRestBlk_transferringFileD env

theorem dataBlkRead_eq (env : Env) (r : ReceiverY) :
    dataBlkRead env r = { r.getRestBlk env with
      errCnt := if (r.getRestBlk env).goodBlk1st then 0 else (r.errCnt + 1) % UINT_RANGE
      anotherFile := if (r.getRestBlk env).goodBlk1st then 0 else r.anotherFile
      absoluteTimeout := env.elapsed } := by
  have he := r.getRestBlk_errCnt env
  have ha := r.getRestBlk_anotherFile env
  unfold dataBlkRead
  generalize r.getRestBlk env = g at he ha ⊢
  rw [← he, ← ha]
  split_ifs <;> simp [ReceiverY.peer, PeerY.tm, PeerY.incErrCnt]

/-- The answer to a data block, and its chunk written when it is new. -/
def answerDataBlk (env : Env) (r : ReceiverY) : ReceiverY :=
  let r :=
    if r.goodBlk then
      if r.anotherFile ≠ 0 then (r.peer (·.sendByte ACK)).peer (·.sendByte NCG)
      else r.peer (·.sendByte ACK)
    else r.peer (·.sendByte NAK)
  (if r.goodBlk1st then r.writeChunk else r).peer (·.tm env.elapsed TM_SOH)

theorem answerDataBlk_eq (env : Env) (r : ReceiverY) :
    answerDataBlk env r = { r with
      absoluteTimeout := env.elapsed + TM_SOH * uSECS_PER_UNIT
      bytesRemaining :=
        if r.goodBlk1st = true ∧ 0 < r.bytesRemaining then r.bytesRemaining - CHUNK_SZ
        else r.bytesRemaining
      calls := r.calls ++
        ((if r.goodBlk then
            .sendByte ACK :: (if r.anotherFile ≠ 0 then [.sendByte NCG] else [])
          else [.sendByte NAK]) ++
        (if r.goodBlk1st = true ∧ 0 < r.bytesRemaining then
          [.write r.transferringFileD (r.rcvBlk.chunk (min CHUNK_SZ r.bytesRemaining.toNat))]
        else [])) } := by
  unfold answerDataBlk
  simp only [writeChunk_spec]
  split_ifs <;> simp_all [ReceiverY.peer, PeerY.tm, PeerY.sendByte]
  all_goals omega

/-- The acknowledgement of a second EOT. -/
def acknowledgeEOT (env : Env) (r : ReceiverY) : ReceiverY :=
  ({ ((r.peer (·.sendByte ACK)).peer (·.sendByte NCG)).peer (·.addResult "Done, ") with
    errCnt := 0 }).peer (·.tm env.elapsed TM_SOH)

inductive Trans (env : Env) : Mesg → Config → Config → Prop where
  | ignored {leaf back r} (hl : leaf.rests = true) :
      Trans env .cont ⟨some leaf, back, r⟩ ⟨some leaf, back, r⟩
  | kbCancel {leaf back r} (hl : leaf.rests = true) (hne : leaf ≠ .condTransientData) :
      Trans env .kbC ⟨some leaf, back, r⟩ ⟨some leaf, back, { r with kbCan := true }⟩
  | kbCancelImmediate {back r} :
      Trans env .kbC ⟨some .condTransientData, back, r⟩
        ⟨none, back, r.cans.peer (·.addResult "kbCancelled (immediate)")⟩
  | purged {leaf back r c} (hl : leaf.waits = true) (hk : r.kbCan = false) (hcan : c ≠ CAN)
      (hsoh : c ≠ SOH)
      (heot : c = EOT → leaf = .areWeDone ∨ (leaf = .firstByteStat ∧ r.closeProb ≠ 0)) :
      Trans env (.ser c) ⟨some leaf, back, r⟩ ⟨some leaf, back, r.purge⟩
  | purgedData {back r c} :
      Trans env (.ser c) ⟨some .condTransientData, back, r⟩
        ⟨some .condTransientData, back, r.purge⟩
  | interrupted {leaf back r} (hl : leaf.waits = true) :
      Trans env (.ser CAN) ⟨some leaf, back, r⟩
        ⟨some .can, leaf.remembered back, r.peer (·.tmPush env.elapsed TM_2CHAR)⟩
  | kbCancelDelayed {leaf back r c} (hl : leaf.waits = true ∨ leaf = .can) (hk : r.kbCan = true)
      (hcan : c ≠ CAN)
      (heot : c = EOT → leaf ≠ .eot ∧ (leaf = .firstByteStat → r.closeProb ≠ 0)) :
      Trans env (.ser c) ⟨some leaf, back, r⟩
        ⟨none, back, r.purge.cans.peer (·.addResult "KbCancelled (delayed)")⟩
  | dataBlk {leaf back r} (hl : leaf.dataLeaf = true) (hk : r.kbCan = false) :
      Trans env (.ser SOH) ⟨some leaf, back, r⟩
        ⟨some .condTransientData, back, dataBlkRead env r⟩
  | firstEOT {back r} (hk : r.kbCan = false) :
      Trans env (.ser EOT) ⟨some .firstByteData, back, r⟩
        ⟨some .eot, back, countAndWait env (r.purge.peer (·.sendByte NAK))⟩
  | secondEOT {back r} (hc : (r.closeTransferredFile env).closeProb = 0) :
      Trans env (.ser EOT) ⟨some .eot, back, r⟩
        ⟨some .firstByteStat, back, acknowledgeEOT env (r.closeTransferredFile env)⟩
  | closeError {back r} (hc : (r.closeTransferredFile env).closeProb ≠ 0) :
      Trans env (.ser EOT) ⟨some .eot, back, r⟩
        ⟨none, back, (r.closeTransferredFile env).cans.peer (·.addResult "CloseError")⟩
  | excessiveEOTs {back r} (hc : r.closeProb = 0) (he : errB ≤ r.errCnt) :
      Trans env (.ser EOT) ⟨some .firstByteStat, back, r⟩
        ⟨none, back, r.cans.peer (·.addResult "ExcessiveEOTs")⟩
  | eotAgain {back r} (hc : r.closeProb = 0) (he : r.errCnt < errB) :
      Trans env (.ser EOT) ⟨some .firstByteStat, back, r⟩
        ⟨some .firstByteStat, back,
          countAndWait env ((r.peer (·.sendByte ACK)).peer (·.sendByte NCG))⟩
  | statBlk {back r leaf r'} (hk : r.kbCan = false) (h : StatBlk env (statBlkRead env r) leaf r') :
      Trans env (.ser SOH) ⟨some .firstByteStat, back, r⟩ ⟨leaf, back, r'⟩
  | blkWhenDone {back r leaf r'} (hk : r.kbCan = false)
      (h : StatBlk env ((r.getRestBlk env).peer (·.incErrCnt)) leaf r') :
      Trans env (.ser SOH) ⟨some .areWeDone, back, r⟩ ⟨leaf, back, r'⟩
  | retry {leaf back r} (hl : leaf = .firstByteStat ∨ leaf.dataLeaf = true) (he : r.errCnt < errB)
      (hk : r.kbCan = false) :
      Trans env .tm ⟨some leaf, back, r⟩
        ⟨some leaf, back, countAndWait env
          (if r.transferringFileD = -1 then r.peer (·.sendByte NCG) else r.peer (·.sendByte NAK))⟩
  | gaveUp {leaf back r} (hl : leaf = .firstByteStat ∨ leaf.dataLeaf = true ∨ leaf = .can)
      (h : r.kbCan = true ∨ (leaf ≠ .can ∧ errB ≤ r.errCnt)) :
      Trans env .tm ⟨some leaf, back, r⟩
        ⟨none, back, if r.kbCan then r.cans.peer (·.addResult "KbCancelled")
          else r.cans.peer (·.addResult "ExcessiveErrors")⟩
  | answered {back r} (hs : r.syncLoss = false) (he : r.errCnt < errB) :
      Trans env .tm ⟨some .condTransientData, back, r⟩
        ⟨some .firstByteData, back, answerDataBlk env r⟩
  | abandoned {back r} (h : r.syncLoss = true ∨ errB ≤ r.errCnt) :
      Trans env .tm ⟨some .condTransientData, back, r⟩
        ⟨none, back, if r.syncLoss then
            (r.cans.closeTransferredFile env).peer (·.addResult "LossOfSyncronization")
          else (r.cans.closeTransferredFile env).peer (·.addResult "ExcessiveErrors")⟩
  | endOfSession {back r} :
      Trans env .tm ⟨some .areWeDone, back, r⟩ ⟨none, back, r.peer (·.addResult "EndOfSession")⟩
  | resumedSER {back r c} (hk : r.kbCan = false) (hcan : c ≠ CAN) :
      Trans env (.ser c) ⟨some .can, back, r⟩
        ⟨some (RState.resumed back), back, r.purge.peer (·.tmPop)⟩
  | resumedTM {back r} (hk : r.kbCan = false) :
      Trans env .tm ⟨some .can, back, r⟩ ⟨some (RState.resumed back), back, r.peer (·.tmPop)⟩
  | sndCancelled {back r} :
      Trans env (.ser CAN) ⟨some .can, back, r⟩
        ⟨none, back, (r.closeTransferredFile env).clearCan.peer (·.addResult "SndCancelled")⟩

/-! ## Every event has a transition or faults -/

/-- A stat block whose text `openFileForTransfer` cannot read. -/
structure StatFault (env : Env) (r : ReceiverY) : Prop where
  inSync : r.syncLoss = false
  bound : r.errCnt < errB
  good : r.goodBlk = true
  named : r.checkForAnotherFile.anotherFile ≠ 0
  fault : ∃ f, r.checkForAnotherFile.openFileForTransfer env = .error f

theorem StatBlk.total (env : Env) (r : ReceiverY) :
    (∃ leaf r', StatBlk env r leaf r') ∨ StatFault env r := by
  by_cases h : r.syncLoss = true ∨ errB ≤ r.errCnt
  · exact .inl ⟨none, _, .gaveUp h⟩
  rw [not_or, Bool.not_eq_true, Nat.not_le] at h
  obtain ⟨hs, he⟩ := h
  cases hg : r.goodBlk with
  | false => exact .inl ⟨_, _, .again hs he hg⟩
  | true =>
    by_cases ha : r.checkForAnotherFile.anotherFile = 0
    · exact .inl ⟨_, _, .noFile hs he hg ha⟩
    cases ho : r.checkForAnotherFile.openFileForTransfer env with
    | error f => exact .inr ⟨hs, he, hg, ha, f, ho⟩
    | ok r' =>
      by_cases hfd : r'.transferringFileD = -1
      · exact .inl ⟨_, _, .creatError r' hs he hg ha ho hfd⟩
      · exact .inl ⟨_, _, .opened r' hs he hg ha ho hfd⟩

/-- The event leads `openFileForTransfer` to a text it cannot read. -/
inductive Faults (env : Env) : Mesg → Config → Prop where
  | statBlk {back r} (hk : r.kbCan = false) (h : StatFault env (statBlkRead env r)) :
      Faults env (.ser SOH) ⟨some .firstByteStat, back, r⟩
  | blkWhenDone {back r} (hk : r.kbCan = false)
      (h : StatFault env ((r.getRestBlk env).peer (·.incErrCnt))) :
      Faults env (.ser SOH) ⟨some .areWeDone, back, r⟩

/-- A waiting leaf and a byte that no special case of the leaf takes. -/
private theorem ser_total_of_passed (env : Env) {leaf : RState} (back : Option RState)
    (r : ReceiverY) {c : UInt8} (hl : leaf.waits = true) (hcan : c ≠ CAN)
    (hpass : c = EOT → leaf ≠ .eot ∧ (leaf = .firstByteStat → r.closeProb ≠ 0)) :
    (∃ v', Trans env (.ser c) ⟨some leaf, back, r⟩ v') ∨
      Faults env (.ser c) ⟨some leaf, back, r⟩ := by
  cases hk : r.kbCan with
  | true => exact .inl ⟨_, .kbCancelDelayed (.inl hl) hk hcan hpass⟩
  | false =>
    by_cases hsoh : c = SOH
    · subst hsoh
      rcases RState.waits_cases hl with rfl | hd | rfl
      · rcases StatBlk.total env (statBlkRead env r) with ⟨leaf, r', h⟩ | h
        · exact .inl ⟨_, .statBlk hk h⟩
        · exact .inr (.statBlk hk h)
      · exact .inl ⟨_, .dataBlk hd hk⟩
      · rcases StatBlk.total env ((r.getRestBlk env).peer (·.incErrCnt)) with ⟨leaf, r', h⟩ | h
        · exact .inl ⟨_, .blkWhenDone hk h⟩
        · exact .inr (.blkWhenDone hk h)
    · by_cases heot : c = EOT ∧ leaf = .firstByteData
      · obtain ⟨rfl, rfl⟩ := heot
        exact .inl ⟨_, .firstEOT hk⟩
      · refine .inl ⟨_, .purged hl hk hcan hsoh fun h => ?_⟩
        obtain ⟨hne, hcp⟩ := hpass h
        rcases RState.waits_cases hl with rfl | hd | rfl
        · exact .inr ⟨rfl, hcp rfl⟩
        · rcases RState.dataLeaf_cases hd with rfl | rfl
          · exact absurd ⟨h, rfl⟩ heot
          · exact absurd rfl hne
        · exact .inl rfl

private theorem ser_total (env : Env) {leaf : RState} (back : Option RState) (r : ReceiverY)
    (c : UInt8) (hl : leaf.waits = true) :
    (∃ v', Trans env (.ser c) ⟨some leaf, back, r⟩ v') ∨
      Faults env (.ser c) ⟨some leaf, back, r⟩ := by
  by_cases hcan : c = CAN
  · subst hcan
    exact .inl ⟨_, .interrupted hl⟩
  by_cases hsecond : c = EOT ∧ leaf = .eot
  · obtain ⟨rfl, rfl⟩ := hsecond
    by_cases hc : (r.closeTransferredFile env).closeProb = 0
    · exact .inl ⟨_, .secondEOT hc⟩
    · exact .inl ⟨_, .closeError hc⟩
  by_cases hagain : c = EOT ∧ leaf = .firstByteStat ∧ r.closeProb = 0
  · obtain ⟨rfl, rfl, hc⟩ := hagain
    by_cases he : errB ≤ r.errCnt
    · exact .inl ⟨_, .excessiveEOTs hc he⟩
    · exact .inl ⟨_, .eotAgain hc (Nat.lt_of_not_le he)⟩
  exact ser_total_of_passed env back r hl hcan fun h =>
    ⟨fun hl => hsecond ⟨h, hl⟩, fun hl hc => hagain ⟨h, hl, hc⟩⟩

private theorem tm_total (env : Env) {leaf : RState} (back : Option RState) (r : ReceiverY)
    (hl : leaf.waits = true) : ∃ v', Trans env .tm ⟨some leaf, back, r⟩ v' := by
  have hcan : leaf ≠ .can := by
    rintro rfl
    cases hl
  have hmove (h : leaf = .firstByteStat ∨ leaf.dataLeaf = true) :
      ∃ v', Trans env .tm ⟨some leaf, back, r⟩ v' := by
    by_cases hr : r.errCnt < errB ∧ r.kbCan = false
    · exact ⟨_, .retry h hr.1 hr.2⟩
    · refine ⟨_, .gaveUp (h.imp_right .inl) ?_⟩
      cases hk : r.kbCan with
      | true => exact .inl rfl
      | false => exact .inr ⟨hcan, Nat.le_of_not_lt fun he => hr ⟨he, hk⟩⟩
  rcases RState.waits_cases hl with h | h | rfl
  · exact hmove (.inl h)
  · exact hmove (.inr h)
  · exact ⟨_, .endOfSession⟩

theorem Trans.total (env : Env) (mesg : Mesg) {leaf : RState} (back : Option RState)
    (r : ReceiverY) (hl : leaf.rests = true) :
    (∃ v', Trans env mesg ⟨some leaf, back, r⟩ v') ∨ Faults env mesg ⟨some leaf, back, r⟩ := by
  cases mesg with
  | cont => exact .inl ⟨_, .ignored hl⟩
  | ser c =>
    rcases RState.rests_cases hl with hw | rfl | rfl
    · exact ser_total env back r c hw
    · exact .inl ⟨_, .purgedData⟩
    · by_cases hcan : c = CAN
      · subst hcan
        exact .inl ⟨_, .sndCancelled⟩
      · cases hk : r.kbCan with
        | true => exact .inl ⟨_, .kbCancelDelayed (.inr rfl) hk hcan fun _ => by simp⟩
        | false => exact .inl ⟨_, .resumedSER hk hcan⟩
  | tm =>
    rcases RState.rests_cases hl with hw | rfl | rfl
    · exact .inl (tm_total env back r hw)
    · by_cases h : r.syncLoss = true ∨ errB ≤ r.errCnt
      · exact .inl ⟨_, .abandoned h⟩
      · rw [not_or, Bool.not_eq_true, Nat.not_le] at h
        exact .inl ⟨_, .answered h.1 h.2⟩
    · cases hk : r.kbCan with
      | true => exact .inl ⟨_, .gaveUp (.inr (.inr rfl)) (.inl hk)⟩
      | false => exact .inl ⟨_, .resumedTM hk⟩
  | kbC =>
    by_cases hd : leaf = .condTransientData
    · subst hd
      exact .inl ⟨_, .kbCancelImmediate⟩
    · exact .inl ⟨_, .kbCancel hl hd⟩

/-! ## Configurations stay well formed -/

theorem StatBlk.rests {env : Env} {r r' : ReceiverY} {leaf : Option RState}
    (h : StatBlk env r leaf r') : ∀ s ∈ leaf, s.rests = true := by
  cases h <;> simp [RState.rests, RState.waits]

theorem remembers_remembered {leaf : RState} {back : Option RState} (hl : leaf.waits = true)
    (hb : Remembers back) : Remembers (leaf.remembered back) := by
  rcases RState.waits_cases hl with rfl | hd | rfl
  · exact .inr (.inl rfl)
  · simpa [RState.remembered, hd] using hb
  · exact .inr (.inr rfl)

theorem rests_resumed {back : Option RState} (hb : Remembers back) :
    (RState.resumed back).rests = true := by
  rcases hb with rfl | rfl | rfl <;> rfl

theorem Trans.wellFormed {env : Env} {mesg : Mesg} {v v' : Config} (h : Trans env mesg v v')
    (hw : v.WellFormed) : v'.WellFormed := by
  obtain ⟨hr, hb⟩ := hw
  cases h with
  | interrupted hl => exact ⟨by simp [RState.rests], remembers_remembered hl hb⟩
  | statBlk hk h => exact ⟨h.rests, hb⟩
  | blkWhenDone hk h => exact ⟨h.rests, hb⟩
  | resumedSER hk hcan => exact ⟨by simpa using rests_resumed hb, hb⟩
  | resumedTM hk => exact ⟨by simpa using rests_resumed hb, hb⟩
  | _ => exact ⟨by first | exact hr | simp [RState.rests, RState.waits], hb⟩

/-! ## Calls are only added -/

section Calls

variable {env : Env} {mesg : Mesg} {next : Option RState} {r r' : ReceiverY} {v v' : Config}

theorem getRestBlk_extends (env : Env) (r : ReceiverY) : r.calls <+: (r.getRestBlk env).calls := by
  have hspec := getRestBlk_spec env r
  generalize r.getRestBlk env = g at hspec ⊢
  cases hspec <;> exact List.prefix_append _ _

theorem closeTransferredFile_extends (env : Env) (r : ReceiverY) :
    r.calls <+: (r.closeTransferredFile env).calls := by
  have hspec := closeTransferredFile_spec env r
  generalize r.closeTransferredFile env = g at hspec ⊢
  cases hspec with
  | notOpen _ => exact List.prefix_rfl
  | _ => exact List.prefix_append _ _

theorem StatBlk.extends (h : StatBlk env r next r') : r.calls <+: r'.calls := by
  cases h with
  | again _ _ _ => simp [countAndWait]
  | noFile _ _ _ _ => simp [ReceiverY.checkForAnotherFile]
  | opened _ _ _ _ _ ho _ =>
    obtain ⟨_, _, _, rfl⟩ := openFileForTransfer_spec.mp ho
    simp [ReceiverY.checkForAnotherFile]
  | creatError _ _ _ _ _ ho _ =>
    obtain ⟨_, _, _, rfl⟩ := openFileForTransfer_spec.mp ho
    simp [ReceiverY.checkForAnotherFile]
  | gaveUp _ => split_ifs <;> simp

theorem Trans.extends (h : Trans env mesg v v') : v.ctx.calls <+: v'.ctx.calls := by
  cases h with
  | @dataBlk _ _ r _ _ =>
    rw [dataBlkRead_eq]
    exact getRestBlk_extends env r
  | @secondEOT _ r _ =>
    exact (closeTransferredFile_extends env r).trans (by simp [acknowledgeEOT])
  | @closeError _ r _ => exact (closeTransferredFile_extends env r).trans (by simp)
  | @statBlk _ r _ _ _ hb =>
    refine List.IsPrefix.trans ?_ hb.extends
    rw [statBlkRead_eq]
    exact getRestBlk_extends env r
  | @blkWhenDone _ r _ _ _ hb => exact (getRestBlk_extends env r).trans hb.extends
  | retry _ _ _ => split_ifs <;> simp [countAndWait]
  | gaveUp _ _ => split_ifs <;> simp
  | answered _ _ =>
    rw [answerDataBlk_eq]
    exact List.prefix_append _ _
  | @abandoned _ r _ =>
    have hc := closeTransferredFile_extends env r.cans
    have hcans : r.calls <+: r.cans.calls := List.prefix_append _ _
    split_ifs <;> exact (hcans.trans hc).trans (by simp)
  | @sndCancelled _ r => exact (closeTransferredFile_extends env r).trans (by simp)
  | _ => simp [countAndWait]

end Calls

end YModem.Receiver
