import YModem.Receiver.Accept
import YModem.Receiver.Output

/-!
# A second copy of the last block

`getRestBlk` takes a block with the number of the last good one for a copy only while a
file is open. `Tolerates` is what the protocol asks for, and the main result says where
the chart grants it.
-/

namespace YModem.Receiver

open YModem.Lib YModem.Peer YModem.SmartState

/-! ## The block accepted last -/

/-- A block accepted as good for the first time, and the calls made since. -/
structure Accepted where
  rest : List UInt8
  since : List Call

namespace Accepted

def track (last : Option Accepted) : Call → Option Accepted
  | .getRestBlk rest _ true => some ⟨rest, []⟩
  | .close fd rc =>
    if rc = 0 then none else last.map fun a => { a with since := a.since ++ [.close fd rc] }
  | call => last.map fun a => { a with since := a.since ++ [call] }

inductive Kind where
  | namesFile
  | data
  | empty
deriving DecidableEq

def firstByte (a : Accepted) : UInt8 := (payloadOf a.rest).getD 0 0

/-- A block was read as a stat block when `checkForAnotherFile` came next. -/
def kind (a : Accepted) : Kind :=
  match a.since.head? with
  | some (.checkForAnotherFile _) => if a.firstByte = 0 then .empty else .namesFile
  | _ => .data

def Kind.answer : Kind → List UInt8
  | .namesFile => [ACK, NCG]
  | _ => [ACK]

end Accepted

/-- The block accepted last, unless a file was closed since. -/
def lastAccepted (calls : List Call) : Option Accepted := calls.foldl Accepted.track none

theorem last_outputs (calls : List Call) :
    (outputs calls).last = (lastAccepted calls).map Accepted.rest := by
  induction calls using List.reverseRecOn with
  | nil => rfl
  | append_singleton calls call ih =>
    simp only [outputs_append, lastAccepted, List.foldl_append, List.foldl_cons, List.foldl_nil]
      at ih ⊢
    cases call with
    | getRestBlk rest goodBlk goodBlk1st =>
      cases goodBlk1st <;> simp [Outputs.add, Accepted.track, Outputs.accept, ih, Function.comp_def]
    | close fd rc =>
      simp only [Outputs.last_close, Accepted.track]
      split_ifs <;> simp [ih, Function.comp_def]
    | _ => simp [Outputs.add, Accepted.track, ih, Function.comp_def]

/-! ## Synchronisation -/

/-- Only `CondTransientData` is left with a loss of synchronisation pending. -/
def InSync (v : Config) : Prop :=
  ∀ leaf ∈ v.leaf, leaf ≠ .condTransientData → v.ctx.syncLoss = false

theorem StatBlk.inSync {env : Env} {r r' : ReceiverY} {next back : Option RState}
    (h : StatBlk env r next r') : InSync ⟨next, back, r'⟩ := by
  cases h with
  | again hs _ _ => exact fun _ _ _ => hs
  | noFile hs _ _ _ => exact fun _ _ _ => hs
  | opened _ hs _ _ _ ho _ =>
    obtain ⟨_, _, _, rfl⟩ := openFileForTransfer_spec.mp ho
    exact fun _ _ _ => hs
  | creatError _ _ _ _ _ _ _ => exact fun _ h => by cases h
  | gaveUp _ => exact fun _ h => by cases h

theorem Trans.inSync {env : Env} {mesg : Mesg} {v v' : Config} (h : Trans env mesg v v')
    (hs : InSync v) : InSync v' := by
  have stopped {back : Option RState} {r : ReceiverY} : InSync ⟨none, back, r⟩ :=
    fun _ h => by cases h
  cases h with
  | ignored _ => exact hs
  | kbCancel _ _ => exact hs
  | purged _ _ _ _ _ => exact hs
  | purgedData => exact hs
  | interrupted hl =>
    rintro _ ⟨⟩ -
    exact hs _ rfl (by rintro rfl; cases hl)
  | dataBlk _ _ => exact fun leaf h hne => absurd (Option.mem_some.mp h).symm hne
  | firstEOT _ => exact fun _ _ _ => hs .firstByteData rfl (by simp)
  | secondEOT _ =>
    intro _ _ _
    show (ReceiverY.closeTransferredFile env _).syncLoss = false
    rw [ReceiverY.closeTransferredFile_syncLoss]
    exact hs .eot rfl (by simp)
  | eotAgain _ _ => exact fun _ _ _ => hs .firstByteStat rfl (by simp)
  | statBlk _ hb => exact hb.inSync
  | blkWhenDone _ hb => exact hb.inSync
  | @retry leaf _ r hl _ _ =>
    have hne : leaf ≠ .condTransientData := by rintro rfl; simp [RState.dataLeaf] at hl
    intro _ _ _
    have : r.syncLoss = false := hs leaf rfl hne
    show (countAndWait env _).syncLoss = false
    split_ifs <;> exact this
  | answered hsync _ =>
    intro _ _ _
    rw [answerDataBlk_eq]
    exact hsync
  | resumedSER _ _ => exact fun _ _ _ => hs .can rfl (by simp)
  | resumedTM _ => exact fun _ _ _ => hs .can rfl (by simp)
  | _ => exact stopped

theorem Reachable.inSync {m : Machine} (h : Reachable m) : InSync (configOf m) :=
  (h.invariant (I := InSync) (fun _ _ _ _ _ => rfl) fun _ hs ht => ht.inSync hs).2

/-! ## Copies -/

/-- A call that opens a file or writes to it. -/
def OpensOrWrites : Call → Prop
  | .creat _ _ _ _ | .write _ _ => True
  | _ => False

/-- The block has been answered as it was the first time, and nothing else has happened. -/
structure Answers (a : Accepted) (m m' : Machine) : Prop where
  running : m'.running = true
  inSync : m'.ctx.syncLoss = false
  answer : ∃ new, m'.ctx.calls = m.ctx.calls ++ new ∧ sentBytes new = a.kind.answer ∧
    ∀ call ∈ new, ¬ OpensOrWrites call

/-- An intact copy of `a` is answered, at once or after the timeout of
`CondTransientData`. -/
def Tolerates (m : Machine) (a : Accepted) : Prop :=
  ∀ env env', env.rest = a.rest → ∃ m₁, yReceiverSS.Step m (env, .ser SOH) m₁ ∧
    if m₁.active = [.condTransientData] then
      ∃ m₂, yReceiverSS.Step m₁ (env', .tm) m₂ ∧ Answers a m m₂
    else Answers a m m₁

section Copies

variable {m : Machine} {leaf : RState} {a : Accepted}

/-- While data blocks are expected, a copy is acknowledged, with a 'C' if a stat block was
the last good block. -/
theorem copy_of_dataBlk (hm : Settled m) (hl : m.active = [leaf]) (hd : leaf.dataLeaf = true)
    (hk : m.ctx.kbCan = false) (he : m.ctx.errCnt ≤ errB - 2) (hs : m.ctx.syncLoss = false)
    (hfd : m.ctx.transferringFileD ≠ -1) {env : Env} (env' : Env) (hi : Intact env.rest)
    (hnum : blkNumOf env.rest = m.ctx.numLastGoodBlk) :
    ∃ m₁ m₂, yReceiverSS.Step m (env, .ser SOH) m₁ ∧ m₁.active = [.condTransientData] ∧
      yReceiverSS.Step m₁ (env', .tm) m₂ ∧ m₂.running = true ∧ m₂.ctx.syncLoss = false ∧
      m₂.ctx.calls = m.ctx.calls ++ .getRestBlk env.rest true false :: .sendByte ACK ::
        (if m.ctx.anotherFile ≠ 0 then [.sendByte NCG] else []) := by
  obtain ⟨m₁, hs₁, hc₁⟩ := Trans.step hm (config_of_active hl ▸ @Trans.dataBlk env _ _ _ hd hk)
  have hm₁ := (step_trans hm hs₁).1
  have hr₁ : m₁.ctx = _ := congrArg Config.ctx hc₁
  rw [dataBlkRead_eq, getRestBlk_resent hi hfd hnum] at hr₁
  have hl₁ : m₁.active = [.condTransientData] := by
    rw [hm₁.active_eq, hc₁]
    rfl
  have herr : m₁.ctx.errCnt < errB := by
    rw [hr₁]
    show (m.ctx.errCnt + 1) % UINT_RANGE < errB
    have hmod := Nat.mod_le (m.ctx.errCnt + 1) UINT_RANGE
    simp only [errB] at he ⊢
    omega
  obtain ⟨m₂, hs₂, hc₂⟩ := Trans.step hm₁ (config_of_active hl₁ ▸ @Trans.answered env' _ _
    (by rw [hr₁]; exact hs) herr)
  have hm₂ := (step_trans hm₁ hs₂).1
  have hr₂ : m₂.ctx = _ := congrArg Config.ctx hc₂
  rw [answerDataBlk_eq] at hr₂
  refine ⟨m₁, m₂, hs₁, hl₁, hs₂, by rw [hm₂.running_eq, hc₂]; rfl, by rw [hr₂, hr₁]; exact hs, ?_⟩
  rw [hr₂, hr₁]
  simp

/-- Where a stat block is due, the block that was read is judged by `CondlTransientStat`. -/
theorem trans_statLeaf {back : Option RState} {r : ReceiverY} (env : Env)
    (hl : leaf = .firstByteStat ∨ leaf = .areWeDone) (hk : r.kbCan = false) :
    ∃ errCnt closeProb, errCnt ≤ r.errCnt + 1 ∧ ∀ v', Trans env (.ser SOH) ⟨some leaf, back, r⟩ v' ↔
      ∃ next r', v' = ⟨next, back, r'⟩ ∧ StatBlk env
        { r.getRestBlk env with errCnt := errCnt, closeProb := closeProb } next r' := by
  rcases hl with rfl | rfl
  · refine ⟨if r.closeProb = 0 then 0 else r.errCnt, if r.closeProb = 0 then -1 else r.closeProb,
      by split_ifs <;> omega, fun v' => ?_⟩
    rw [← statBlkRead_eq]
    constructor
    · intro h
      cases h with
      | purged _ _ _ hsoh _ => exact absurd rfl hsoh
      | kbCancelDelayed _ hk' _ _ => simp [hk] at hk'
      | dataBlk hd _ => cases hd
      | statBlk _ h => exact ⟨_, _, rfl, h⟩
    · rintro ⟨next, r', rfl, h⟩
      exact .statBlk hk h
  · refine ⟨((r.getRestBlk env).peer (·.incErrCnt)).errCnt, r.closeProb, ?_, fun v' => ?_⟩
    · simpa using Nat.mod_le (r.errCnt + 1) UINT_RANGE
    have hread : ({ r.getRestBlk env with
        errCnt := ((r.getRestBlk env).peer (·.incErrCnt)).errCnt, closeProb := r.closeProb } :
        ReceiverY) = (r.getRestBlk env).peer (·.incErrCnt) := by
      rw [← r.getRestBlk_closeProb env]
      rfl
    rw [hread]
    constructor
    · intro h
      cases h with
      | purged _ _ _ hsoh _ => exact absurd rfl hsoh
      | kbCancelDelayed _ hk' _ _ => simp [hk] at hk'
      | dataBlk hd _ => cases hd
      | blkWhenDone _ h => exact ⟨_, _, rfl, h⟩
    · rintro ⟨next, r', rfl, h⟩
      exact .blkWhenDone hk h

/-- Where a stat block is due, a copy that starts with a NUL byte is acknowledged while a
file is open. -/
theorem copy_of_emptyStatBlk (hm : Settled m) (hl : m.active = [leaf])
    (hleaf : leaf = .firstByteStat ∨ leaf = .areWeDone) (hk : m.ctx.kbCan = false)
    (he : m.ctx.errCnt ≤ errB - 2) (hs : m.ctx.syncLoss = false)
    (hfd : m.ctx.transferringFileD ≠ -1) {env : Env} (hi : Intact env.rest)
    (hnum : blkNumOf env.rest = m.ctx.numLastGoodBlk) (h0 : (payloadOf env.rest).getD 0 0 = 0) :
    ∃ m₁, yReceiverSS.Step m (env, .ser SOH) m₁ ∧ m₁.active = [.areWeDone] ∧
      m₁.ctx.syncLoss = false ∧
      m₁.ctx.calls = m.ctx.calls ++
        [.getRestBlk env.rest true false, .checkForAnotherFile 0, .sendByte ACK] := by
  obtain ⟨e, c, hle, htrans⟩ := @trans_statLeaf leaf (m.history .nonCan) m.ctx env hleaf hk
  rw [getRestBlk_resent hi hfd hnum] at htrans
  have hbyte := m.ctx.rcvBlk.get_dataPos env.rest_le hi.length_eq
  rw [h0] at hbyte
  have hlt : e < errB := by
    simp only [errB] at he ⊢
    omega
  have hstat := (htrans _).mpr ⟨_, _, rfl, .noFile hs hlt rfl hbyte⟩
  obtain ⟨m₁, hs₁, hc₁⟩ := Trans.step hm (config_of_active hl ▸ hstat)
  have hr₁ : m₁.ctx = _ := congrArg Config.ctx hc₁
  refine ⟨m₁, hs₁, ?_, by rw [hr₁]; exact hs, ?_⟩
  · rw [(step_trans hm hs₁).1.active_eq, hc₁]
    rfl
  · rw [hr₁]
    simp [ReceiverY.checkForAnotherFile, hbyte]

/-- Any other copy read there ends the session or opens a file. -/
theorem statLeaf_of_answers (hm : Settled m) (hl : m.active = [leaf])
    (hleaf : leaf = .firstByteStat ∨ leaf = .areWeDone) (hk : m.ctx.kbCan = false) {env : Env}
    (hi : Intact env.rest) (hnum : blkNumOf env.rest = m.ctx.numLastGoodBlk) {m₁ : Machine}
    (hs₁ : yReceiverSS.Step m (env, .ser SOH) m₁) :
    m₁.active ≠ [.condTransientData] ∧
      (Answers a m m₁ → m.ctx.transferringFileD ≠ -1 ∧ (payloadOf env.rest).getD 0 0 = 0) := by
  obtain ⟨hm₁, ht⟩ := step_trans hm hs₁
  obtain ⟨e, c, -, htrans⟩ := @trans_statLeaf leaf (m.history .nonCan) m.ctx env hleaf hk
  rw [config_of_active hl] at ht
  obtain ⟨next, r', hc₁, hb⟩ := (htrans _).mp ht
  have hr₁ : m₁.ctx = r' := congrArg Config.ctx hc₁
  have hact : m₁.active = next.toList := by rw [hm₁.active_eq, hc₁]
  have hrun : m₁.running = next.isSome := by rw [hm₁.running_eq, hc₁]
  refine ⟨?_, fun h => ?_⟩
  · rw [hact]
    cases hb <;> simp
  have hsome : next.isSome = true := hrun.symm.trans h.running
  by_cases hfd : m.ctx.transferringFileD = -1
  · have hlost : (m.ctx.getRestBlk env).syncLoss = true := by
      have hspec := getRestBlk_spec env m.ctx
      generalize m.ctx.getRestBlk env = g at hspec ⊢
      cases hspec with
      | bad _ _ hbad => exact absurd hi hbad
      | lost _ _ => rfl
      | resent _ hne _ => exact absurd hfd hne
      | first _ hnext => simp [hnum] at hnext
    cases hb with
    | creatError _ _ _ _ _ _ _ => cases hsome
    | gaveUp _ => cases hsome
    | again hs _ _ => exact absurd (hlost.symm.trans hs) (by decide)
    | noFile hs _ _ _ => exact absurd (hlost.symm.trans hs) (by decide)
    | opened _ hs _ _ _ _ _ => exact absurd (hlost.symm.trans hs) (by decide)
  · refine ⟨hfd, ?_⟩
    rw [getRestBlk_resent hi hfd hnum] at hb
    cases hb with
    | again _ _ hg => cases hg
    | noFile _ _ _ ha => exact (m.ctx.rcvBlk.get_dataPos env.rest_le hi.length_eq).symm.trans ha
    | opened _ _ _ _ _ ho _ =>
      obtain ⟨fileName, size, -, rfl⟩ := openFileForTransfer_spec.mp ho
      obtain ⟨new, hnew, -, hno⟩ := h.answer
      simp only [hr₁, ReceiverY.checkForAnotherFile, ReceiverY.peer_toPeerY, PeerY.log_calls,
        PeerY.sendByte_calls, PeerY.tm_calls, List.append_assoc, List.append_cancel_left_eq] at hnew
      exact (hno (.creat fileName size m.ctx.transferringFileD env.creat)
        (by simp [← hnew]) trivial).elim
    | creatError _ _ _ _ _ _ _ => cases hsome
    | gaveUp _ => cases hsome

theorem answer_eq_iff (anotherFile : UInt8) (k : Accepted.Kind) :
    sentBytes (.sendByte ACK :: if anotherFile ≠ 0 then [.sendByte NCG] else []) = k.answer ↔
      (anotherFile ≠ 0 ↔ k = .namesFile) := by
  by_cases h : anotherFile ≠ 0 <;> cases k <;> simp [h, sentBytes, Accepted.Kind.answer]

theorem tolerates_dataLeaf (hm : Settled m) (hl : m.active = [leaf]) (hd : leaf.dataLeaf = true)
    (hk : m.ctx.kbCan = false) (he : m.ctx.errCnt ≤ errB - 2) (hs : m.ctx.syncLoss = false)
    (hfd : m.ctx.transferringFileD ≠ -1) (hi : Intact a.rest)
    (hnum : blkNumOf a.rest = m.ctx.numLastGoodBlk) :
    Tolerates m a ↔ (m.ctx.anotherFile ≠ 0 ↔ a.kind = .namesFile) := by
  rw [← answer_eq_iff]
  constructor
  · intro h
    have hcalm : (Env.calm a.rest).rest = a.rest :=
      List.take_of_length_le (by rw [hi.length_eq]; decide)
    obtain ⟨m₁, hs₁, hm₁⟩ := h (.calm a.rest) (.calm []) hcalm
    obtain ⟨n₁, n₂, ht₁, hl₁, ht₂, -, -, hcalls⟩ := copy_of_dataBlk hm hl hd hk he hs hfd
      (.calm []) (by rwa [hcalm]) (by rwa [hcalm])
    cases Except.ok.inj (hs₁.symm.trans ht₁)
    rw [if_pos hl₁] at hm₁
    obtain ⟨m₂, hs₂, hans⟩ := hm₁
    cases Except.ok.inj (hs₂.symm.trans ht₂)
    obtain ⟨new, hnew, hsent, -⟩ := hans.answer
    rw [hcalls, List.append_cancel_left_eq] at hnew
    rw [← hsent, ← hnew]
    rfl
  · intro h env env' henv
    obtain ⟨m₁, m₂, hs₁, hl₁, hs₂, hrun, hsync, hcalls⟩ := copy_of_dataBlk hm hl hd hk he hs hfd
      env' (henv ▸ hi) (henv ▸ hnum)
    refine ⟨m₁, hs₁, ?_⟩
    rw [if_pos hl₁]
    refine ⟨m₂, hs₂, hrun, hsync, _, hcalls, h, ?_⟩
    intro call hcall
    split_ifs at hcall <;> simp at hcall
    · rcases hcall with rfl | rfl | rfl <;> exact id
    · rcases hcall with rfl | rfl <;> exact id

theorem tolerates_statLeaf (hm : Settled m) (hl : m.active = [leaf])
    (hleaf : leaf = .firstByteStat ∨ leaf = .areWeDone) (hk : m.ctx.kbCan = false)
    (he : m.ctx.errCnt ≤ errB - 2) (hs : m.ctx.syncLoss = false) (hi : Intact a.rest)
    (hnum : blkNumOf a.rest = m.ctx.numLastGoodBlk) :
    Tolerates m a ↔ m.ctx.transferringFileD ≠ -1 ∧ a.firstByte = 0 := by
  constructor
  · intro h
    have hcalm : (Env.calm a.rest).rest = a.rest :=
      List.take_of_length_le (by rw [hi.length_eq]; decide)
    obtain ⟨m₁, hs₁, hm₁⟩ := h (.calm a.rest) (.calm []) hcalm
    obtain ⟨hne, hans⟩ := statLeaf_of_answers (a := a) hm hl hleaf hk (by rwa [hcalm])
      (by rwa [hcalm]) hs₁
    rw [if_neg hne] at hm₁
    rw [hcalm] at hans
    exact hans hm₁
  · rintro ⟨hfd, h0⟩ env env' henv
    obtain ⟨m₁, hs₁, hl₁, hsync, hcalls⟩ := copy_of_emptyStatBlk hm hl hleaf hk he hs hfd
      (henv ▸ hi) (henv ▸ hnum) (by rw [henv]; exact h0)
    refine ⟨m₁, hs₁, ?_⟩
    rw [if_neg (by simp [hl₁])]
    refine ⟨(step_trans hm hs₁).1.running_of_active hl₁, hsync, _, hcalls, ?_, ?_⟩
    · unfold Accepted.kind
      split
      · rw [if_pos h0]
        rfl
      · rfl
    · simp [OpensOrWrites]

end Copies

/-- **Where a second copy of the last block is tolerated.** -/
theorem tolerates_iff {m : Machine} {leaf : RState} {a : Accepted} (h : Reachable m)
    (hl : m.active = [leaf])
    (hw : leaf = .firstByteStat ∨ leaf = .firstByteData ∨ leaf = .eot ∨ leaf = .areWeDone)
    (he : m.ctx.errCnt ≤ errB - 2) (hk : m.ctx.kbCan = false)
    (ha : lastAccepted m.ctx.calls = some a) :
    Tolerates m a ↔
      ((leaf = .firstByteData ∨ leaf = .eot) ∧ (m.ctx.anotherFile ≠ 0 ↔ a.kind = .namesFile)) ∨
      ((leaf = .firstByteStat ∨ leaf = .areWeDone) ∧ m.ctx.transferringFileD ≠ -1 ∧
        a.firstByte = 0) := by
  have hm := h.settled
  have hkept := h.kept
  have hsync := h.inSync
  rw [config_of_active hl] at hkept hsync
  have hlast : (outputs m.ctx.calls).last = some a.rest := by rw [last_outputs, ha]; rfl
  have hi : Intact a.rest := hkept.lastBlk.2 _ hlast
  have hnum : blkNumOf a.rest = m.ctx.numLastGoodBlk := by
    have hl := hkept.lastBlk.1
    rw [Outputs.lastNum, hlast] at hl
    exact hl.symm
  have hs : m.ctx.syncLoss = false := hsync leaf rfl (by rcases hw with rfl | rfl | rfl | rfl <;> simp)
  cases hd : leaf.dataLeaf with
  | true =>
    have htr := hkept.transferring leaf rfl (transfers_of_dataLeaf hd)
    have hfd : m.ctx.transferringFileD ≠ -1 := by
      have : -1 < m.ctx.transferringFileD := htr.isOpen
      omega
    rw [tolerates_dataLeaf hm hl hd hk he hs hfd hi hnum]
    rcases RState.dataLeaf_cases hd with rfl | rfl <;> simp
  | false =>
    have hleaf : leaf = .firstByteStat ∨ leaf = .areWeDone := by
      rcases hw with rfl | rfl | rfl | rfl <;> simp [RState.dataLeaf] at hd ⊢
    rw [tolerates_statLeaf hm hl hleaf hk he hs hi hnum]
    rcases hleaf with rfl | rfl <;> simp

theorem tolerates_stat_block : ∃ m a, Reachable m ∧ m.active = [.firstByteData] ∧
    lastAccepted m.ctx.calls = some a ∧ a.kind = .namesFile ∧ Tolerates m a := by
  obtain ⟨m, hopen, hm, hl, -, hnum, ho⟩ := opens_named_file [97] [53]
    started_startedMachine.settled rfl rfl rfl (by decide) (by decide) (by decide) (by decide)
    (by decide) (by decide : stoi [53] = some 5)
  have hchunk := @length_statChunk [97] [53] (by decide)
  have hreach : Reachable m := ⟨_, _, started_startedMachine, .single hopen⟩
  obtain ⟨a, ha, hrest, hkind⟩ : ∃ a, lastAccepted m.ctx.calls = some a ∧
      a.rest = restOf (startedMachine.ctx.numLastGoodBlk + 1) (statChunk [97] [53]) ∧
      a.since.head? = some (.checkForAnotherFile m.ctx.anotherFile) := by
    rw [ho.calls, calm_rest _ hchunk]
    simp [lastAccepted, Accepted.track]
  have hnames : a.kind = .namesFile := by
    have hfirst : a.firstByte ≠ 0 := by
      rw [Accepted.firstByte, hrest, payloadOf_restOf _ hchunk]
      decide
    simp [Accepted.kind, hkind, hfirst]
  have herr : m.ctx.errCnt ≤ errB - 2 := ho.errCnt.trans (by decide)
  exact ⟨m, a, hreach, hl, ha, hnames, (tolerates_iff hreach hl (.inr (.inl rfl)) herr ho.kbCan
    ha).mpr (.inl ⟨.inl rfl, by simp [ho.anotherFile, hnames]⟩)⟩

/-- The final empty stat block, of which a second copy is read in `AreWeDone`. -/
theorem final_stat_block_not_tolerated : ∃ m a, Reachable m ∧ m.active = [.areWeDone] ∧
    m.ctx.errCnt ≤ errB - 2 ∧ m.ctx.kbCan = false ∧ lastAccepted m.ctx.calls = some a ∧
    a.kind = .empty ∧ ¬ Tolerates m a := by
  obtain ⟨m, hend, hm, hl, he⟩ := ends_empty_batch
  have hlen : (padded 0 []).length = CHUNK_SZ := length_padded (by simp)
  have hrest := calm_rest 0 hlen
  have hnum := he.numLastGoodBlk
  have hcalls := he.calls
  rw [hrest] at hnum hcalls
  have herr : m.ctx.errCnt ≤ errB - 2 := he.errCnt.trans (by decide)
  refine ⟨m, ⟨restOf 0 (padded 0 []), [.checkForAnotherFile 0, .sendByte ACK]⟩,
    ⟨_, _, started_startedMachine, .single hend⟩, hl, herr, he.kbCan, ?_, ?_, ?_⟩
  · rw [hcalls]
    simp [lastAccepted, Accepted.track]
  · simp only [Accepted.kind, Accepted.firstByte, payloadOf_restOf 0 hlen, List.head?_cons]
    rfl
  · rw [tolerates_statLeaf hm hl (.inr rfl) he.kbCan herr he.syncLoss (restOf_intact 0 hlen)
      hnum.symm]
    exact fun ⟨hfd, _⟩ => hfd he.transferringFileD

end YModem.Receiver
