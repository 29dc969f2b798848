import YModem.Session.ReceivingBlks

/-!
# Both charts and the lines between them

A move is an event at one of the two ends or a fault of a line. `sendLastByte` waits in
`myTcdrain` until the receiver reads the block and then calls `dumpGlitches`: a sender that has
written a block is `draining` and reads no response before the receiver starts to read that
block, and the responses that it then finds are thrown away. Every run of the two charts is one
of the two ends of `StopAndWait`.
-/

namespace YModem.Session

open YModem.Lib YModem.Peer YModem.SmartState YModem.Sender YModem.Receiver StopAndWait

/-! ## The composed system -/

structure Sys where
  snd : Sender.Machine
  rcv : Receiver.Machine
  draining : Bool
  toR : List Item
  toS : List UInt8

/-- What happens next, with the answers of the operating system. -/
inductive Move where
  /-- The sender reads a response. -/
  | answer (env : Sender.Env)
  | sndTM (env : Sender.Env)
  /-- The receiver reads a message that has arrived undamaged. -/
  | read (env : Receiver.Env)
  /-- The receiver reads an SOH and a rest that `getRestBlk` finds not good. -/
  | readDamaged (env : Receiver.Env)
  /-- The receiver reads a byte that is none of the protocol's. -/
  | readNoise (env : Receiver.Env) (c : UInt8)
  /-- The message has been thrown away together with the one before it. -/
  | lose
  | rcvTM (env : Receiver.Env)
  /-- The response number `n` is lost. -/
  | drop (n : Nat)
  /-- The response number `n` becomes a NAK. -/
  | nak (n : Nat)

/-- The byte that an item begins with. -/
def firstByte : Item → UInt8
  | .blk bytes => bytes.headD SOH
  | .eot => EOT

def isBlock : Item → Bool
  | .blk _ => true
  | .eot => false

/-- The answers of the system when the item has arrived undamaged. -/
def arriving (env : Receiver.Env) : Item → Receiver.Env
  | .blk bytes => reading env bytes
  | .eot => env

namespace Sys

/-- Both machines when they have been started: the receiver has sent its first 'C'. -/
def init (snd : Sender.Machine) (rcv : Receiver.Machine) : Sys :=
  ⟨snd, rcv, false, [], sentBytes rcv.ctx.calls⟩

/-- The sender has handled an event. -/
def sends (y : Sys) (snd : Sender.Machine) (toS : List UInt8) : Sys :=
  let items := (itemsSent snd.ctx.calls).drop (itemsSent y.snd.ctx.calls).length
  { y with
    snd, toS
    draining := y.draining || items.any isBlock
    toR := y.toR ++ items }

/-- The bytes sent while the receiver has handled an event. -/
def responses (y : Sys) (rcv : Receiver.Machine) : List UInt8 :=
  (sentBytes rcv.ctx.calls).drop (sentBytes y.rcv.ctx.calls).length

/-- The receiver has read a message. When it is a block, the responses that were under way have
been thrown away and the sender goes on. -/
def reads (y : Sys) (item : Item) (toR : List Item) (rcv : Receiver.Machine) : Sys :=
  if isBlock item then { y with rcv, toR, draining := false, toS := y.responses rcv }
  else { y with rcv, toR, toS := y.toS ++ y.responses rcv }

def exec (y : Sys) : Move → Option Sys
  | .answer env =>
    match y.draining, y.toS with
    | false, c :: toS => (ySenderSS.postEvent env (.ser c) y.snd).toOption.map (y.sends · toS)
    | _, _ => none
  | .sndTM env => (ySenderSS.postEvent env .tm y.snd).toOption.map (y.sends · y.toS)
  | .read env =>
    match y.toR with
    | item :: toR =>
      (yReceiverSS.postEvent (arriving env item) (.ser (firstByte item)) y.rcv).toOption.map
        (y.reads item toR)
    | [] => none
  | .readDamaged env =>
    match y.toR with
    | item :: toR =>
      if (y.rcv.ctx.getRestBlk env).goodBlk then none
      else (yReceiverSS.postEvent env (.ser SOH) y.rcv).toOption.map (y.reads item toR)
    | [] => none
  | .readNoise env c =>
    match y.toR with
    | item :: toR =>
      if c = SOH ∨ c = EOT ∨ c = CAN then none
      else (yReceiverSS.postEvent env (.ser c) y.rcv).toOption.map (y.reads item toR)
    | [] => none
  | .lose =>
    match y.toR with
    | item :: toR => some (y.reads item toR y.rcv)
    | [] => none
  | .rcvTM env =>
    (yReceiverSS.postEvent env .tm y.rcv).toOption.map fun rcv =>
      { y with rcv, toS := y.toS ++ y.responses rcv }
  | .drop n => if n < y.toS.length then some { y with toS := y.toS.eraseIdx n } else none
  | .nak n => if n < y.toS.length then some { y with toS := y.toS.set n NAK } else none

def Step (y : Sys) (mv : Move) (y' : Sys) : Prop := y.exec mv = some y'

/-- Both machines are started on a calm system, and the moves are made. -/
def session (files : List File) (moves : List Move) : Option Sys :=
  (ySenderSS.start .calm (.init files fun _ => .blank)).toOption.bind fun snd =>
    (yReceiverSS.start (.calm []) (.init .blank)).toOption.bind fun rcv =>
      moves.foldlM exec (init snd rcv)

end Sys

/-! ## Every move is a step of stop and wait -/

/-- A state of the two ends tells where the two machines are and what travels. -/
structure Joins (files : List File) (a : State) (y : Sys) : Prop where
  sndSettled : Sender.Settled y.snd
  rcvSettled : Receiver.Settled y.rcv
  snd : SndAt files a.snd (Sender.configOf y.snd)
  rcv : RcvAt files a.rcv (Receiver.configOf y.rcv)
  draining : y.draining = a.draining
  toR : y.toR = a.toR.map (itemOfMsg files)
  toS : y.toS = a.toS

section Steps

variable {files : List File} {a : State} {y y' : Sys} {mv : Move} {m : Msg} {toR : List Msg}

theorem isBlock_itemOfMsg (files : List File) (m : Msg) :
    isBlock (itemOfMsg files m) = m.isBlk := by
  cases m <;> rfl

theorem firstByte_blk (files : List File) (i k : Nat) :
    firstByte (itemOfMsg files (.blk i k)) = SOH := by
  simp only [itemOfMsg, firstByte, blkOf]
  split
  · split_ifs
    · rfl
    · cases k <;> rfl
  · rfl

/-- What the sender has sent follows from the calls. -/
theorem Sys.sends_eq {snd : Sender.Machine} {msgs : List Msg} {toS : List UInt8}
    (h : itemsSent snd.ctx.calls = itemsSent y.snd.ctx.calls ++ msgs.map (itemOfMsg files)) :
    y.sends snd toS = { y with
      snd, toS
      draining := y.draining || msgs.any Msg.isBlk
      toR := y.toR ++ msgs.map (itemOfMsg files) } := by
  have hany : (msgs.map (itemOfMsg files)).any isBlock = msgs.any Msg.isBlk := by
    rw [List.any_map]
    exact congrArg msgs.any (funext (isBlock_itemOfMsg files))
  simp only [Sys.sends, h, List.drop_left, hany]

theorem Sys.responses_eq {rcv : Receiver.Machine} {out : List UInt8}
    (h : sentBytes rcv.ctx.calls = sentBytes y.rcv.ctx.calls ++ out) : y.responses rcv = out := by
  rw [Sys.responses, h, List.drop_left]

/-- A response is read. -/
theorem Joins.answers {env : Sender.Env} {c : UInt8} {toS : List UInt8} {snd : Sender.Machine}
    (h : Joins files a y) (ha : Agree (chunksOf files) a) (hcan : CAN ∉ a.toS)
    (hd : y.draining = false) (hq : y.toS = c :: toS)
    (hs : ySenderSS.Step y.snd (env, .ser c) snd) :
    ∃ a', StopAndWait.Step (chunksOf files) a a' ∧ Joins files a' (y.sends snd toS) := by
  obtain ⟨s, r, d, toR, q⟩ := a
  obtain ⟨hset, ht⟩ := Sender.step_trans h.sndSettled hs
  obtain rfl : d = false := h.draining.symm.trans hd
  obtain rfl : q = c :: toS := h.toS.symm.trans hq
  have hone (i : Nat) (hp : s = .one i) : Names files i := by
    subst hp
    obtain rfl : r = .receiving i 0 := ha.created
    exact h.rcv.named i rfl
  have hne : c ≠ CAN := fun hc => hcan (hc ▸ .head _)
  obtain ⟨msgs, p', hans, hat, hsent⟩ := h.snd.answers ht hne hone
  refine ⟨_, .answers hans, ?_⟩
  rw [Sys.sends_eq hsent]
  exact ⟨hset, h.rcvSettled, hat, h.rcv, by rw [h.draining, Bool.false_or],
    by rw [h.toR, List.map_append], rfl⟩

/-- A message is read. -/
theorem Joins.reads {rcv : Receiver.Machine} (h : Joins files a y) (hq : a.toR = m :: toR)
    (hset : Receiver.Settled rcv)
    (hr : ReadsAs files a.rcv m (Receiver.configOf y.rcv) (Receiver.configOf rcv)) :
    ∃ a', StopAndWait.Step (chunksOf files) a a' ∧
      Joins files a' (y.reads (itemOfMsg files m) (toR.map (itemOfMsg files)) rcv) := by
  obtain ⟨out, p', hreads, hat, hsent⟩ := hr
  have hout := Sys.responses_eq hsent
  obtain ⟨s, r, d, q, toS⟩ := a
  cases hq
  cases m with
  | blk i k =>
    refine ⟨_, .readsBlk hreads, ?_⟩
    rw [Sys.reads, isBlock_itemOfMsg, hout]
    exact ⟨h.sndSettled, hset, h.snd, hat, rfl, rfl, rfl⟩
  | eot =>
    refine ⟨_, .readsEot hreads, ?_⟩
    rw [Sys.reads, isBlock_itemOfMsg, hout]
    exact ⟨h.sndSettled, hset, h.snd, hat, h.draining, rfl, congrArg (· ++ out) h.toS⟩

/-- The message at the head of the line is one that has been sent. -/
theorem Joins.head {item : Item} {rest : List Item} (h : Joins files a y)
    (hq : y.toR = item :: rest) :
    ∃ m toR, a.toR = m :: toR ∧ item = itemOfMsg files m ∧ rest = toR.map (itemOfMsg files) := by
  obtain ⟨m, toR, hm, rfl, rfl⟩ := List.map_eq_cons_iff.mp (h.toR.symm.trans hq)
  exact ⟨m, toR, hm, rfl, rfl⟩

theorem Joins.expects (h : Joins files a y) (ha : Agree (chunksOf files) a)
    (hq : a.toR = m :: toR) : Expects (chunksOf files) a.rcv m := by
  obtain ⟨s, r, d, q, toS⟩ := a
  cases hq
  exact ha.expects

/-- A message arrives undamaged. -/
theorem Joins.readsIntact {env : Receiver.Env} {rcv : Receiver.Machine} (h : Joins files a y)
    (ha : Agree (chunksOf files) a) (hq : a.toR = m :: toR)
    (hs : yReceiverSS.Step y.rcv (arriving env (itemOfMsg files m),
      .ser (firstByte (itemOfMsg files m))) rcv) :
    ∃ a', StopAndWait.Step (chunksOf files) a a' ∧
      Joins files a' (y.reads (itemOfMsg files m) (toR.map (itemOfMsg files)) rcv) := by
  obtain ⟨hset, ht⟩ := Receiver.step_trans h.rcvSettled hs
  have he := h.expects ha hq
  apply h.reads hq hset
  cases m with
  | blk i k =>
    exact readsAs_blk h.rcv h.rcvSettled.wellFormed ht (firstByte_blk files i k)
      (.inr ⟨i, k, rfl, he, rfl⟩)
  | eot =>
    exact readsAs_byte (c := EOT) h.rcv h.rcvSettled.wellFormed ht (by decide) (by decide)
      fun _ => ⟨rfl, he⟩

/-- A message arrives damaged, as something that `getRestBlk` finds not good. -/
theorem Joins.readsDamaged {env : Receiver.Env} {rcv : Receiver.Machine} (h : Joins files a y)
    (hq : a.toR = m :: toR) (hg : (y.rcv.ctx.getRestBlk env).goodBlk = false)
    (hs : yReceiverSS.Step y.rcv (env, .ser SOH) rcv) :
    ∃ a', StopAndWait.Step (chunksOf files) a a' ∧
      Joins files a' (y.reads (itemOfMsg files m) (toR.map (itemOfMsg files)) rcv) := by
  obtain ⟨hset, ht⟩ := Receiver.step_trans h.rcvSettled hs
  apply h.reads hq hset
  exact readsAs_blk h.rcv h.rcvSettled.wellFormed ht rfl (.inl hg)

/-- A message arrives damaged, as a byte that begins no message. -/
theorem Joins.readsNoise {env : Receiver.Env} {c : UInt8} {rcv : Receiver.Machine}
    (h : Joins files a y) (hq : a.toR = m :: toR) (hc : ¬(c = SOH ∨ c = EOT ∨ c = CAN))
    (hs : yReceiverSS.Step y.rcv (env, .ser c) rcv) :
    ∃ a', StopAndWait.Step (chunksOf files) a a' ∧
      Joins files a' (y.reads (itemOfMsg files m) (toR.map (itemOfMsg files)) rcv) := by
  obtain ⟨hset, ht⟩ := Receiver.step_trans h.rcvSettled hs
  simp only [not_or] at hc
  apply h.reads hq hset
  exact readsAs_byte h.rcv h.rcvSettled.wellFormed ht hc.1 hc.2.2 fun he => absurd he hc.2.1

theorem Joins.loses (h : Joins files a y) (hq : a.toR = m :: toR) :
    ∃ a', StopAndWait.Step (chunksOf files) a a' ∧
      Joins files a' (y.reads (itemOfMsg files m) (toR.map (itemOfMsg files)) y.rcv) :=
  h.reads hq h.rcvSettled ⟨[], a.rcv, .ignored, h.rcv, by simp⟩

theorem Joins.sndTimesOut {env : Sender.Env} {snd : Sender.Machine} (h : Joins files a y)
    (hs : ySenderSS.Step y.snd (env, .tm) snd) : Joins files a (y.sends snd y.toS) := by
  obtain ⟨hset, ht⟩ := Sender.step_trans h.sndSettled hs
  obtain ⟨hat, hsent⟩ := h.snd.timesOut ht
  have hnone : itemsSent snd.ctx.calls =
      itemsSent y.snd.ctx.calls ++ [].map (itemOfMsg files) := hsent.trans (List.append_nil _).symm
  rw [Sys.sends_eq hnone]
  exact ⟨hset, h.rcvSettled, hat, h.rcv, by simpa using h.draining, by simpa using h.toR, h.toS⟩

theorem Joins.rcvTimesOut {env : Receiver.Env} {rcv : Receiver.Machine} (h : Joins files a y)
    (hs : yReceiverSS.Step y.rcv (env, .tm) rcv) :
    ∃ a', StopAndWait.Step (chunksOf files) a a' ∧
      Joins files a' { y with rcv, toS := y.toS ++ y.responses rcv } := by
  obtain ⟨hset, ht⟩ := Receiver.step_trans h.rcvSettled hs
  rcases h.rcv.timesOut h.rcvSettled.wellFormed ht with ⟨hat, hsent⟩ | ⟨out, p', hout, hat, hsent⟩
  · refine ⟨a, .idle, ?_⟩
    rw [Sys.responses_eq (hsent.trans (List.append_nil _).symm), List.append_nil]
    exact ⟨h.sndSettled, hset, h.snd, hat, h.draining, h.toR, h.toS⟩
  · refine ⟨_, .timesOut hout, ?_⟩
    rw [Sys.responses_eq hsent]
    exact ⟨h.sndSettled, hset, h.snd, hat, h.draining, h.toR, congrArg (· ++ out) h.toS⟩

theorem Joins.disturbed {toS : List UInt8} (h : Joins files a y) (hd : Disturbed a.toS toS) :
    ∃ a', StopAndWait.Step (chunksOf files) a a' ∧ Joins files a' { y with toS } :=
  ⟨_, .disturbed hd, h.sndSettled, h.rcvSettled, h.snd, h.rcv, h.draining, h.toR, rfl⟩

/-- The responses before and behind a response. -/
theorem disturbed_at {toS : List UInt8} {n : Nat} (hn : n < toS.length) :
    Disturbed toS (toS.eraseIdx n) ∧ Disturbed toS (toS.set n NAK) := by
  have hsplit : toS = toS.take n ++ toS[n] :: toS.drop (n + 1) := by
    rw [List.cons_getElem_drop_succ, List.take_append_drop]
  constructor
  · rw [List.eraseIdx_eq_take_drop_succ]
    nth_rewrite 1 [hsplit]
    exact .dropped _ _ _
  · rw [List.set_eq_take_append_cons_drop, if_pos hn]
    nth_rewrite 1 [hsplit]
    exact .naked _ _ _

theorem toOption_map_inv {α β : Type} {x : Except Fault α} {f : α → β} {b : β}
    (h : x.toOption.map f = some b) : ∃ a, x = .ok a ∧ f a = b := by
  cases x with
  | error e => cases h
  | ok a => exact ⟨a, rfl, Option.some.inj h⟩

/-- **Every move is a step of the two ends.** -/
theorem Joins.step (h : Joins files a y) (ha : Agree (chunksOf files) a) (hcan : CAN ∉ a.toS)
    (hs : Sys.Step y mv y') :
    ∃ a', StopAndWait.Step (chunksOf files) a a' ∧ Joins files a' y' := by
  cases mv with
  | answer env =>
    cases hd : y.draining with
    | true => simp [Sys.Step, Sys.exec, hd] at hs
    | false =>
      cases hq : y.toS with
      | nil => simp [Sys.Step, Sys.exec, hd, hq] at hs
      | cons c toS =>
        simp only [Sys.Step, Sys.exec, hd, hq] at hs
        obtain ⟨snd, hpost, rfl⟩ := toOption_map_inv hs
        exact h.answers ha hcan hd hq hpost
  | sndTM env =>
    obtain ⟨snd, hpost, rfl⟩ := toOption_map_inv hs
    exact ⟨a, .idle, h.sndTimesOut hpost⟩
  | read env =>
    cases hq : y.toR with
    | nil => simp [Sys.Step, Sys.exec, hq] at hs
    | cons item rest =>
      obtain ⟨m, toR, hm, rfl, rfl⟩ := h.head hq
      simp only [Sys.Step, Sys.exec, hq] at hs
      obtain ⟨rcv, hpost, rfl⟩ := toOption_map_inv hs
      exact h.readsIntact ha hm hpost
  | readDamaged env =>
    cases hq : y.toR with
    | nil => simp [Sys.Step, Sys.exec, hq] at hs
    | cons item rest =>
      obtain ⟨m, toR, hm, rfl, rfl⟩ := h.head hq
      simp only [Sys.Step, Sys.exec, hq] at hs
      split_ifs at hs with hg
      obtain ⟨rcv, hpost, rfl⟩ := toOption_map_inv hs
      exact h.readsDamaged hm (by simpa using hg) hpost
  | readNoise env c =>
    cases hq : y.toR with
    | nil => simp [Sys.Step, Sys.exec, hq] at hs
    | cons item rest =>
      obtain ⟨m, toR, hm, rfl, rfl⟩ := h.head hq
      simp only [Sys.Step, Sys.exec, hq] at hs
      split_ifs at hs with hc
      obtain ⟨rcv, hpost, rfl⟩ := toOption_map_inv hs
      exact h.readsNoise hm hc hpost
  | lose =>
    cases hq : y.toR with
    | nil => simp [Sys.Step, Sys.exec, hq] at hs
    | cons item rest =>
      obtain ⟨m, toR, hm, rfl, rfl⟩ := h.head hq
      simp only [Sys.Step, Sys.exec, hq, Option.some.injEq] at hs
      subst hs
      exact h.loses hm
  | rcvTM env =>
    obtain ⟨rcv, hpost, rfl⟩ := toOption_map_inv hs
    exact h.rcvTimesOut hpost
  | drop n =>
    simp only [Sys.Step, Sys.exec] at hs
    split_ifs at hs with hn
    cases hs
    exact h.disturbed (h.toS ▸ (disturbed_at hn).1)
  | nak n =>
    simp only [Sys.Step, Sys.exec] at hs
    split_ifs at hs with hn
    cases hs
    exact h.disturbed (h.toS ▸ (disturbed_at hn).2)

/-- The two charts and what travels between them are as `Agree` says. -/
def Joint (files : List File) (y : Sys) : Prop :=
  ∃ a, Agree (chunksOf files) a ∧ CAN ∉ a.toS ∧ Joins files a y

theorem Joint.step (h : Joint files y) (hs : Sys.Step y mv y') : Joint files y' := by
  obtain ⟨a, ha, hcan, hj⟩ := h
  obtain ⟨a', ha', hj'⟩ := hj.step ha hcan hs
  exact ⟨a', ha.step ha', ha'.can_notMem hcan, hj'⟩

theorem joint_init {snd : Sender.Machine} {rcv : Receiver.Machine}
    (hs : Sender.Started files snd) (hr : Receiver.Started rcv) : Joint files (.init snd rcv) := by
  obtain ⟨hsnd, -⟩ := sndAt_started hs
  obtain ⟨hrcv, hsent⟩ := rcvAt_started hr files
  refine ⟨⟨.statC 0, .waiting 0, false, eots 0, [NCG]⟩, .listening, by decide, ?_⟩
  exact ⟨hs.settled, hr.settled, hsnd, hrcv, rfl, rfl, hsent⟩

end Steps

/-! ## What holds in every state of every run -/

/-- The receiver creates the files of the batch in their order, what it has written is the
beginning of the file, and a file is complete when either side says that it is done. -/
structure Faithful (files : List File) (y : Sys) : Prop where
  inOrder : ∀ (j : Nat) (o : OutFile), (created y.rcv.ctx.calls)[j]? = some o →
    ∃ f, files[j]? = some f ∧ Part f o
  done : ∀ j, j ∈ (progress opensFile y.snd.ctx.calls).done ∨
      j ∈ (progress createsFile y.rcv.ctx.calls).done →
    ∃ f o, files[j]? = some f ∧ (created y.rcv.ctx.calls)[j]? = some o ∧ Complete f o

theorem Joint.faithful {files : List File} {y : Sys} (h : Joint files y) : Faithful files y := by
  obtain ⟨a, ha, -, hj⟩ := h
  have hcopied : Copied files a.rcv.completed (created y.rcv.ctx.calls) := hj.rcv.copied
  constructor
  · exact hcopied.part
  · rintro j (hsnd | hrcv)
    · exact hcopied.complete j (Nat.lt_of_lt_of_le (hj.snd.done j hsnd) ha.file_le)
    · exact hcopied.complete j (hj.rcv.done j hrcv)

/-- **Batches arrive faithfully, whatever the lines and the timers do.** -/
theorem exchange_faithful {files : List File} {snd : Sender.Machine} {rcv : Receiver.Machine}
    {moves : List Move} {y : Sys} (hs : Sender.Started files snd) (hr : Receiver.Started rcv)
    (h : Run Sys.Step (.init snd rcv) moves y) : Faithful files y :=
  (h.invariant (I := Joint files) Joint.step (joint_init hs hr)).faithful

/-- A file of one byte is sent until both sides are done. -/
def smallMoves : List Move :=
  [.answer .calm, .read (.calm []), .answer .calm, .answer .calm, .read (.calm []),
    .rcvTM (.calm []), .answer .calm, .read (.calm []), .answer .calm, .read (.calm []),
    .answer .calm]

theorem toOption_inv {α : Type} {x : Except Fault α} {a : α} (h : x.toOption = some a) :
    x = .ok a := by
  cases x with
  | error e => cases h
  | ok b => rw [Option.some.inj h]

theorem run_of_session {files : List File} {moves : List Move} {check : Sys → Bool}
    (h : (Sys.session files moves).any check = true) :
    ∃ snd rcv y, Sender.Started files snd ∧ Receiver.Started rcv ∧
      Run Sys.Step (.init snd rcv) moves y ∧ check y = true := by
  obtain ⟨y, hy, hcheck⟩ := (Option.any_eq_true _ _).mp h
  obtain ⟨snd, hsnd, hy⟩ := Option.bind_eq_some_iff.mp hy
  obtain ⟨rcv, hrcv, hy⟩ := Option.bind_eq_some_iff.mp hy
  exact ⟨snd, rcv, y, ⟨_, _, toOption_inv hsnd⟩, ⟨_, _, toOption_inv hrcv⟩, Run.foldlM_iff.mp hy,
    hcheck⟩

set_option maxRecDepth 4000 in
theorem exchange_faithful_small : ∃ snd rcv y, Sender.Started [smallFile] snd ∧
    Receiver.Started rcv ∧ Run Sys.Step (.init snd rcv) smallMoves y ∧
    (progress opensFile y.snd.ctx.calls).done = [0] ∧
    (progress createsFile y.rcv.ctx.calls).done = [0] ∧ Faithful [smallFile] y := by
  have hrun : (Sys.session [smallFile] smallMoves).any (fun y =>
      (progress opensFile y.snd.ctx.calls).done = [0] ∧
        (progress createsFile y.rcv.ctx.calls).done = [0]) = true := by decide +kernel
  obtain ⟨snd, rcv, y, hs, hr, h, hdone⟩ := run_of_session hrun
  obtain ⟨hsnd, hrcv⟩ := of_decide_eq_true hdone
  exact ⟨snd, rcv, y, hs, hr, h, hsnd, hrcv, exchange_faithful hs hr h⟩

end YModem.Session
