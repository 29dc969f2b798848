import YModem.Session.Exchange

/-!
# A sender in step with its receiver

`SndAt` tells what the sender may do. Here is what it does when the other end answers as it
should: no handler faults, no error bound is reached and no user cancels, so a response leads to
exactly one place.
-/

namespace YModem.Session

open YModem.Lib YModem.Peer YModem.SmartState YModem.Sender YModem.Receiver StopAndWait

/-- The state of the chart at a place of the sender. -/
def sndLeaf : SPlace → SState
  | .statC _ => .statC
  | .answer _ 0 => .acknakstat
  | .answer _ (_ + 1) => .acknak
  | .one _ => .one
  | .eot _ false => .eot1
  | .eot _ true => .eoteot

theorem Holds.leaf_eq {files : List File} {s : SenderY} {leaf : SState} {p : SPlace}
    (h : Holds files s leaf p) : leaf = sndLeaf p := by
  cases h <;> rfl

/-- The file whose turn it is has been opened; behind the last file there is none. -/
structure Opened (files : List File) (i : Nat) (s : SenderY) : Prop where
  file : i < files.length → 0 ≤ s.transferringFileD
  noFile : files.length ≤ i → s.transferringFileD = -2 ∧ s.fileName = none

/-- The places before the EOT. -/
def beforeEot : SPlace → Bool
  | .eot _ _ => false
  | _ => true

/-- A sender at the place `p` that has counted at most `e` errors. -/
structure SndFit (files : List File) (p : SPlace) (e : Nat) (v : Sender.Config) : Prop where
  place : SndAt files p v
  leaf : v.leaf = some (sndLeaf p)
  kbCan : v.ctx.kbCan = false
  errCnt : v.ctx.errCnt ≤ e
  result : v.ctx.result = doneText p.file
  opened : beforeEot p = true → Opened files p.file v.ctx

/-- The sender takes a response, sends the messages and goes to the place `p`. -/
def SndGoes (files : List File) (env : Sender.Env) (c : UInt8) (m : Sender.Machine)
    (msgs : List Msg) (p : SPlace) (e : Nat) : Prop :=
  ∃ m', ySenderSS.Step m (env, .ser c) m' ∧ Sender.Settled m' ∧ SndFit files p e (Sender.configOf m') ∧
    itemsSent m'.ctx.calls = itemsSent m.ctx.calls ++ msgs.map (itemOfMsg files)

section Sender

variable {files : List File} {env : Sender.Env} {c : UInt8} {p p' : SPlace} {e e' i k : Nat}
  {m : Sender.Machine} {s' : SenderY} {msgs : List Msg} {leaf' : SState}

theorem SndFit.config (h : SndFit files p e (Sender.configOf m)) :
    Sender.configOf m = ⟨some (sndLeaf p), m.history .nonCan, m.ctx⟩ :=
  congrArg (Sender.Config.mk · (m.history .nonCan) m.ctx) h.leaf

theorem SndFit.holds (h : SndFit files p e (Sender.configOf m)) :
    Holds files m.ctx (sndLeaf p) p := (h.place.active _ h.leaf).1

theorem names_of_lt (hf : ∀ f ∈ files, Sendable f) (hi : i < files.length) : Names files i :=
  ⟨files[i], List.getElem?_eq_getElem hi, (hf _ (List.getElem_mem hi)).named⟩

/-- What the chart does with the response is one of the answers that the protocol allows, and
the leaf and what is sent tell which one. -/
theorem SndFit.goes (hf : ∀ f ∈ files, Sendable f) (hm : Sender.Settled m)
    (h : SndFit files p e (Sender.configOf m)) (hc : c ≠ CAN)
    (hone : ∀ j, p = .one j → j < files.length)
    (hpost : ∀ posted, ySenderSS.postEvent env (.ser c)
      (Sender.Config.machine ⟨some (sndLeaf p), m.history .nonCan, m.ctx⟩ posted) =
        .ok (Sender.Config.machine ⟨some (sndLeaf p'), m.history .nonCan, s'⟩ []))
    (hans : ∀ out q, StopAndWait.Answers (chunksOf files) p c out q → sndLeaf p' = sndLeaf q →
      itemsSent s'.calls = itemsSent m.ctx.calls ++ out.map (itemOfMsg files) → out = msgs ∧ q = p')
    (hkb : s'.kbCan = false) (herr : s'.errCnt ≤ e') (hresult : s'.result = doneText p'.file)
    (hopen : beforeEot p' = true → Opened files p'.file s') :
    SndGoes files env c m msgs p' e' := by
  obtain ⟨m', hstep, hv'⟩ := hm.step h.config hpost
  obtain ⟨hset, ht⟩ := Sender.step_trans hm hstep
  obtain ⟨out, q, hout, hat, hsent⟩ := h.place.answers ht hc fun j hp => names_of_lt hf (hone j hp)
  have hleaf : sndLeaf p' = sndLeaf q :=
    ((hat.active _ (congrArg Sender.Config.leaf hv')).1).leaf_eq
  have hctx : m'.ctx = s' := congrArg Sender.Config.ctx hv'
  have hitems : itemsSent s'.calls = itemsSent m.ctx.calls ++ out.map (itemOfMsg files) := by
    rw [← hctx]
    exact hsent
  obtain ⟨rfl, rfl⟩ := hans out q hout hleaf hitems
  refine ⟨m', hstep, hset, ⟨hat, ?_, ?_, ?_, ?_, ?_⟩, hsent⟩
  all_goals rw [hv']
  · exact hkb
  · exact herr
  · exact hresult
  · exact hopen

theorem bind_ok {α β : Type} {x : Except Fault α} {f : α → Except Fault β} {a : α}
    (h : x = .ok a) : x >>= f = f a := by
  rw [h, ok_bind]

theorem ne_nil_of_sent {s s' : SenderY} {x : Item} {out : List Msg}
    (hx : itemsSent s'.calls = itemsSent s.calls ++ [x])
    (hout : itemsSent s'.calls = itemsSent s.calls ++ out.map (itemOfMsg files)) : out ≠ [] := by
  intro hnil
  rw [hx, hnil] at hout
  simp at hout

/-- What `sendBlkPrepNext` leaves alone. -/
theorem nextSent_peer {s s' : SenderY} (h : NextSent s s') :
    s'.kbCan = s.kbCan ∧ s'.errCnt = s.errCnt ∧ s'.result = s.result ∧
      s'.transferringFileD = s.transferringFileD ∧ s'.fileName = s.fileName := by
  cases h <;> exact ⟨rfl, rfl, rfl, rfl, rfl⟩

theorem Opened.same {s s' : SenderY} (h : Opened files i s)
    (hfd : s'.transferringFileD = s.transferringFileD) (hname : s'.fileName = s.fileName) :
    Opened files i s' := by
  constructor
  · rw [hfd]
    exact h.file
  · rw [hfd, hname]
    exact h.noFile

/-- `sendBlkPrepNext` can read ahead, or there is no file. -/
theorem Opened.ready {s : SenderY} (h : Opened files i s) (hi : i ≤ files.length) :
    (s.fileName = none ∨ 0 ≤ s.transferringFileD) ∧ s.transferringFileD ≠ -1 := by
  rcases Nat.lt_or_eq_of_le hi with hlt | rfl
  · have hfd := h.file hlt
    exact ⟨.inr hfd, by omega⟩
  · obtain ⟨hfd, hname⟩ := h.noFile (Nat.le_refl _)
    exact ⟨.inl hname, by rw [hfd]; decide⟩

/-- The block sent last belongs to the file number `i`. -/
theorem SndFit.reading (hf : ∀ f ∈ files, Sendable f)
    (h : SndFit files p e (Sender.configOf m)) (hp : p = .answer i k ∨ p = .one i ∧ k = 0)
    (hi : i < files.length) : ∃ f, files[i]? = some f ∧ Reading f k m.ctx := by
  obtain ⟨g, hg, hname⟩ := names_of_lt hf hi
  have hh := h.holds
  rcases hp with rfl | ⟨rfl, rfl⟩
  · generalize sndLeaf (.answer i k) = leaf at hh
    cases hh with
    | statSent hget _ hr => exact ⟨_, hget, hr⟩
    | namelessSent hnone _ => exact absurd (hnone g hg) (name_ne_nil_of_filename hname)
    | blkSent hget _ hr => exact ⟨_, hget, hr⟩
  · generalize sndLeaf (.one i) = leaf at hh
    cases hh with
    | one hr =>
      obtain ⟨f, hget, -, hr⟩ := hr ⟨g, hg, hname⟩
      exact ⟨f, hget, hr⟩

theorem chunksOf_eq {f : File} (hget : files[i]? = some f) : chunksOf files i = f.numChunks := by
  rw [chunksOf, hget]
  rfl

/-- A 'C' asks for the stat block. -/
theorem SndFit.stat (hf : ∀ f ∈ files, Sendable f) (hm : Sender.Settled m)
    (h : SndFit files (.statC i) e (Sender.configOf m)) (hi : i ≤ files.length) :
    SndGoes files env NCG m [.blk i 0] (.answer i 0) 0 := by
  have hopen : Opened files i m.ctx := h.opened rfl
  obtain ⟨hready, hfd⟩ := hopen.ready hi
  obtain ⟨s', hs, hn⟩ := SenderY.sendBlkPrepNext_spec hready
  obtain ⟨hkb, -, hresult, hfd', hname⟩ := nextSent_peer hn
  have hsome : statCSER env NCG m.ctx = _ := (if_neg fun hx => hfd hx.2.2).trans (if_pos ⟨rfl, hfd⟩)
  refine h.goes hf hm (by decide) (by simp)
    (postEvent_go rfl rfl (by simp [sndLeaf]) hsome (bind_ok hs)) ?_
    (hkb.trans h.kbCan) (Nat.le_refl 0) (hresult.trans h.result) fun _ => hopen.same hfd' hname
  intro out q hans hleaf _
  cases hans with
  | quiet => cases hleaf
  | stat => exact ⟨rfl, rfl⟩

/-- The stat block has been acknowledged. -/
theorem SndFit.statAcked (hf : ∀ f ∈ files, Sendable f) (hm : Sender.Settled m)
    (h : SndFit files (.answer i 0) e (Sender.configOf m)) (hi : i < files.length) :
    SndGoes files env ACK m [] (.one i) e := by
  obtain ⟨f, -, hr⟩ := h.reading hf (.inl rfl) hi
  have hname : m.ctx.fileName ≠ none := by simp [hr.fileName]
  have hsome : acknakstatSER env ACK m.ctx = _ := if_pos ⟨rfl, hname, h.kbCan⟩
  refine h.goes hf hm (by decide) (by simp)
    (postEvent_go rfl rfl (by simp [sndLeaf]) hsome rfl) ?_
    h.kbCan h.errCnt h.result fun _ => (h.opened rfl).same rfl rfl
  intro out q hans hleaf _
  cases hans with
  | quiet => cases hleaf
  | statAcked => exact ⟨rfl, rfl⟩
  | resent hc => exact absurd rfl hc

/-- The block is sent once more. -/
theorem sent_resendBlk (s : SenderY) : itemsSent (wait env (s.resendBlk.peer (·.incErrCnt))).calls =
    itemsSent s.calls ++ [.blk (s.blkBufs (bufOf (s.blkNum - 1))).val] := by
  show itemsSent (s.calls ++ [.sendBlk false _]) = _
  rw [itemsSent_append]
  rfl

/-- The stat block is asked for again. -/
theorem SndFit.statResent (hf : ∀ f ∈ files, Sendable f) (hm : Sender.Settled m)
    (h : SndFit files (.answer i 0) e (Sender.configOf m)) (hc : c = NAK ∨ c = NCG) :
    SndGoes files env c m [.blk i 0] (.answer i 0) (e + 1) := by
  have hack : c ≠ ACK := by rcases hc with rfl | rfl <;> decide
  have hcan : c ≠ CAN := by rcases hc with rfl | rfl <;> decide
  have hsome : acknakstatSER env c m.ctx = _ :=
    (if_neg fun hx => hack hx.1).trans (if_pos ⟨hc, h.kbCan⟩)
  refine h.goes hf hm hcan (by simp) (postEvent_stay rfl hsome rfl) ?_ h.kbCan
    ((Nat.mod_le _ _).trans (Nat.succ_le_succ h.errCnt)) h.result
    fun _ => (h.opened rfl).same rfl rfl
  intro out q hans _ hsent
  cases hans with
  | quiet => exact absurd rfl (ne_nil_of_sent (sent_resendBlk m.ctx) hsent)
  | statAcked => exact absurd rfl hack
  | resent _ => exact ⟨rfl, rfl⟩

/-- A data block is asked for again. -/
theorem SndFit.blkResent (hf : ∀ f ∈ files, Sendable f) (hm : Sender.Settled m)
    (h : SndFit files (.answer i (k + 1)) e (Sender.configOf m)) (he : e < errB) :
    SndGoes files env NAK m [.blk i (k + 1)] (.answer i (k + 1)) (e + 1) := by
  have hsome : acknakSER env NAK m.ctx = _ := if_pos ⟨.inl rfl, h.errCnt.trans_lt he, h.kbCan⟩
  refine h.goes hf hm (by decide) (by simp) (postEvent_stay rfl hsome rfl) ?_ h.kbCan
    ((Nat.mod_le _ _).trans (Nat.succ_le_succ h.errCnt)) h.result
    fun _ => (h.opened rfl).same rfl rfl
  intro out q hans _ hsent
  generalize hc : NAK = c at hans
  cases hans with
  | quiet => exact absurd rfl (ne_nil_of_sent (sent_resendBlk m.ctx) hsent)
  | resent _ => exact ⟨rfl, rfl⟩
  | nextBlk _ => cases hc
  | lastBlk _ => cases hc

/-- The EOT is sent and the file closed. -/
theorem SndFit.closes (h : SndFit files p e (Sender.configOf m)) (hp : beforeEot p = true)
    (hi : p.file < files.length) (hclose : env.close ≠ -1) {t : SenderY}
    (hfd : t.transferringFileD = m.ctx.transferringFileD) (hkb : t.kbCan = m.ctx.kbCan)
    (herr : t.errCnt = 0) (hresult : t.result = m.ctx.result) :
    ∃ s', t.closeTransferredFile env = .ok s' ∧ s'.kbCan = false ∧ s'.errCnt = 0 ∧
      s'.result = doneText p.file := by
  have hopen : 0 ≤ m.ctx.transferringFileD := (h.opened hp).file hi
  refine ⟨_, SenderY.closeTransferredFile_spec.mpr (.inr ⟨?_, hclose, rfl⟩), ?_, herr, ?_⟩
  · omega
  · exact hkb.trans h.kbCan
  · exact hresult.trans h.result

/-- A 'C' asks for the end of a file without a data block. -/
theorem SndFit.noBlk (hf : ∀ f ∈ files, Sendable f) (hm : Sender.Settled m)
    (h : SndFit files (.one i) e (Sender.configOf m)) (hi : i < files.length)
    (hclose : env.close ≠ -1) (hnone : chunksOf files i = 0) :
    SndGoes files env NCG m [.eot] (.eot i false) 0 := by
  obtain ⟨f, hget, hr⟩ := h.reading hf (.inr ⟨rfl, rfl⟩) hi
  rw [chunksOf_eq hget] at hnone
  have hrd : m.ctx.bytesRd = 0 := hr.bytesRd_eq_zero_iff.mpr (Nat.le_of_eq hnone)
  obtain ⟨s', hs, hkb, herr, hresult⟩ := h.closes (t := clearErr (wait env (sendEOT m.ctx))) rfl hi
    hclose rfl rfl rfl rfl
  have hsome : oneSER env NCG m.ctx = _ := if_pos ⟨rfl, hrd, h.kbCan⟩
  refine h.goes hf hm (by decide) (fun j hp => ?_)
    (postEvent_go rfl rfl (by simp [sndLeaf]) hsome hs) ?_
    hkb (Nat.le_of_eq herr) hresult fun hx => absurd hx (by simp [beforeEot])
  · cases hp
    exact hi
  · intro out q hans hleaf _
    cases hans with
    | quiet => cases hleaf
    | firstBlk _ => cases hleaf
    | noBlk _ => exact ⟨rfl, rfl⟩

/-- A 'C' asks for the first data block. -/
theorem SndFit.firstBlk (hf : ∀ f ∈ files, Sendable f) (hm : Sender.Settled m)
    (h : SndFit files (.one i) e (Sender.configOf m)) (hi : i < files.length)
    (hsome : 0 < chunksOf files i) : SndGoes files env NCG m [.blk i 1] (.answer i 1) 0 := by
  obtain ⟨f, hget, hr⟩ := h.reading hf (.inr ⟨rfl, rfl⟩) hi
  have hopen : Opened files i m.ctx := h.opened rfl
  rw [chunksOf_eq hget] at hsome
  have hrd : m.ctx.bytesRd ≠ 0 := mt hr.bytesRd_eq_zero_iff.mp (Nat.not_le.mpr hsome)
  obtain ⟨s', hs, hn⟩ := SenderY.sendBlkPrepNext_spec (hopen.ready hi.le).1
  obtain ⟨hkb, -, hresult, hfd', hname⟩ := nextSent_peer hn
  have hsome : oneSER env NCG m.ctx = _ :=
    (if_neg fun hx => hrd hx.2.1).trans (if_pos ⟨rfl, hrd, h.kbCan⟩)
  refine h.goes hf hm (by decide) (fun j hp => ?_)
    (postEvent_go rfl rfl (by simp [sndLeaf]) hsome (bind_ok hs)) ?_
    (hkb.trans h.kbCan) (Nat.le_refl 0) (hresult.trans h.result) fun _ => hopen.same hfd' hname
  · cases hp
    exact hi
  · intro out q hans hleaf _
    cases hans with
    | quiet => cases hleaf
    | noBlk _ => cases hleaf
    | firstBlk _ => exact ⟨rfl, rfl⟩

/-- An ACK does not ask for the block again. -/
theorem ack_not_asked (s : SenderY) : ¬((ACK = NAK ∨ (ACK = NCG ∧ s.firstBlk = true)) ∧
    s.errCnt < errB ∧ s.kbCan = false) := by
  intro h
  rcases h.1 with hc | ⟨hc, -⟩
  · exact absurd hc (by decide)
  · exact absurd hc (by decide)

/-- The last data block has been acknowledged. -/
theorem SndFit.lastBlk (hf : ∀ f ∈ files, Sendable f) (hm : Sender.Settled m)
    (h : SndFit files (.answer i (k + 1)) e (Sender.configOf m)) (hi : i < files.length)
    (hclose : env.close ≠ -1) (hlast : chunksOf files i = k + 1) :
    SndGoes files env ACK m [.eot] (.eot i false) 0 := by
  obtain ⟨f, hget, hr⟩ := h.reading hf (.inl rfl) hi
  rw [chunksOf_eq hget] at hlast
  have hrd : m.ctx.bytesRd = 0 := hr.bytesRd_eq_zero_iff.mpr (Nat.le_of_eq hlast)
  obtain ⟨s', hs, hkb, herr, hresult⟩ := h.closes (t := clearErr (sendEOT m.ctx)) rfl hi hclose rfl
    rfl rfl rfl
  have hsome : acknakSER env ACK m.ctx = _ :=
    (if_neg (ack_not_asked m.ctx)).trans (if_pos ⟨rfl, hrd, h.kbCan⟩)
  refine h.goes hf hm (by decide) (by simp)
    (postEvent_go rfl rfl (by simp [sndLeaf]) hsome (bind_ok hs)) ?_
    hkb (Nat.le_of_eq herr) hresult fun hx => absurd hx (by simp [beforeEot])
  intro out q hans hleaf _
  cases hans with
  | quiet => cases hleaf
  | resent hc => exact absurd rfl hc
  | nextBlk _ => cases hleaf
  | lastBlk _ => exact ⟨rfl, rfl⟩

/-- A data block before the last one has been acknowledged. -/
theorem SndFit.nextBlk (hf : ∀ f ∈ files, Sendable f) (hm : Sender.Settled m)
    (h : SndFit files (.answer i (k + 1)) e (Sender.configOf m)) (hi : i < files.length)
    (hmore : k + 1 < chunksOf files i) :
    SndGoes files env ACK m [.blk i (k + 2)] (.answer i (k + 2)) 0 := by
  obtain ⟨f, hget, hr⟩ := h.reading hf (.inl rfl) hi
  have hopen : Opened files i m.ctx := h.opened rfl
  rw [chunksOf_eq hget] at hmore
  have hrd : m.ctx.bytesRd ≠ 0 := mt hr.bytesRd_eq_zero_iff.mp (Nat.not_le.mpr hmore)
  obtain ⟨s', hs, hn⟩ := SenderY.sendBlkPrepNext_spec (hopen.ready hi.le).1
  obtain ⟨hkb, -, hresult, hfd', hname⟩ := nextSent_peer hn
  have hsome : acknakSER env ACK m.ctx = _ := (if_neg (ack_not_asked m.ctx)).trans
    ((if_neg fun hx => hrd hx.2.1).trans (if_pos ⟨rfl, hrd, h.kbCan⟩))
  refine h.goes hf hm (by decide) (by simp) (postEvent_stay rfl hsome (bind_ok hs)) ?_
    (hkb.trans h.kbCan) (Nat.le_refl 0) (hresult.trans h.result) fun _ => hopen.same hfd' hname
  intro out q hans hleaf hsent
  cases hans with
  | quiet => exact absurd rfl (ne_nil_of_sent (nextSent_items hn) hsent)
  | resent hc => exact absurd rfl hc
  | nextBlk _ => exact ⟨rfl, rfl⟩
  | lastBlk _ => cases hleaf

/-- The first EOT is answered by a NAK. -/
theorem SndFit.eotNaked (hf : ∀ f ∈ files, Sendable f) (hm : Sender.Settled m)
    (h : SndFit files (.eot i false) e (Sender.configOf m)) :
    SndGoes files env NAK m [.eot] (.eot i true) 0 := by
  have hsome : eot1SER env NAK m.ctx = _ := (if_neg fun hx => absurd hx.1 (by decide)).trans
    ((if_neg fun hx => absurd hx.1 (by decide)).trans (if_pos ⟨rfl, h.kbCan⟩))
  refine h.goes hf hm (by decide) (by simp) (postEvent_go rfl rfl (by simp [sndLeaf]) hsome rfl) ?_
    h.kbCan (Nat.le_refl 0) h.result fun hx => absurd hx (by simp [beforeEot])
  intro out q hans hleaf _
  cases hans with
  | quiet => cases hleaf
  | @eotAgain _ _ naked' _ _ =>
    cases naked' with
    | false => cases hleaf
    | true => exact ⟨rfl, rfl⟩

/-- The second EOT is answered by a NAK. -/
theorem SndFit.eotNakedAgain (hf : ∀ f ∈ files, Sendable f) (hm : Sender.Settled m)
    (h : SndFit files (.eot i true) e (Sender.configOf m)) (he : e < errB) :
    SndGoes files env NAK m [.eot] (.eot i true) (e + 1) := by
  have hsome : eoteotSER env NAK m.ctx = _ := if_pos ⟨rfl, h.kbCan, h.errCnt.trans_lt he⟩
  refine h.goes hf hm (by decide) (by simp) (postEvent_stay rfl hsome rfl) ?_ h.kbCan
    ((Nat.mod_le _ _).trans (Nat.succ_le_succ h.errCnt)) h.result
    fun hx => absurd hx (by simp [beforeEot])
  intro out q hans hleaf hsent
  have hitems : itemsSent (wait env ((sendEOT m.ctx).peer (·.incErrCnt))).calls =
      itemsSent m.ctx.calls ++ [.eot] := itemsSent_append m.ctx.calls [.sendByte EOT]
  cases hans with
  | quiet => exact absurd rfl (ne_nil_of_sent hitems hsent)
  | @eotAgain _ _ naked' _ _ =>
    cases naked' with
    | false => cases hleaf
    | true => exact ⟨rfl, rfl⟩

/-- What `prepStatBlk` does when the files can be opened. -/
theorem prepStatBlk_opens {s : SenderY} (hf : ∀ f ∈ files, Sendable f) (hnames : s.fileNames = files)
    (hindex : i < files.length → s.fileNameIndex = i) (hend : files.length ≤ i → s.todo = [])
    (hopen : env.opened ≠ -1) : ∃ s', s.prepStatBlk env = .ok s' ∧ Opened files i s' ∧
      s'.kbCan = s.kbCan ∧ s'.errCnt = s.errCnt ∧ s'.result = s.result := by
  rcases Nat.lt_or_ge i files.length with hi | hi
  · have hget : s.fileNames[s.fileNameIndex]? = some files[i] := by
      rw [hnames, hindex hi]
      exact List.getElem?_eq_getElem hi
    have hsend := hf _ (List.getElem_mem hi)
    obtain ⟨blk, hblk, -⟩ := (s.blkBufs 0).genStatBlk_named hsend.name_ne_nil hsend.fits
    refine ⟨_, (SenderY.prepStatBlk_some hget hopen).trans (bind_ok hblk), ⟨fun _ => ?_, fun hx => ?_⟩,
      rfl, rfl, rfl⟩
    · have hge := env.opened_ge
      show 0 ≤ env.opened
      omega
    · omega
  · have hnone : s.fileNames[s.fileNameIndex]? = none := by
      rw [← List.head?_drop, ← SenderY.todo, hend hi]
      rfl
    obtain ⟨s', hs, hp⟩ := @SenderY.prepStatBlk_noMore env s hnone
    refine ⟨s', hs, ?_⟩
    cases hp with
    | openError _ hfile _ => cases hnone.symm.trans hfile
    | opened _ _ hfile _ _ => cases hnone.symm.trans hfile
    | noMore _ _ _ => exact ⟨⟨fun hx => by omega, fun _ => ⟨rfl, rfl⟩⟩, rfl, rfl, rfl⟩

/-- The second EOT is acknowledged: the file is done and the next stat block is prepared. -/
theorem SndFit.fileDone (hf : ∀ f ∈ files, Sendable f) (hm : Sender.Settled m)
    (h : SndFit files (.eot i true) e (Sender.configOf m)) (hi : i < files.length)
    (hopen : env.opened ≠ -1) : SndGoes files env ACK m [] (.statC (i + 1)) e := by
  have hb : Batch files i m.ctx := (h.place.active _ h.leaf).2
  have hindex : m.ctx.fileNameIndex = i + 1 := hb.index hi
  have hend (hle : files.length ≤ i + 1) : m.ctx.todo = [] := by
    rw [SenderY.todo, hb.fileNames, hindex]
    exact List.drop_eq_nil_of_le hle
  obtain ⟨s', hs, hopened, hkb, herr, hresult⟩ :=
    prepStatBlk_opens (s := m.ctx.peer (·.addResult "Done, ")) hf hb.fileNames (fun _ => hindex) hend
      hopen
  have hsome : eoteotSER env ACK m.ctx = _ :=
    (if_neg fun hx => absurd hx.1 (by decide)).trans (if_pos ⟨rfl, h.kbCan⟩)
  refine h.goes hf hm (by decide) (by simp)
    (postEvent_go rfl rfl (by simp [sndLeaf]) hsome (bind_ok hs)) ?_
    (hkb.trans h.kbCan) (herr.trans_le h.errCnt) ?_ fun _ => hopened.same rfl rfl
  · intro out q hans hleaf _
    cases hans with
    | quiet => cases hleaf
    | @eotAgain _ _ naked' _ hc => exact absurd rfl hc
    | eotAcked => exact ⟨rfl, rfl⟩
  · exact hresult.trans (congrArg (· ++ "Done, ") h.result)

/-- The empty stat block is acknowledged. -/
theorem SndFit.endOfSession (env : Sender.Env) (hm : Sender.Settled m)
    (h : SndFit files (.answer files.length 0) e (Sender.configOf m)) :
    ∃ m', ySenderSS.Step m (env, .ser ACK) m' ∧ m'.running = false ∧
      m'.ctx.result = doneText files.length ++ "EndOfSession" ∧
      itemsSent m'.ctx.calls = itemsSent m.ctx.calls := by
  have hname : m.ctx.fileName = none := ((h.opened rfl).noFile (Nat.le_refl _)).2
  have hsome : Sender.onMessage env .acknakstat (.ser ACK) m.ctx = _ := (if_neg fun hx => hx.2.1 hname).trans
    ((if_neg fun hx => absurd hx.1 (by decide)).trans (if_pos ⟨rfl, hname⟩))
  have hpost (posted : List Mesg) : ySenderSS.postEvent env (.ser ACK)
      (Sender.Config.machine ⟨some .acknakstat, m.history .nonCan, m.ctx⟩ posted) =
      .ok (Sender.Config.machine
        ⟨none, m.history .nonCan, m.ctx.peer (·.addResult "EndOfSession")⟩ []) :=
    postEvent_final [] .acknakstat rfl (fun _ hb => absurd hb List.not_mem_nil) hsome posted
  obtain ⟨m', hstep, hv'⟩ := hm.step h.config hpost
  obtain ⟨hset, -⟩ := Sender.step_trans hm hstep
  have hctx : m'.ctx = m.ctx.peer (·.addResult "EndOfSession") := congrArg Sender.Config.ctx hv'
  refine ⟨m', hstep, ?_, ?_, ?_⟩
  · rw [hset.running_eq, hv']
    rfl
  · rw [hctx]
    exact congrArg (· ++ "EndOfSession") h.result
  · rw [hctx]
    exact (itemsSent_append m.ctx.calls [.result "EndOfSession"]).trans (List.append_nil _)

/-- A sender whose first file could be opened. -/
theorem sndFit_started (hs : Sender.Started files m) (hopen : m.ctx.transferringFileD ≠ -1) :
    SndFit files (.statC 0) 0 (Sender.configOf m) := by
  obtain ⟨hplace, -⟩ := sndAt_started hs
  obtain ⟨senv, blkBufs, hs⟩ := hs
  obtain ⟨-, s, hprep, hc⟩ := start_inv hs
  have hctx : m.ctx = Sender.startedCtx senv s := congrArg Sender.Config.ctx hc
  rw [hctx] at hopen
  have hp := SenderY.statPrepared hprep
  refine ⟨hplace, by rw [hc]; rfl, by rw [hc]; rfl, by rw [hc]; exact Nat.le_refl 0, ?_, fun _ => ?_⟩
  · rw [hc]
    cases hp <;> rfl
  · rw [hc]
    cases hp with
    | openError _ _ _ => exact absurd rfl hopen
    | opened _ _ hfile hfd _ =>
      have hge := senv.opened_ge
      have hlt : 0 < files.length := (List.getElem?_eq_some_iff.mp hfile).1
      refine ⟨fun _ => ?_, fun hx => ?_⟩
      · show 0 ≤ senv.opened
        omega
      · exact absurd hlt (Nat.not_lt.mpr hx)
    | noMore _ hfile _ =>
      have hge : files.length ≤ 0 := List.getElem?_eq_none_iff.mp hfile
      exact ⟨fun hx => absurd hx (Nat.not_lt.mpr hge), fun _ => ⟨rfl, rfl⟩⟩

end Sender

end YModem.Session
