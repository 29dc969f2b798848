import YModem.Session.SenderInStep

/-!
# A receiver in step with its sender

What the receiver does when a message of the sender, or one that the line has spoiled, arrives:
the error bound is not reached and no user cancels, so a message leads to exactly one place.
-/

namespace YModem.Session

open YModem.Lib YModem.Peer YModem.SmartState YModem.Sender YModem.Receiver StopAndWait

/-- A receiver at the place `p` that has counted at most `e` errors. -/
structure RcvFit (files : List File) (p : RPlace) (leaf : RState) (e : Nat) (v : Receiver.Config) :
    Prop where
  place : RcvAt files p v
  leaf : v.leaf = some leaf
  kbCan : v.ctx.kbCan = false
  errCnt : v.ctx.errCnt ≤ e
  inSync : v.ctx.syncLoss = false
  result : v.ctx.result = doneText p.completed
  first : ∀ i k, p = .pending i k true → v.ctx.anotherFile = 0

/-- The receiver takes an event, sends the responses and goes to the place `p`. -/
def RcvGoes (files : List File) (env : Receiver.Env) (mesg : Mesg) (m : Receiver.Machine)
    (out : List UInt8) (p : RPlace) (leaf : RState) (e : Nat) : Prop :=
  ∃ m', yReceiverSS.Step m (env, mesg) m' ∧ Receiver.Settled m' ∧
    RcvFit files p leaf e (Receiver.configOf m') ∧
    sentBytes m'.ctx.calls = sentBytes m.ctx.calls ++ out

section Receiver

variable {files : List File} {env : Receiver.Env} {mesg : Mesg} {c : UInt8} {p p' : RPlace}
  {e e' i k : Nat} {m : Receiver.Machine} {r r' : ReceiverY} {out : List UInt8} {msg : Msg}
  {leaf leaf' : RState} {v : Receiver.Config} {back back' : Option RState}

theorem RcvFit.config (h : RcvFit files p leaf e (Receiver.configOf m)) :
    Receiver.configOf m = ⟨some leaf, m.history .nonCan, m.ctx⟩ :=
  congrArg (Receiver.Config.mk · (m.history .nonCan) m.ctx) h.leaf

theorem RcvFit.wellFormed (h : RcvFit files p leaf e (Receiver.configOf m))
    (hm : Receiver.Settled m) :
    Receiver.Config.WellFormed ⟨some leaf, m.history .nonCan, m.ctx⟩ := by
  rw [← h.config]
  exact hm.wellFormed

theorem RcvFit.at_config (h : RcvFit files p leaf e (Receiver.configOf m)) :
    RcvAt files p ⟨some leaf, m.history .nonCan, m.ctx⟩ := by
  rw [← h.config]
  exact h.place

theorem RcvFit.holds (h : RcvFit files p leaf e (Receiver.configOf m)) :
    RHolds files m.ctx leaf p := h.place.active _ h.leaf

/-- A transition that leads to a place of the protocol. -/
theorem RcvFit.goes (hm : Receiver.Settled m) (h : RcvFit files p leaf e (Receiver.configOf m))
    (ht : Receiver.Trans env mesg ⟨some leaf, m.history .nonCan, m.ctx⟩ ⟨some leaf', back', r'⟩)
    (hat : RcvAt files p' ⟨some leaf', back', r'⟩)
    (hsent : sentBytes r'.calls = sentBytes m.ctx.calls ++ out) (hkb : r'.kbCan = false)
    (herr : r'.errCnt ≤ e') (hsync : r'.syncLoss = false) (hresult : r'.result = doneText p'.completed)
    (hfirst : ∀ i k, p' = .pending i k true → r'.anotherFile = 0) :
    RcvGoes files env mesg m out p' leaf' e' := by
  rw [← h.config] at ht
  obtain ⟨m', hstep, hv'⟩ := ht.step hm
  obtain ⟨hset, -⟩ := Receiver.step_trans hm hstep
  have hctx : m'.ctx = r' := congrArg Receiver.Config.ctx hv'
  refine ⟨m', hstep, hset, ?_, by rw [hctx]; exact hsent⟩
  rw [hv']
  exact ⟨hat, rfl, hkb, herr, hsync, hresult, hfirst⟩

/-- The place that a reading leads to, by the responses and the leaf. -/
theorem ReadsAs.place (h : ReadsAs files p msg v ⟨some leaf', back', r'⟩)
    (hsent : sentBytes r'.calls = sentBytes v.ctx.calls ++ out)
    (hq : ∀ q, StopAndWait.Reads p msg out q → RHolds files r' leaf' q → q = p') :
    RcvAt files p' ⟨some leaf', back', r'⟩ := by
  obtain ⟨out', q, hreads, hat, hsent'⟩ := h
  obtain rfl : out' = out := List.append_cancel_left (hsent'.symm.trans hsent)
  rw [← hq q hreads (hat.active leaf' rfl)]
  exact hat

/-- The bytes that arrive for a block are no intact block, and when number and complement
match they are those of the block. -/
structure Damaged (blk rest : List UInt8) : Prop where
  bad : ¬ Intact rest
  number : complementOf rest = ~~~blkNumOf rest → blkNumOf rest = blkNumOf blk.tail

instance (blk rest : List UInt8) : Decidable (Damaged blk rest) :=
  decidable_of_iff (¬ Intact rest ∧
      (complementOf rest = ~~~blkNumOf rest → blkNumOf rest = blkNumOf blk.tail))
    ⟨fun ⟨h₁, h₂⟩ => ⟨h₁, h₂⟩, fun ⟨h₁, h₂⟩ => ⟨h₁, h₂⟩⟩

/-- Only a matching number can be out of sequence. -/
theorem getRestBlk_syncLoss_of_matched (env : Receiver.Env) (r : ReceiverY)
    (hnum : complementOf env.rest = ~~~blkNumOf env.rest → blkNumOf env.rest = r.numLastGoodBlk + 1) :
    (r.getRestBlk env).syncLoss = r.syncLoss := by
  unfold ReceiverY.getRestBlk ReceiverY.judgeBlk
  by_cases hshort : env.rest.length < REST_BLK_SZ_CRC
  · simp [hshort]
  by_cases hlong : env.rest.length > REST_BLK_SZ_CRC
  · simp [hshort, hlong]
  have hlen : env.rest.length = REST_BLK_SZ_CRC := by omega
  have hget : (r.rcvBlk.read env.rest env.rest_le).get 1 = blkNumOf env.rest :=
    RcvBlk.get_read r.rcvBlk env.rest_le (i := 0) (by rw [hlen]; decide)
  have hcomp : (r.rcvBlk.read env.rest env.rest_le).get 2 = complementOf env.rest :=
    RcvBlk.get_read r.rcvBlk env.rest_le (i := 1) (by rw [hlen]; decide)
  simp only [hshort, hlong, if_false, hget, hcomp]
  by_cases hmatch : complementOf env.rest = ~~~blkNumOf env.rest
  · simp only [hmatch, ne_eq, not_true_eq_false, if_false, hnum hmatch, beq_self_eq_true,
      Bool.not_true, Bool.false_and, Bool.false_eq_true]
    split_ifs <;> rfl
  · simp [hmatch]

/-- What a damaged block leaves. -/
theorem getRestBlk_damaged {blk : List UInt8} (hd : Damaged blk env.rest)
    (hnum : blkNumOf blk.tail = r.numLastGoodBlk + 1) :
    (r.getRestBlk env).goodBlk = false ∧ (r.getRestBlk env).goodBlk1st = false ∧
      (r.getRestBlk env).syncLoss = r.syncLoss := by
  have hsync := getRestBlk_syncLoss_of_matched env r fun hm => (hd.number hm).trans hnum
  have hspec := getRestBlk_spec env r
  generalize r.getRestBlk env = g at hspec hsync ⊢
  cases hspec with
  | bad _ _ _ => exact ⟨rfl, rfl, rfl⟩
  | lost _ _ => exact ⟨rfl, rfl, hsync⟩
  | resent hi _ _ => exact absurd hi hd.bad
  | first hi _ => exact absurd hi hd.bad

/-- What `FirstByteStat` hands over when the block has been read. -/
structure StatRead (env : Receiver.Env) (r x : ReceiverY) : Prop extends Handed env r x where
  read : statBlkRead env r = x
  kbCan : x.kbCan = r.kbCan
  result : x.result = r.result
  errCnt : x.errCnt ≤ r.errCnt
  syncLoss : x.syncLoss = (r.getRestBlk env).syncLoss
  sent : sentBytes x.calls = sentBytes r.calls

theorem statRead (env : Receiver.Env) (r : ReceiverY) : ∃ x, StatRead env r x := by
  have hx := handed_statBlkRead env r
  have hsent := (getRestBlk_calls env r).2
  rw [← hx.calls] at hsent
  have hspec := getRestBlk_spec env r
  have herr : (if r.closeProb = 0 then 0 else r.errCnt) ≤ r.errCnt := by
    split_ifs
    · exact Nat.zero_le _
    · exact Nat.le_refl _
  refine ⟨_, hx, rfl, ?_, ?_, ?_, ?_, hsent⟩
  all_goals rw [statBlkRead_eq]
  · generalize r.getRestBlk env = g at hspec
    cases hspec <;> rfl
  · generalize r.getRestBlk env = g at hspec
    cases hspec <;> rfl
  · exact herr

theorem RcvFit.lastNum (h : RcvFit files (.waiting i) leaf e (Receiver.configOf m)) :
    leaf = .firstByteStat ∧ m.ctx.numLastGoodBlk = 255 := by
  cases h.holds with
  | waiting _ hnum => exact ⟨rfl, hnum⟩

/-- A block is read while the receiver waits for a stat block. -/
theorem RcvFit.goesStat (msg : Msg) {x : ReceiverY} (hm : Receiver.Settled m)
    (h : RcvFit files (.waiting i) .firstByteStat e (Receiver.configOf m)) (hx : StatRead env m.ctx x)
    (hb : StatBlk env x (some leaf') r')
    (hrest : (m.ctx.getRestBlk env).goodBlk = false ∨ Undamaged files (.waiting i) msg env)
    (hq : ∀ q, StopAndWait.Reads (.waiting i) msg out q → RHolds files r' leaf' q → q = p')
    (hsent : sentBytes r'.calls = sentBytes x.calls ++ out) (hkb : r'.kbCan = x.kbCan)
    (herr : r'.errCnt ≤ e') (hsync : r'.syncLoss = false) (hresult : r'.result = x.result)
    (hc : p'.completed = i) (hfirst : ∀ i k, p' ≠ .pending i k true) :
    RcvGoes files env (.ser SOH) m out p' leaf' e' := by
  have ht : Receiver.Trans env (.ser SOH) ⟨some .firstByteStat, m.history .nonCan, m.ctx⟩
      ⟨some leaf', m.history .nonCan, r'⟩ := by
    rw [← hx.read] at hb
    exact .statBlk h.kbCan hb
  have hsent' := hsent.trans (congrArg (· ++ out) hx.sent)
  refine h.goes hm ht ((readsAs_blk h.at_config (h.wellFormed hm) ht rfl hrest).place hsent' hq) hsent'
    (hkb.trans (hx.kbCan.trans h.kbCan)) herr hsync ?_ fun j k hp => absurd hp (hfirst j k)
  rw [hc]
  exact hresult.trans (hx.result.trans h.result)

/-- The block that a receiver without a file waits for has arrived. -/
theorem RcvFit.statArrived {blk : List UInt8} {x : ReceiverY}
    (h : RcvFit files (.waiting i) leaf e (Receiver.configOf m)) (hlen : blk.length = BLK_SZ_CRC)
    (hi : Intact blk.tail) (hnum : blkNumOf blk.tail = 0) (hx : StatRead (reading env blk) m.ctx x) :
    x.goodBlk = true ∧ x.syncLoss = false ∧ (reading env blk).rest = blk.tail := by
  have hrest := rest_reading env hlen
  have hnext : blkNumOf (reading env blk).rest = m.ctx.numLastGoodBlk + 1 := by
    rw [hrest, hnum, h.lastNum.2]
    rfl
  have hget := getRestBlk_first (by rw [hrest]; exact hi) hnext
  have hgood := hx.good
  have hsync := hx.syncLoss
  rw [hget] at hgood hsync
  exact ⟨hgood, hsync.trans h.inSync, hrest⟩

/-- The stat block of a file arrives, and the file is created. -/
theorem RcvFit.statBlk (hf : ∀ f ∈ files, Sendable f) (hm : Receiver.Settled m)
    (h : RcvFit files (.waiting i) leaf e (Receiver.configOf m)) (hi : i < files.length)
    (he : e < errB) (hcreat : env.creat ≠ -1) :
    RcvGoes files (reading env (blkOf files i 0)) (.ser SOH) m [ACK, NCG] (.receiving i 0)
      .firstByteData e := by
  obtain ⟨rfl, -⟩ := h.lastNum
  have hget : files[i]? = some files[i] := List.getElem?_eq_getElem hi
  have hs : Sendable files[i] := hf _ (List.getElem_mem hi)
  have hblk : blkOf files i 0 = files[i].blk 0 := blkOf_eq hget (.inl hs.name_ne_nil)
  rw [hblk]
  obtain ⟨x, hx⟩ := statRead (reading env (files[i].blk 0)) m.ctx
  obtain ⟨hgood, hsync, hrest⟩ := h.statArrived (length_blk hs 0) (intact_blk hs 0) (blkNumOf_blk 0) hx
  have hnamed : x.checkForAnotherFile.anotherFile ≠ 0 := by
    show x.rcvBlk.get DATA_POS ≠ 0
    rw [hx.rcvBlk]
    exact anotherFile_blk hs m.ctx.rcvBlk hrest (reading env (files[i].blk 0)).rest_le
  have htext : StatText x.checkForAnotherFile.rcvBlk (filename files[i].name) files[i].contents.length := by
    show StatText x.rcvBlk _ _
    rw [hx.rcvBlk]
    exact statText_blk hs m.ctx.rcvBlk hrest (reading env (files[i].blk 0)).rest_le
  have hopens := (@openFileForTransfer_spec (reading env (files[i].blk 0)) x.checkForAnotherFile
    _).mpr ⟨_, _, htext, rfl⟩
  have herr : x.errCnt ≤ e := hx.errCnt.trans h.errCnt
  refine h.goesStat (.blk i 0) hm hx
    (.opened _ hsync (herr.trans_lt he) hgood hnamed hopens hcreat)
    (.inr ⟨i, 0, rfl, .stat, by rw [hblk]; rfl⟩) (fun q hreads hh => ?_) ?_ rfl herr hsync rfl rfl
    (by simp)
  · generalize hout : [ACK, NCG] = out at hreads
    cases hreads with
    | ignored => cases hout
    | badStat => cases hout
    | opened => rfl
    | ends => cases hout
  · simp [ReceiverY.checkForAnotherFile, sentBytes]

/-- The empty stat block arrives. -/
theorem RcvFit.lastStatBlk (hm : Receiver.Settled m)
    (h : RcvFit files (.waiting files.length) leaf e (Receiver.configOf m)) (he : e < errB) :
    RcvGoes files (reading env (blkOf files files.length 0)) (.ser SOH) m [ACK]
      (.ended files.length true) .areWeDone e := by
  obtain ⟨rfl, -⟩ := h.lastNum
  have hblk : blkOf files files.length 0 = Sender.lastStatBlk := blkOf_nameless (by simp)
  rw [hblk]
  obtain ⟨x, hx⟩ := statRead (reading env Sender.lastStatBlk) m.ctx
  obtain ⟨hgood, hsync, hrest⟩ := h.statArrived length_lastStatBlk intact_lastStatBlk rfl hx
  have hnone : x.checkForAnotherFile.anotherFile = 0 := by
    show x.rcvBlk.get DATA_POS = 0
    rw [hx.rcvBlk]
    exact anotherFile_lastStatBlk m.ctx.rcvBlk hrest (reading env Sender.lastStatBlk).rest_le
  have herr : x.errCnt ≤ e := hx.errCnt.trans h.errCnt
  refine h.goesStat (.blk files.length 0) hm hx
    (.noFile hsync (herr.trans_lt he) hgood hnone)
    (.inr ⟨_, 0, rfl, .stat, by rw [hblk]; rfl⟩) (fun q hreads hh => ?_) ?_ rfl herr hsync rfl rfl
    (by simp)
  · generalize hout : [ACK] = out at hreads
    cases hreads with
    | ignored => cases hout
    | badStat => cases hout
    | opened => cases hout
    | ends => rfl
  · simp [ReceiverY.checkForAnotherFile, sentBytes]

/-- The number that a block of the batch carries. -/
theorem blkNumOf_tail (files : List File) (i k : Nat) (h : files[i]? ≠ none ∨ k = 0) :
    blkNumOf (blkOf files i k).tail = UInt8.ofNat k := by
  rw [← blkNumOf_blkOf files i k h]
  cases (blkOf files i k).tail <;> rfl

/-- A damaged stat block. -/
theorem RcvFit.badStatBlk (hm : Receiver.Settled m)
    (h : RcvFit files (.waiting i) leaf e (Receiver.configOf m)) (he : e < errB)
    (hd : Damaged (blkOf files i 0) env.rest) :
    RcvGoes files env (.ser SOH) m [NAK] (.waiting i) .firstByteStat (e + 1) := by
  obtain ⟨rfl, hlast⟩ := h.lastNum
  obtain ⟨hgood, -, hsync⟩ := getRestBlk_damaged (r := m.ctx) hd (by
    rw [blkNumOf_tail files i 0 (.inr rfl), hlast]
    rfl)
  obtain ⟨x, hx⟩ := statRead env m.ctx
  have herr : x.errCnt ≤ e := hx.errCnt.trans h.errCnt
  have hinx : x.syncLoss = false := hx.syncLoss.trans (hsync.trans h.inSync)
  refine h.goesStat (.blk i 0) hm hx (.again hinx (herr.trans_lt he) (hx.good.trans hgood))
    (.inl hgood) (fun q hreads hh => ?_) ?_ rfl
    ((Nat.mod_le _ _).trans (Nat.succ_le_succ herr)) hinx rfl rfl (by simp)
  · generalize hout : [NAK] = out at hreads
    cases hreads with
    | ignored => cases hout
    | badStat => rfl
    | opened => cases hout
    | ends => cases hout
  · simp [countAndWait, sentBytes]

/-- A byte that begins no message. -/
def isNoise (c : UInt8) : Bool := c ≠ SOH && c ≠ EOT && c ≠ CAN

/-- Noise is thrown away. -/
theorem RcvFit.noise (hm : Receiver.Settled m) (h : RcvFit files p leaf e (Receiver.configOf m))
    (hl : leaf.waits = true) (hc : isNoise c = true) :
    RcvGoes files env (.ser c) m [] p leaf e := by
  simp only [isNoise, Bool.and_eq_true, decide_eq_true_eq] at hc
  obtain ⟨⟨hsoh, heot⟩, hcan⟩ := hc
  have ht : Receiver.Trans env (.ser c) ⟨some leaf, m.history .nonCan, m.ctx⟩
      ⟨some leaf, m.history .nonCan, m.ctx.purge⟩ :=
    .purged hl h.kbCan hcan hsoh fun hx => absurd hx heot
  have hs : SameOutputs m.ctx m.ctx.purge := ⟨by simp, by simp [Progress.add, createsFile]⟩
  have hat : RcvAt files p ⟨some leaf, m.history .nonCan, m.ctx.purge⟩ :=
    h.at_config.stay (ht.kept (h.wellFormed hm) h.at_config.kept) hs rfl (h.holds.same hs rfl rfl rfl)
  refine h.goes hm ht hat ?_ h.kbCan h.errCnt h.inSync h.result h.first
  simp [sentBytes]

/-- The receiver asks again for what it waits for. -/
theorem RcvFit.retry (env : Receiver.Env) (hm : Receiver.Settled m)
    (h : RcvFit files p leaf e (Receiver.configOf m))
    (hl : leaf = .firstByteStat ∨ leaf.dataLeaf = true) (he : e < errB) :
    RcvGoes files env .tm m [if m.ctx.transferringFileD = -1 then NCG else NAK] p leaf (e + 1) := by
  have hkb : m.ctx.kbCan = false := h.kbCan
  have ht := @Receiver.Trans.retry env leaf (m.history .nonCan) m.ctx hl (h.errCnt.trans_lt he) hkb
  have hk := ht.kept (h.wellFormed hm) h.at_config.kept
  have hs : SameOutputs m.ctx (countAndWait env (if m.ctx.transferringFileD = -1 then
      m.ctx.peer (·.sendByte NCG) else m.ctx.peer (·.sendByte NAK))) := by
    constructor
    · split_ifs <;> simp [countAndWait]
    · split_ifs <;> simp [countAndWait, Progress.add, createsFile]
  have hat := h.at_config.stay hk hs rfl (h.holds.same hs (by split_ifs <;> rfl)
    (by split_ifs <;> rfl) (by split_ifs <;> rfl))
  refine h.goes hm ht hat ?_ ?_ ?_ ?_ ?_ fun i k hp => ?_
  · split_ifs <;> simp [countAndWait, sentBytes]
  · split_ifs <;> exact h.kbCan
  · split_ifs <;> exact (Nat.mod_le _ _).trans (Nat.succ_le_succ h.errCnt)
  · split_ifs <;> exact h.inSync
  · split_ifs <;> exact h.result
  · split_ifs <;> exact h.first i k hp

theorem RcvFit.retryStat (hm : Receiver.Settled m)
    (h : RcvFit files (.waiting i) leaf e (Receiver.configOf m)) (he : e < errB) :
    RcvGoes files env .tm m [NCG] (.waiting i) .firstByteStat (e + 1) := by
  obtain ⟨rfl, -⟩ := h.lastNum
  have hclosed : m.ctx.transferringFileD = -1 := by
    cases h.holds with
    | waiting hidle _ => exact hidle.closed
  have hgo := h.retry env hm (.inl rfl) he
  rwa [if_pos hclosed] at hgo

/-- The receiver is in the middle of a file. -/
theorem RcvFit.filling (h : RcvFit files (.receiving i k) leaf e (Receiver.configOf m)) :
    leaf.dataLeaf = true ∧ Filling files i k m.ctx ∧ Transferring leaf m.ctx := by
  cases h.holds with
  | receiving hl hfill =>
    exact ⟨hl, hfill, h.at_config.kept.transferring leaf rfl (transfers_of_dataLeaf hl)⟩

theorem RcvFit.retryData (hm : Receiver.Settled m)
    (h : RcvFit files (.receiving i k) leaf e (Receiver.configOf m)) (he : e < errB) :
    RcvGoes files env .tm m [NAK] (.receiving i k) leaf (e + 1) := by
  obtain ⟨hl, -, ht⟩ := h.filling
  have hopen : m.ctx.transferringFileD ≠ -1 := by
    have := ht.isOpen
    omega
  have hgo := h.retry env hm (.inr hl) he
  rwa [if_neg hopen] at hgo

/-- The number of the last block that a receiver has accepted. -/
theorem RcvFit.lastDataNum (h : RcvFit files (.receiving i k) leaf e (Receiver.configOf m)) :
    m.ctx.numLastGoodBlk = UInt8.ofNat k := by
  obtain ⟨hl, hfill, ht⟩ := h.filling
  obtain ⟨f, o, -, -, hle, hcur, hcopy⟩ := hfill.file
  have hne : leaf ≠ .condTransientData := by
    rintro rfl
    cases hl
  exact (file_of_transferring ht hne hcur hcopy hle).2.1

/-- A data block is read, good or bad. -/
theorem RcvFit.goesData (msg : Msg) (hm : Receiver.Settled m)
    (h : RcvFit files (.receiving i k) leaf e (Receiver.configOf m))
    (hrest : (m.ctx.getRestBlk env).goodBlk = false ∨ Undamaged files (.receiving i k) msg env)
    (hq : ∀ q, StopAndWait.Reads (.receiving i k) msg [] q →
      RHolds files (dataBlkRead env m.ctx) .condTransientData q → q = p')
    (herr : (dataBlkRead env m.ctx).errCnt ≤ e')
    (hsync : (m.ctx.getRestBlk env).syncLoss = false) (hc : p'.completed = i)
    (hfirst : ∀ i k, p' = .pending i k true → (dataBlkRead env m.ctx).anotherFile = 0) :
    RcvGoes files env (.ser SOH) m [] p' .condTransientData e' := by
  obtain ⟨hl, -, -⟩ := h.filling
  have hkb : m.ctx.kbCan = false := h.kbCan
  have ht := @Receiver.Trans.dataBlk env leaf (m.history .nonCan) m.ctx hl hkb
  have hsent : sentBytes (dataBlkRead env m.ctx).calls = sentBytes m.ctx.calls ++ [] := by
    rw [dataBlkRead_eq, List.append_nil]
    exact (getRestBlk_calls env m.ctx).2
  have hspec := getRestBlk_spec env m.ctx
  have hpeer : (dataBlkRead env m.ctx).kbCan = m.ctx.kbCan ∧
      (dataBlkRead env m.ctx).result = m.ctx.result := by
    rw [dataBlkRead_eq]
    generalize m.ctx.getRestBlk env = g at hspec
    cases hspec <;> exact ⟨rfl, rfl⟩
  refine h.goes hm ht ((readsAs_blk h.at_config (h.wellFormed hm) ht rfl hrest).place hsent hq) hsent
    (hpeer.1.trans h.kbCan) herr ?_ ?_ hfirst
  · rw [dataBlkRead_eq]
    exact hsync
  · rw [hc]
    exact hpeer.2.trans h.result

/-- The next data block arrives. -/
theorem RcvFit.dataBlk (hf : ∀ f ∈ files, Sendable f) (hm : Receiver.Settled m)
    (h : RcvFit files (.receiving i k) leaf e (Receiver.configOf m)) (hi : i < files.length)
    (hk : k < chunksOf files i) :
    RcvGoes files (reading env (blkOf files i (k + 1))) (.ser SOH) m [] (.pending i (k + 1) true)
      .condTransientData 0 := by
  have hget : files[i]? = some files[i] := List.getElem?_eq_getElem hi
  have hs : Sendable files[i] := hf _ (List.getElem_mem hi)
  have hblk : blkOf files i (k + 1) = files[i].blk (k + 1) := blkOf_eq hget (.inr (by simp))
  have hrest : (reading env (blkOf files i (k + 1))).rest = (files[i].blk (k + 1)).tail := by
    rw [hblk, rest_reading env (length_blk hs _)]
  have hnext : blkNumOf (reading env (blkOf files i (k + 1))).rest = m.ctx.numLastGoodBlk + 1 := by
    rw [hrest, blkNumOf_blk, h.lastDataNum, ofNat_succ]
  have hg := getRestBlk_first (r := m.ctx) (by rw [hrest]; exact intact_blk hs (k + 1)) hnext
  have hfirst : (m.ctx.getRestBlk (reading env (blkOf files i (k + 1)))).goodBlk1st = true := by
    rw [hg]
  refine h.goesData (.blk i (k + 1)) hm (.inr ⟨i, k + 1, rfl, .next hk, rfl⟩)
    (fun q hreads hh => ?_) ?_ ?_ rfl fun j k' _ => ?_
  · generalize hmsg : Msg.blk i (k + 1) = msg at hreads
    generalize hout : ([] : List UInt8) = out at hreads
    cases hreads with
    | ignored =>
      cases hh with
      | receiving hl _ => cases hl
    | badBlk =>
      cases hh with
      | pending _ hbad =>
        rw [dataBlkRead_eq, hg] at hbad
        cases hbad
    | again => simp at hmsg
    | next => rfl
    | firstEot => cases hmsg
    | secondEot => cases hmsg
  · rw [dataBlkRead_eq, hfirst]
    exact Nat.le_refl 0
  · rw [hg]
    exact h.inSync
  · rw [dataBlkRead_eq, hfirst]
    rfl

/-- A damaged data block. -/
theorem RcvFit.badDataBlk (hm : Receiver.Settled m)
    (h : RcvFit files (.receiving i k) leaf e (Receiver.configOf m)) (hi : i < files.length)
    (hd : Damaged (blkOf files i (k + 1)) env.rest) :
    RcvGoes files env (.ser SOH) m [] (.pending i k false) .condTransientData (e + 1) := by
  have hget : files[i]? = some files[i] := List.getElem?_eq_getElem hi
  obtain ⟨hgood, h1st, hsync⟩ := getRestBlk_damaged (r := m.ctx) hd (by
    rw [blkNumOf_tail files i (k + 1) (.inl (by rw [hget]; simp)), h.lastDataNum, ofNat_succ])
  refine h.goesData (.blk i (k + 1)) hm (.inl hgood) (fun q hreads hh => ?_) ?_
    (hsync.trans h.inSync) rfl (by simp)
  · generalize hmsg : Msg.blk i (k + 1) = msg at hreads
    generalize hout : ([] : List UInt8) = out at hreads
    cases hreads with
    | ignored =>
      cases hh with
      | receiving hl _ => cases hl
    | badBlk => rfl
    | again => simp at hmsg
    | next =>
      cases hh with
      | pending _ hok =>
        rw [dataBlkRead_eq] at hok
        rw [hgood] at hok
        cases hok
    | firstEot => cases hmsg
    | secondEot => cases hmsg
  · rw [dataBlkRead_eq, h1st]
    exact (Nat.mod_le _ _).trans (Nat.succ_le_succ h.errCnt)

/-- The block that has been read is answered. -/
theorem RcvFit.answer {good : Bool} (hm : Receiver.Settled m)
    (h : RcvFit files (.pending i k good) .condTransientData e (Receiver.configOf m)) (he : e < errB) :
    RcvGoes files env .tm m [if good then ACK else NAK] (.receiving i k) .firstByteData e := by
  have hsync : m.ctx.syncLoss = false := h.inSync
  have ht := @Receiver.Trans.answered env (m.history .nonCan) m.ctx hsync (h.errCnt.trans_lt he)
  have hk := ht.kept (h.wellFormed hm) h.at_config.kept
  obtain ⟨hfill, hg⟩ : Filling files i k m.ctx ∧ m.ctx.goodBlk = good := by
    cases h.holds with
    | pending hfill hg => exact ⟨hfill, hg⟩
  obtain ⟨f, o, -, -, -, hcur, hcopy⟩ := hfill.file
  obtain ⟨-, -, -, hsent⟩ := answerDataBlk_calls env hcur hcopy
  have hout : sentBytes (answerDataBlk env m.ctx).calls =
      sentBytes m.ctx.calls ++ [if good then ACK else NAK] := by
    rw [hsent, hg]
    cases good with
    | false => rfl
    | true =>
      have hfirst : m.ctx.anotherFile = 0 := h.first i k rfl
      simp [hfirst]
  refine h.goes hm ht (h.at_config.answered hfill hk) hout ?_ ?_ ?_ ?_ (by simp)
  all_goals rw [answerDataBlk_eq]
  · exact h.kbCan
  · exact h.errCnt
  · exact hsync
  · exact h.result

/-- The first EOT is answered by a NAK. -/
theorem RcvFit.firstEot (hm : Receiver.Settled m)
    (h : RcvFit files (.receiving i k) .firstByteData e (Receiver.configOf m)) :
    RcvGoes files env (.ser EOT) m [NAK] (.receiving i k) .eot (e + 1) := by
  have hkb : m.ctx.kbCan = false := h.kbCan
  obtain ⟨-, hfill, -⟩ := h.filling
  have ht := @Receiver.Trans.firstEOT env (m.history .nonCan) m.ctx hkb
  have hk := ht.kept (h.wellFormed hm) h.at_config.kept
  have hs : SameOutputs m.ctx (countAndWait env (m.ctx.purge.peer (·.sendByte NAK))) :=
    ⟨by simp [countAndWait], by simp [countAndWait, Progress.add, createsFile]⟩
  refine h.goes hm ht (h.at_config.stay hk hs rfl (.receiving rfl (hfill.same hs))) ?_ hkb
    ((Nat.mod_le _ _).trans (Nat.succ_le_succ h.errCnt)) h.inSync h.result (by simp)
  simp [countAndWait, sentBytes]

/-- The second EOT closes the file. -/
theorem RcvFit.secondEot (hm : Receiver.Settled m)
    (h : RcvFit files (.receiving i (chunksOf files i)) .eot e (Receiver.configOf m))
    (hclose : env.close = 0) :
    RcvGoes files env (.ser EOT) m [ACK, NCG] (.waiting (i + 1)) .firstByteStat 0 := by
  obtain ⟨-, -, ht⟩ := h.filling
  have hclosed := closeTransferredFile_closed ht.isOpen hclose
  have hprob : (m.ctx.closeTransferredFile env).closeProb = 0 := by rw [hclosed]
  have ht := @Receiver.Trans.secondEOT env (m.history .nonCan) m.ctx hprob
  have hk := ht.kept (h.wellFormed hm) h.at_config.kept
  refine h.goes hm ht (h.at_config.secondEOT hk hprob) ?_ ?_ (Nat.le_refl 0) ?_ ?_ (by simp)
  all_goals rw [hclosed]
  · simp [acknowledgeEOT, sentBytes]
  · exact h.kbCan
  · exact h.inSync
  · exact congrArg (· ++ "Done, ") h.result

/-- Nothing comes behind the empty stat block. -/
theorem RcvFit.endOfSession (env : Receiver.Env) (hm : Receiver.Settled m)
    (h : RcvFit files (.ended i true) .areWeDone e (Receiver.configOf m)) :
    ∃ m', yReceiverSS.Step m (env, .tm) m' ∧ m'.running = false ∧
      m'.ctx.result = doneText i ++ "EndOfSession" ∧ Copied files i (created m'.ctx.calls) ∧
      sentBytes m'.ctx.calls = sentBytes m.ctx.calls := by
  have ht := @Receiver.Trans.endOfSession env (m.history .nonCan) m.ctx
  rw [← h.config] at ht
  obtain ⟨m', hstep, hv'⟩ := ht.step hm
  obtain ⟨hset, -⟩ := Receiver.step_trans hm hstep
  have hctx : m'.ctx = m.ctx.peer (·.addResult "EndOfSession") := congrArg Receiver.Config.ctx hv'
  have hcopied : Copied files i (created m.ctx.calls) := h.place.copied
  have hsilent := silent_result m.ctx (show "EndOfSession" ≠ "Done, " by decide)
  refine ⟨m', hstep, ?_, ?_, ?_, ?_⟩
  · rw [hset.running_eq, hv']
    rfl
  · rw [hctx]
    exact congrArg (· ++ "EndOfSession") h.result
  · rw [hctx, hsilent.created]
    exact hcopied
  · rw [hctx, hsilent.sent]

theorem rcvFit_started (hr : Receiver.Started m) (files : List File) :
    RcvFit files (.waiting 0) .firstByteStat 0 (Receiver.configOf m) := by
  obtain ⟨hplace, -⟩ := rcvAt_started hr files
  obtain ⟨renv, rcvBlk, hc⟩ := hr.config
  refine ⟨hplace, ?_, ?_, ?_, ?_, ?_, by simp⟩
  all_goals rw [hc]
  · rfl
  · exact Nat.le_refl 0
  · rfl
  · rfl

end Receiver

end YModem.Session
