import YModem.Session.Receiving

/-!
# The receiver reads a block

A block that has arrived undamaged is the one that the receiver waits for or the one before
it, by its number. A damaged block is not good, whatever the line has made of it.
-/

namespace YModem.Session

open YModem.Lib YModem.Peer YModem.SmartState YModem.Sender YModem.Receiver StopAndWait

section Reads

variable {files : List File} {env : Receiver.Env} {c : UInt8} {p p' : RPlace} {m : Msg}
  {i k : Nat} {good : Bool} {v v' : Receiver.Config} {leaf leaf' : RState}
  {back back' next : Option RState} {r r' : ReceiverY}

/-! ## Blocks -/

theorem blkNumOf_blkOf (files : List File) (i k : Nat) (h : files[i]? ≠ none ∨ k = 0) :
    blkNumOf ((blkOf files i k).tail.take (BUF_SZ - 1)) = UInt8.ofNat k := by
  have hhead (bs : List UInt8) : blkNumOf (bs.take (BUF_SZ - 1)) = blkNumOf bs := by
    cases bs <;> rfl
  rw [hhead]
  cases hf : files[i]? with
  | none =>
    rcases h with h | rfl
    · exact absurd hf h
    · simp only [blkOf, hf]
      rfl
  | some f =>
    simp only [blkOf, hf]
    split_ifs with hn
    · rw [hn.2]
      rfl
    · exact blkNumOf_blk k

/-- `getRestBlk` sends nothing, and creates and finishes no file. -/
theorem getRestBlk_calls (env : Receiver.Env) (r : ReceiverY) :
    progress createsFile (r.getRestBlk env).calls = progress createsFile r.calls ∧
      sentBytes (r.getRestBlk env).calls = sentBytes r.calls := by
  have hspec := getRestBlk_spec env r
  generalize r.getRestBlk env = g at hspec ⊢
  cases hspec with
  | bad purged hp _ =>
    rcases hp with rfl | rfl <;> simp [Progress.add, createsFile, sentBytes]
  | _ => simp [Progress.add, createsFile, sentBytes]

/-- A block read while no file is open changes no file. -/
theorem Idle.getRestBlk (h : Idle i r) (env : Receiver.Env) :
    Idle i (r.getRestBlk env) ∧ created (r.getRestBlk env).calls = created r.calls := by
  obtain ⟨hprog, -⟩ := getRestBlk_calls env r
  have hout := outputs_getRestBlk env r
  have hcur : (outputs (r.getRestBlk env).calls).current = none := by
    rw [hout]
    split_ifs
    · simp [Outputs.accept, h.current]
    · exact h.current
  have hearlier : (outputs (r.getRestBlk env).calls).earlier = (outputs r.calls).earlier := by
    rw [hout]
    split_ifs <;> rfl
  constructor
  · exact ⟨by simp [h.closed], hcur, by rw [hearlier]; exact h.earlier, by rw [hprog]; exact h.begun⟩
  · rw [created, created, hcur, hearlier, h.current]

/-- While no file is open, a good block is a new one. -/
theorem Idle.goodBlk (h : Idle i r) (hg : (r.getRestBlk env).goodBlk = true) :
    Intact env.rest ∧ blkNumOf env.rest = r.numLastGoodBlk + 1 ∧
      (r.getRestBlk env).numLastGoodBlk = r.numLastGoodBlk + 1 ∧
      (outputs (r.getRestBlk env).calls).lastNum = r.numLastGoodBlk + 1 := by
  have hspec := getRestBlk_spec env r
  generalize r.getRestBlk env = g at hspec hg ⊢
  cases hspec with
  | bad _ _ _ => cases hg
  | lost _ _ => cases hg
  | resent _ hfd _ => exact absurd h.closed hfd
  | first hi hnum => exact ⟨hi, hnum, hnum, by simp [Outputs.lastNum, hnum]⟩

/-- What a stat block leads to, given the context that it is handed over in. -/
structure Handed (env : Receiver.Env) (r x : ReceiverY) : Prop where
  calls : x.calls = (r.getRestBlk env).calls
  closed : x.transferringFileD = r.transferringFileD
  num : x.numLastGoodBlk = (r.getRestBlk env).numLastGoodBlk
  good : x.goodBlk = (r.getRestBlk env).goodBlk
  rcvBlk : x.rcvBlk = r.rcvBlk.read env.rest env.rest_le

theorem handed_statBlkRead (env : Receiver.Env) (r : ReceiverY) :
    Handed env r (statBlkRead env r) := by
  rw [statBlkRead_eq]
  exact ⟨rfl, by simp, rfl, rfl, by simp⟩

theorem handed_incErrCnt (env : Receiver.Env) (r : ReceiverY) :
    Handed env r ((r.getRestBlk env).peer (·.incErrCnt)) :=
  ⟨rfl, by simp, rfl, rfl, by simp⟩

/-- A bad numLastGoodBlk is left alone. -/
theorem numLastGoodBlk_of_bad (hg : (r.getRestBlk env).goodBlk = false) :
    (r.getRestBlk env).numLastGoodBlk = r.numLastGoodBlk := by
  have hspec := getRestBlk_spec env r
  generalize r.getRestBlk env = g at hspec hg ⊢
  cases hspec with
  | bad _ _ _ => rfl
  | lost _ _ => rfl
  | resent _ _ _ => cases hg
  | first _ _ => cases hg

/-- A stat block that opens a file is the one of that file. -/
theorem file_of_statText (blk : RcvBlk) {rest fileName : List UInt8} {size : Int}
    (hrest : rest = (blkOf files i 0).tail.take (BUF_SZ - 1)) (hle : rest.length ≤ BUF_SZ - 1)
    (hi : Intact rest) (hfirst : (blk.read rest hle).get DATA_POS ≠ 0)
    (htext : StatText (blk.read rest hle) fileName size) :
    ∃ f, files[i]? = some f ∧ Sendable f ∧ fileName = filename f.name ∧
      size = f.contents.length := by
  have hlast (h : blkOf files i 0 = lastStatBlk) : False := by
    rw [h, List.take_of_length_le (by rw [List.length_tail, length_lastStatBlk]; decide)] at hrest
    exact hfirst (anotherFile_lastStatBlk blk hrest hle)
  cases hf : files[i]? with
  | none => exact (hlast (blkOf_nameless (by simp [hf]))).elim
  | some f =>
    by_cases hn : f.name = []
    · refine (hlast (blkOf_nameless fun g hg => ?_)).elim
      cases hf.symm.trans hg
      exact hn
    · rw [blkOf_eq hf (.inl hn)] at hrest
      exact ⟨f, rfl, sendable_of_statText blk hrest hle hi hfirst htext⟩

/-- The file that a stat block names is created. -/
theorem RcvAt.opened {x y : ReceiverY} (h : RcvAt files (.waiting i) ⟨some leaf, back, r⟩)
    (hidle : Idle i r) (hnum : r.numLastGoodBlk = 255) (hx : Handed env r x)
    (hrest : env.rest = (blkOf files i 0).tail.take (BUF_SZ - 1)) (hg : x.goodBlk = true)
    (ha : x.checkForAnotherFile.anotherFile ≠ 0)
    (ho : x.checkForAnotherFile.openFileForTransfer env = .ok y) (hfd : y.transferringFileD ≠ -1)
    (hk : Kept ⟨some .firstByteData, back', r'⟩)
    (hcalls : r'.calls = y.calls ++ [.sendByte ACK, .sendByte NCG]) :
    RcvAt files (.receiving i 0) ⟨some .firstByteData, back', r'⟩ := by
  obtain ⟨fileName, size, htext, rfl⟩ := openFileForTransfer_spec.mp ho
  obtain ⟨hintact, -, -, hlast⟩ := hidle.goodBlk (hx.good.symm.trans hg)
  obtain ⟨hidle', hcreated⟩ := hidle.getRestBlk env
  obtain ⟨hprog, -⟩ := getRestBlk_calls env r
  have hne : env.creat ≠ -1 := hfd
  have hfirst : x.rcvBlk.get DATA_POS ≠ 0 := ha
  replace htext : StatText x.rcvBlk fileName size := htext
  rw [hx.rcvBlk] at hfirst htext
  obtain ⟨f, hf, hs, rfl, rfl⟩ := file_of_statText r.rcvBlk hrest env.rest_le hintact hfirst htext
  have hlast0 : (outputs (r.getRestBlk env).calls).lastNum = 0 := by rw [hlast, hnum]; rfl
  have hcalls' : r'.calls = (r.getRestBlk env).calls ++ [.checkForAnotherFile (x.rcvBlk.get DATA_POS),
      .creat (filename f.name) f.contents.length x.transferringFileD env.creat,
      .sendByte ACK, .sendByte NCG] := by
    rw [hcalls, ← hx.calls]
    simp [ReceiverY.checkForAnotherFile]
  have hcur := hidle'.current
  have hout : outputs r'.calls = ⟨(outputs (r.getRestBlk env).calls).earlier,
      some ⟨filename f.name, f.contents.length, env.creat, 0, [], []⟩,
      (outputs (r.getRestBlk env).calls).last⟩ := by
    rw [hcalls']
    have hlast0' := hlast0
    simp only [Outputs.lastNum] at hlast0'
    simp [Outputs.add, Outputs.lastNum, hne, hcur, hlast0']
  have hprog' : progress createsFile r'.calls =
      ⟨i + 1, (progress createsFile r.calls).done⟩ := by
    rw [hcalls']
    simp [Progress.add, createsFile, hprog, hidle.begun]
  apply rcvAt_running hk
  case hh =>
    refine .receiving rfl ⟨⟨f, _, hf, hs, Nat.zero_le _, by rw [hout], ⟨rfl, rfl, rfl, rfl⟩⟩, ?_, ?_⟩
    · rw [hout]
      exact hidle'.earlier
    · rw [hprog']
  case hcopied =>
    show Copied files i (created r'.calls)
    have hcreated' : created r'.calls = created r.calls ++
        [⟨filename f.name, f.contents.length, env.creat, 0, [], []⟩] := by
      rw [← hcreated, created, created, hout, hcur]
      simp
    have hlen : (created r.calls).length = i := by
      rw [created, hidle.current, List.length_append, hidle.earlier]
      rfl
    rw [hcreated']
    refine Copied.concat h.copied (f := f) (by rw [hlen]; exact hf) ⟨rfl, ?_⟩
    exact List.nil_prefix
  case hdone =>
    show ∀ j ∈ (progress createsFile r'.calls).done, j < i
    rw [hprog']
    exact h.done

/-- The context that is handed over, when no file is open. -/
theorem Handed.idle {x : ReceiverY} (hx : Handed env r x) (h : Idle i r) :
    Idle i x ∧ Silent r x := by
  obtain ⟨hidle, hcreated⟩ := h.getRestBlk env
  obtain ⟨hprog, hsent⟩ := getRestBlk_calls env r
  rw [← hx.calls] at hcreated hprog hsent
  refine ⟨⟨hx.closed.trans h.closed, ?_, ?_, ?_⟩, hcreated, congrArg Progress.done hprog, hsent⟩
  · rw [hx.calls]
    exact hidle.current
  · rw [hx.calls]
    exact hidle.earlier
  · rw [hx.calls]
    exact hidle.begun

/-- The message is a block that has been expected, and its rest has arrived undamaged. -/
def Undamaged (files : List File) (p : RPlace) (m : Msg) (env : Receiver.Env) : Prop :=
  ∃ i k, m = .blk i k ∧ Expects (chunksOf files) p (.blk i k) ∧
    env.rest = (blkOf files i k).tail.take (BUF_SZ - 1)

/-- Only a receiver that waits for a stat block finds one good. -/
theorem waiting_of_goodBlk (hh : RHolds files r leaf p) {j : Nat} (hidle : Idle j r)
    (he : Expects (chunksOf files) p (.blk i k))
    (hrest : env.rest = (blkOf files i k).tail.take (BUF_SZ - 1))
    (hg : (r.getRestBlk env).goodBlk = true) :
    p = .waiting i ∧ k = 0 ∧ r.numLastGoodBlk = 255 := by
  obtain ⟨-, hnum, -, -⟩ := hidle.goodBlk hg
  have hlast (hk : k = 0) (h0 : r.numLastGoodBlk = 0) : False := by
    rw [hrest, blkNumOf_blkOf files i k (.inr hk), h0, hk] at hnum
    exact absurd hnum (by decide)
  cases hh with
  | waiting _ h255 =>
    cases he with
    | stat => exact ⟨rfl, rfl, h255⟩
  | receiving _ hfill =>
    obtain ⟨f, o, -, -, -, hcur, -⟩ := hfill.file
    cases hidle.current.symm.trans hcur
  | pending _ _ => cases he
  | done _ h0 =>
    cases he with
    | last => exact (hlast rfl h0).elim
  | doneAgain _ h0 =>
    cases he with
    | last => exact (hlast rfl h0).elim

/-- A stat block is read. -/
theorem readsAs_statBlk {x : ReceiverY} (h : RcvAt files p ⟨some leaf, back, r⟩)
    (hl : leaf = .firstByteStat ∨ leaf = .areWeDone) (hk : Kept ⟨next, back', r'⟩)
    (hx : Handed env r x) (hb : StatBlk env x next r')
    (hrest : (r.getRestBlk env).goodBlk = false ∨ Undamaged files p m env) :
    ReadsAs files p m ⟨some leaf, back, r⟩ ⟨next, back', r'⟩ := by
  have hh := h.active leaf rfl
  have hidle : ∃ j, Idle j r := by
    cases hh with
    | waiting hidle _ => exact ⟨_, hidle⟩
    | receiving hd _ => rcases hl with rfl | rfl <;> cases hd
    | pending _ _ => rcases hl with hl | hl <;> cases hl
    | done hidle _ => exact ⟨_, hidle⟩
    | doneAgain hidle _ => exact ⟨_, hidle⟩
  obtain ⟨j, hidle⟩ := hidle
  obtain ⟨hidle', hsilent⟩ := hx.idle hidle
  have hgood (hg : x.goodBlk = true) : ∃ i, m = .blk i 0 ∧ p = .waiting i ∧
      r.numLastGoodBlk = 255 ∧ env.rest = (blkOf files i 0).tail.take (BUF_SZ - 1) := by
    rw [hx.good] at hg
    obtain ⟨i, k, rfl, he, hbytes⟩ := hrest.resolve_left (by simp [hg])
    obtain ⟨hp, rfl, hnum⟩ := waiting_of_goodBlk hh hidle he hbytes hg
    exact ⟨i, rfl, hp, hnum, hbytes⟩
  cases hb with
  | again hs herr hg =>
    have hnum : x.numLastGoodBlk = r.numLastGoodBlk :=
      hx.num.trans (numLastGoodBlk_of_bad (hx.good.symm.trans hg))
    have hsame : SameOutputs x (countAndWait env (x.peer (·.sendByte NAK))) :=
      ⟨by simp [countAndWait], by simp [countAndWait, Progress.add, createsFile]⟩
    have hsent' : sentBytes (countAndWait env (x.peer (·.sendByte NAK))).calls =
        sentBytes r.calls ++ [NAK] := by
      rw [← hsilent.sent]
      simp [countAndWait, sentBytes]
    have hmove {p' : RPlace} (hc : p'.completed = p.completed)
        (hh' : RHolds files (countAndWait env (x.peer (·.sendByte NAK))) .firstByteStat p') :
        RcvAt files p' ⟨some .firstByteStat, back', countAndWait env (x.peer (·.sendByte NAK))⟩ := by
      exact h.move hk (hsame.created.trans hsilent.created)
        ((congrArg Progress.done hsame.progress).trans hsilent.done) hc hh'
    cases hh with
    | waiting hidle h255 =>
      exact ⟨[NAK], _, .badStat,
        hmove rfl (.waiting (((hx.idle hidle).1).same hsame rfl) (hnum.trans h255)), hsent'⟩
    | receiving hd _ => rcases hl with rfl | rfl <;> cases hd
    | pending _ _ => rcases hl with hl | hl <;> cases hl
    | @done i' q hidle h0 =>
      exact ⟨[NAK], .ended i' false, .badWhenDone,
        hmove rfl (.doneAgain (((hx.idle hidle).1).same hsame rfl) (hnum.trans h0)), hsent'⟩
    | doneAgain hidle h0 =>
      exact ⟨[NAK], _, .badWhenDone,
        hmove rfl (.doneAgain (((hx.idle hidle).1).same hsame rfl) (hnum.trans h0)), hsent'⟩
  | noFile hs herr hg ha =>
    obtain ⟨i, rfl, rfl, h255, -⟩ := hgood hg
    obtain ⟨-, -, hnum, -⟩ := hidle.goodBlk (hx.good.symm.trans hg)
    have hsame : SameOutputs x
        ((x.checkForAnotherFile.peer (·.sendByte ACK)).peer (·.tm env.elapsed TM_SOH)) :=
      ⟨by simp [ReceiverY.checkForAnotherFile],
        by simp [ReceiverY.checkForAnotherFile, Progress.add, createsFile]⟩
    have hnum0 : x.numLastGoodBlk = 0 := by
      rw [hx.num, hnum, h255]
      rfl
    refine ⟨[ACK], .ended i true, .ends, h.move hk (hsame.created.trans hsilent.created)
      ((congrArg Progress.done hsame.progress).trans hsilent.done) rfl ?_, ?_⟩
    · cases hh with
      | waiting hidle _ => exact .done (((hx.idle hidle).1).same hsame rfl) hnum0
    · rw [← hsilent.sent]
      simp [ReceiverY.checkForAnotherFile, sentBytes]
  | opened y hs herr hg ha ho hfd =>
    obtain ⟨i, rfl, rfl, h255, hbytes⟩ := hgood hg
    refine ⟨[ACK, NCG], _, .opened, ?_, ?_⟩
    · cases hh with
      | waiting hidle _ => exact h.opened hidle h255 hx hbytes hg ha ho hfd hk (by simp)
    · obtain ⟨_, _, _, rfl⟩ := openFileForTransfer_spec.mp ho
      rw [← hsilent.sent]
      simp [ReceiverY.checkForAnotherFile, sentBytes]
  | creatError y hs herr hg ha ho hfd =>
    obtain ⟨_, _, _, rfl⟩ := openFileForTransfer_spec.mp ho
    replace hfd : env.creat = -1 := hfd
    refine readsAs_stop h hk (hsilent.trans (Silent.trans ?_ (silent_cancelled _ (by decide))))
    exact ⟨by simp [ReceiverY.checkForAnotherFile, created, Outputs.add, hfd],
      by simp [ReceiverY.checkForAnotherFile, Progress.add, createsFile],
      by simp [ReceiverY.checkForAnotherFile, sentBytes]⟩
  | gaveUp hstop =>
    refine readsAs_stop h hk (hsilent.trans ?_)
    split_ifs
    · exact silent_cancelled x (by decide)
    · exact silent_cancelled x (by decide)

/-- The flags that `getRestBlk` leaves, and the number that a good block has. -/
theorem getRestBlk_flags (env : Receiver.Env) (r : ReceiverY) :
    ((r.getRestBlk env).goodBlk = false ∧ (r.getRestBlk env).goodBlk1st = false) ∨
      ((r.getRestBlk env).goodBlk = true ∧ (r.getRestBlk env).goodBlk1st = false ∧
        blkNumOf env.rest = r.numLastGoodBlk) ∨
      ((r.getRestBlk env).goodBlk = true ∧ (r.getRestBlk env).goodBlk1st = true ∧
        blkNumOf env.rest = r.numLastGoodBlk + 1) := by
  have hspec := getRestBlk_spec env r
  generalize r.getRestBlk env = g at hspec ⊢
  cases hspec with
  | bad _ _ _ => exact .inl ⟨rfl, rfl⟩
  | lost _ _ => exact .inl ⟨rfl, rfl⟩
  | resent _ _ hnum => exact .inr (.inl ⟨rfl, rfl, hnum⟩)
  | first _ hnum => exact .inr (.inr ⟨rfl, rfl, hnum⟩)

theorem ne_add_one (n : UInt8) : n ≠ n + 1 := by
  intro h
  have hval := congrArg UInt8.toNat h
  simp only [UInt8.toNat_add, UInt8.reduceToNat] at hval
  omega

/-- A data block that is read leaves the files as they are when it is not a new one. -/
theorem readsAs_oldBlk {k' : Nat} {good : Bool} {x : ReceiverY}
    (h : RcvAt files (.receiving i k') ⟨some leaf, back, r⟩) (hfill : Filling files i k' r)
    (hk : Kept ⟨some .condTransientData, back', x⟩) (hs : SameOutputs r x) (hg : x.goodBlk = good)
    (hsent : sentBytes x.calls = sentBytes r.calls)
    (hr : StopAndWait.Reads (.receiving i k') m [] (.pending i k' good)) :
    ReadsAs files (.receiving i k') m ⟨some leaf, back, r⟩ ⟨some .condTransientData, back', x⟩ :=
  ⟨[], _, hr, h.stay hk hs rfl (.pending (hfill.same hs) hg), by rw [List.append_nil]; exact hsent⟩

/-- A new data block. -/
theorem RcvAt.newBlk {x : ReceiverY} (h : RcvAt files (.receiving i k) ⟨some leaf, back, r⟩)
    (hfill : Filling files i k r) (hk : Kept ⟨some .condTransientData, back', x⟩)
    (hlt : k < chunksOf files i)
    (hrest : env.rest = (blkOf files i (k + 1)).tail.take (BUF_SZ - 1))
    (hout : outputs x.calls = (outputs r.calls).accept env.rest)
    (hprog : progress createsFile x.calls = progress createsFile r.calls) (hg : x.goodBlk = true) :
    RcvAt files (.pending i (k + 1) true) ⟨some .condTransientData, back', x⟩ := by
  obtain ⟨f, o, hf, hs, hle, hcur, hcopy⟩ := hfill.file
  have hchunks : chunksOf files i = f.numChunks := by rw [chunksOf, hf]; rfl
  rw [blkOf_eq hf (.inr (Nat.succ_ne_zero k)), List.take_of_length_le
    (by rw [List.length_tail, length_blk hs]; decide)] at hrest
  have hpay : payloadOf env.rest = payload f (k + 1) := by rw [hrest, payloadOf_blk hs]
  have hcur' : (outputs x.calls).current =
      some (o.push (blkNumOf env.rest) (payload f (k + 1))) := by
    rw [hout, ← hpay]
    simp [Outputs.accept, hcur]
  have hearlier : (outputs x.calls).earlier = (outputs r.calls).earlier := by rw [hout]; rfl
  have hcopied : Copied files i (created r.calls) := h.copied
  rw [created, hcur] at hcopied
  apply rcvAt_running hk
  case hh =>
    refine .pending ⟨⟨f, _, hf, hs, by omega, hcur', hcopy.push _⟩, ?_, ?_⟩ hg
    · rw [hearlier]
      exact hfill.earlier
    · rw [hprog]
      exact hfill.begun
  case hcopied =>
    show Copied files i (created x.calls)
    rw [created, hcur', hearlier]
    exact hcopied.replace (Nat.le_of_eq hfill.earlier.symm) fun g hg => hg.same rfl rfl
  case hdone =>
    show ∀ j ∈ (progress createsFile x.calls).done, j < i
    rw [hprog]
    exact h.done

/-- A data block is read. -/
theorem readsAs_dataBlk (h : RcvAt files p ⟨some leaf, back, r⟩) (hl : leaf.dataLeaf = true)
    (hk : Kept ⟨some .condTransientData, back', dataBlkRead env r⟩)
    (hrest : (r.getRestBlk env).goodBlk = false ∨ Undamaged files p m env) :
    ReadsAs files p m ⟨some leaf, back, r⟩ ⟨some .condTransientData, back', dataBlkRead env r⟩ := by
  have ht : Transferring leaf r := h.kept.transferring leaf rfl (transfers_of_dataLeaf hl)
  have hne : leaf ≠ .condTransientData := by rintro rfl; cases hl
  obtain ⟨hprog, hsent⟩ := getRestBlk_calls env r
  have hout := outputs_getRestBlk env r
  have hcalls : (dataBlkRead env r).calls = (r.getRestBlk env).calls := by rw [dataBlkRead_eq]
  have hgood : (dataBlkRead env r).goodBlk = (r.getRestBlk env).goodBlk := by rw [dataBlkRead_eq]
  rw [← hcalls] at hprog hsent hout
  cases h.active leaf rfl with
  | waiting _ _ => cases hl
  | pending _ _ => cases hl
  | done _ _ => cases hl
  | doneAgain _ _ => cases hl
  | @receiving _ i' k' _ hfill =>
    obtain ⟨f, o, hf, hs, hle, hcur, hcopy⟩ := hfill.file
    obtain ⟨-, hlast, -⟩ := file_of_transferring ht hne hcur hcopy hle
    have hnum {k : Nat} (hbytes : env.rest = (blkOf files i' k).tail.take (BUF_SZ - 1)) :
        blkNumOf env.rest = UInt8.ofNat k := by
      rw [hbytes]
      exact blkNumOf_blkOf files i' k (.inl (by rw [hf]; simp))
    rcases getRestBlk_flags env r with ⟨hg, h1st⟩ | ⟨hg, h1st, hsame⟩ | ⟨hg, h1st, hnext⟩
    · rw [if_neg (by simp [h1st])] at hout
      exact readsAs_oldBlk h hfill hk ⟨hout, hprog⟩ (hgood.trans hg) hsent .badBlk
    · rw [if_neg (by simp [h1st])] at hout
      obtain ⟨i, k, rfl, he, hbytes⟩ := hrest.resolve_left (by simp [hg])
      cases he with
      | again => exact readsAs_oldBlk h hfill hk ⟨hout, hprog⟩ (hgood.trans hg) hsent .again
      | next _ =>
        rw [hnum hbytes, hlast, ofNat_succ] at hsame
        exact absurd hsame.symm (ne_add_one _)
    · rw [if_pos h1st] at hout
      obtain ⟨i, k, rfl, he, hbytes⟩ := hrest.resolve_left (by simp [hg])
      cases he with
      | again =>
        rw [hnum hbytes, hlast] at hnext
        exact absurd hnext (ne_add_one _)
      | next hlt =>
        refine ⟨[], _, .next, h.newBlk hfill hk hlt hbytes hout hprog (hgood.trans hg), ?_⟩
        rw [List.append_nil]
        exact hsent

/-- A block is read, damaged or not. -/
theorem readsAs_blk (h : RcvAt files p v) (hw : v.WellFormed)
    (ht : Receiver.Trans env (.ser c) v v') (hc : c = SOH)
    (hrest : (v.ctx.getRestBlk env).goodBlk = false ∨ Undamaged files p m env) :
    ReadsAs files p m v v' := by
  have hk := ht.kept hw h.kept
  cases ht with
  | purged _ _ _ hsoh _ => exact absurd hc hsoh
  | purgedData => exact readsAs_purged h hk
  | @kbCancelDelayed _ _ r _ _ _ _ _ =>
    exact readsAs_stop h hk ((silent_purge r).trans (silent_cancelled r.purge (by decide)))
  | dataBlk hl _ => exact readsAs_dataBlk h hl hk hrest
  | @statBlk _ r _ _ _ hb =>
    exact readsAs_statBlk h (.inl rfl) hk (handed_statBlkRead env r) hb hrest
  | @blkWhenDone _ r _ _ _ hb =>
    exact readsAs_statBlk h (.inr rfl) hk (handed_incErrCnt env r) hb hrest
  | resumedSER _ _ => cases h.active _ rfl with | receiving hl _ => cases hl
  | interrupted _ | sndCancelled | firstEOT _ | secondEOT _ | closeError _ | excessiveEOTs _ _
  | eotAgain _ _ => exact absurd hc (by decide)

end Reads

end YModem.Session
