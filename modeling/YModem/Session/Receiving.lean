import YModem.Session.CreatedFiles

/-!
# The receiver as an end of the protocol

`RcvAt` ties a place of the abstract receiver to a configuration of the chart and to the
files that it has created. What a message or a timeout causes is one of the readings that
`StopAndWait` allows.
-/

namespace YModem.Session

open YModem.Lib YModem.Peer YModem.SmartState YModem.Sender YModem.Receiver StopAndWait

/-! ## The places of the receiver -/

/-- No file is open, and `i` files have been created. -/
structure Idle (i : Nat) (r : ReceiverY) : Prop where
  closed : r.transferringFileD = -1
  current : (outputs r.calls).current = none
  earlier : (outputs r.calls).earlier.length = i
  begun : (progress createsFile r.calls).begun = i

/-- The file number `i` is open, and `k` data blocks have been accepted for it. -/
structure Filling (files : List File) (i k : Nat) (r : ReceiverY) : Prop where
  file : ∃ f o, files[i]? = some f ∧ Sendable f ∧ k ≤ f.numChunks ∧
    (outputs r.calls).current = some o ∧ Copies f k o
  earlier : (outputs r.calls).earlier.length = i
  begun : (progress createsFile r.calls).begun = i + 1

/-- What holds of the context of a running receiver. -/
inductive RHolds (files : List File) (r : ReceiverY) : RState → RPlace → Prop where
  | waiting {i} (h : Idle i r) (hnum : r.numLastGoodBlk = 255) :
      RHolds files r .firstByteStat (.waiting i)
  | receiving {leaf i k} (hl : leaf.dataLeaf = true) (h : Filling files i k r) :
      RHolds files r leaf (.receiving i k)
  | pending {i k good} (h : Filling files i k r) (hg : r.goodBlk = good) :
      RHolds files r .condTransientData (.pending i k good)
  | done {i q} (h : Idle i r) (hnum : r.numLastGoodBlk = 0) : RHolds files r .areWeDone (.ended i q)
  | doneAgain {i} (h : Idle i r) (hnum : r.numLastGoodBlk = 0) :
      RHolds files r .firstByteStat (.ended i false)

/-- A place of a receiver that is running or has stopped there. -/
structure RcvAt (files : List File) (p : RPlace) (v : Receiver.Config) : Prop where
  kept : Kept v
  active : ∀ leaf ∈ v.leaf, RHolds files v.ctx leaf p
  named : ∀ i ∈ p.openFile, Names files i
  copied : Copied files p.completed (created v.ctx.calls)
  done : ∀ j ∈ (progress createsFile v.ctx.calls).done, j < p.completed

/-! ## Every message is read -/

section Reads

variable {files : List File} {env : Receiver.Env} {c : UInt8} {p p' : RPlace} {m : Msg}
  {i k : Nat} {good : Bool} {v v' : Receiver.Config} {leaf leaf' : RState}
  {back back' next : Option RState} {r r' : ReceiverY}

theorem Idle.same (h : Idle i r) (hs : SameOutputs r r')
    (hfd : r'.transferringFileD = r.transferringFileD) : Idle i r' :=
  ⟨hfd.trans h.closed, by rw [hs.outputs]; exact h.current, by rw [hs.outputs]; exact h.earlier,
    by rw [hs.progress]; exact h.begun⟩

theorem Filling.same (h : Filling files i k r) (hs : SameOutputs r r') : Filling files i k r' :=
  ⟨by rw [hs.outputs]; exact h.file, by rw [hs.outputs]; exact h.earlier,
    by rw [hs.progress]; exact h.begun⟩

theorem RHolds.same (h : RHolds files r leaf p) (hs : SameOutputs r r')
    (hfd : r'.transferringFileD = r.transferringFileD)
    (hnum : r'.numLastGoodBlk = r.numLastGoodBlk) (hgood : r'.goodBlk = r.goodBlk) :
    RHolds files r' leaf p := by
  cases h with
  | waiting h hn => exact .waiting (h.same hs hfd) (hnum.trans hn)
  | receiving hl h => exact .receiving hl (h.same hs)
  | pending h hg => exact .pending (h.same hs) (hgood.trans hg)
  | done h hn => exact .done (h.same hs hfd) (hnum.trans hn)
  | doneAgain h hn => exact .doneAgain (h.same hs hfd) (hnum.trans hn)

theorem Filling.named (h : Filling files i k r) : Names files i := by
  obtain ⟨f, o, hf, hs, -⟩ := h.file
  exact ⟨f, hf, hs.named⟩

theorem RHolds.named (h : RHolds files r leaf p) : ∀ i ∈ p.openFile, Names files i := by
  cases h with
  | receiving _ h | pending h _ =>
    rintro _ ⟨⟩
    exact h.named
  | _ => simp [RPlace.openFile]

theorem rcvAt_running (hk : Kept ⟨some leaf, back, r⟩) (hh : RHolds files r leaf p)
    (hcopied : Copied files p.completed (created r.calls))
    (hdone : ∀ j ∈ (progress createsFile r.calls).done, j < p.completed) :
    RcvAt files p ⟨some leaf, back, r⟩ := by
  refine ⟨hk, ?_, hh.named, hcopied, hdone⟩
  rintro _ ⟨⟩
  exact hh

/-- No file is created or finished. -/
theorem RcvAt.move (h : RcvAt files p ⟨some leaf, back, r⟩) (hk : Kept ⟨some leaf', back', r'⟩)
    (hcreated : created r'.calls = created r.calls)
    (hdone : (progress createsFile r'.calls).done = (progress createsFile r.calls).done)
    (hc : p'.completed = p.completed) (hh : RHolds files r' leaf' p') :
    RcvAt files p' ⟨some leaf', back', r'⟩ := by
  apply rcvAt_running hk hh
  · rw [hc, hcreated]
    exact h.copied
  · rw [hc, hdone]
    exact h.done

theorem RcvAt.stay (h : RcvAt files p ⟨some leaf, back, r⟩) (hk : Kept ⟨some leaf', back', r'⟩)
    (hs : SameOutputs r r') (hc : p'.completed = p.completed) (hh : RHolds files r' leaf' p') :
    RcvAt files p' ⟨some leaf', back', r'⟩ :=
  h.move hk hs.created (congrArg Progress.done hs.progress) hc hh

theorem RcvAt.stop (h : RcvAt files p ⟨some leaf, back, r⟩) (hk : Kept ⟨none, back', r'⟩)
    (hs : Silent r r') : RcvAt files p ⟨none, back', r'⟩ := by
  refine ⟨hk, by simp, h.named, ?_, ?_⟩
  · show Copied files p.completed (created r'.calls)
    rw [hs.created]
    exact h.copied
  · show ∀ j ∈ (progress createsFile r'.calls).done, j < p.completed
    rw [hs.done]
    exact h.done

/-- One of the allowed readings. -/
def ReadsAs (files : List File) (p : RPlace) (m : Msg) (v v' : Receiver.Config) : Prop :=
  ∃ out p', StopAndWait.Reads p m out p' ∧ RcvAt files p' v' ∧
    sentBytes v'.ctx.calls = sentBytes v.ctx.calls ++ out

/-- The machine stops. -/
theorem readsAs_stop (h : RcvAt files p ⟨some leaf, back, r⟩) (hk : Kept ⟨none, back', r'⟩)
    (hs : Silent r r') : ReadsAs files p m ⟨some leaf, back, r⟩ ⟨none, back', r'⟩ :=
  ⟨[], p, .ignored, h.stop hk hs, by rw [List.append_nil]; exact hs.sent⟩

/-- The message is thrown away. -/
theorem readsAs_purged (h : RcvAt files p ⟨some leaf, back, r⟩)
    (hk : Kept ⟨some leaf, back, r.purge⟩) :
    ReadsAs files p m ⟨some leaf, back, r⟩ ⟨some leaf, back, r.purge⟩ := by
  have hs : SameOutputs r r.purge := ⟨by simp, by simp [Progress.add, createsFile]⟩
  exact ⟨[], p, .ignored, h.stay hk hs rfl ((h.active leaf rfl).same hs rfl rfl rfl),
    by simp [sentBytes]⟩

/-- The file that is open when no chunk waits in `rcvBlk`. -/
theorem file_of_transferring {f : File} {o : OutFile} (ht : Transferring leaf r)
    (hne : leaf ≠ .condTransientData) (hcur : (outputs r.calls).current = some o)
    (hcopy : Copies f k o) (hk : k ≤ f.numChunks) :
    o.fd = r.transferringFileD ∧ r.numLastGoodBlk = UInt8.ofNat k ∧
      o.data = f.contents.take (CHUNK_SZ * k) := by
  obtain ⟨-, o', hcur', hf⟩ := ht
  rw [if_neg (fun h => hne h.1)] at hf
  cases hcur.symm.trans hcur'
  refine ⟨hf.fd, ?_, hcopy.data hk (Nat.le_refl k) ?_⟩
  · rw [hf.lastNum, hcopy.statNum, hcopy.length_blocks, UInt8.zero_add]
  · rw [hf.data, hcopy.length_blocks]

/-- The second EOT closes a file that is complete. -/
theorem RcvAt.secondEOT (h : RcvAt files (.receiving i (chunksOf files i)) ⟨some .eot, back, r⟩)
    (hk : Kept ⟨some .firstByteStat, back', acknowledgeEOT env (r.closeTransferredFile env)⟩)
    (hc : (r.closeTransferredFile env).closeProb = 0) :
    RcvAt files (.waiting (i + 1))
      ⟨some .firstByteStat, back', acknowledgeEOT env (r.closeTransferredFile env)⟩ := by
  have hfill : Filling files i (chunksOf files i) r := by
    cases h.active _ rfl with
    | receiving _ hfill => exact hfill
  have ht : Transferring .eot r := h.kept.transferring .eot rfl rfl
  obtain ⟨f, o, hf, hs, hle, hcur, hcopy⟩ := hfill.file
  have hchunks : chunksOf files i = f.numChunks := by rw [chunksOf, hf]; rfl
  obtain ⟨hfd, -, hdata⟩ := file_of_transferring ht (by simp) hcur hcopy hle
  rw [hchunks, take_numChunks] at hdata
  have hadd := Outputs.add_close_current hcur
  have hcreated : created r.calls = (outputs r.calls).earlier ++ [o] := by
    rw [created, hcur]
    rfl
  have hcopied : Copied files i (created r.calls) := h.copied
  have hdone := h.done
  rw [hfd] at hadd
  rw [hcreated] at hcopied
  have hspec := closeTransferredFile_spec env r
  generalize r.closeTransferredFile env = g at hspec hc hk ⊢
  cases hspec with
  | notOpen hle =>
    have := ht.isOpen
    omega
  | failed _ hne => exact absurd hc hne
  | closed hopen hzero =>
    have hout : outputs (acknowledgeEOT env { r with
        closeProb := 0, numLastGoodBlk := 255, transferringFileD := -1
        calls := r.calls ++ [.close r.transferringFileD 0] }).calls =
        ⟨(outputs r.calls).earlier ++ [o], none, none⟩ := by
      simp [acknowledgeEOT, hadd]
    have hprog : progress createsFile (acknowledgeEOT env { r with
        closeProb := 0, numLastGoodBlk := 255, transferringFileD := -1
        calls := r.calls ++ [.close r.transferringFileD 0] }).calls =
        ⟨i + 1, (progress createsFile r.calls).done ++ [i]⟩ := by
      simp [acknowledgeEOT, Progress.add, createsFile, hfill.begun]
    apply rcvAt_running hk
    case hh =>
      refine .waiting ⟨rfl, by rw [hout], ?_, by rw [hprog]⟩ rfl
      rw [hout, List.length_append, hfill.earlier]
      rfl
    case hcopied =>
      show Copied files (i + 1) (created (acknowledgeEOT env _).calls)
      rw [created, hout]
      simpa using hcopied.finish hfill.earlier hf ⟨hcopy.fileName, hdata⟩
    case hdone =>
      show ∀ j ∈ (progress createsFile (acknowledgeEOT env _).calls).done, j < i + 1
      rw [hprog]
      intro j hj
      rcases List.mem_append.mp hj with hj | hj
      · exact Nat.lt_succ_of_lt (hdone j hj)
      · rw [List.mem_singleton.mp hj]
        exact Nat.lt_succ_self i

/-- A byte other than SOH is read: an EOT, or a byte that begins no message. -/
theorem readsAs_byte (h : RcvAt files p v) (hw : v.WellFormed)
    (ht : Receiver.Trans env (.ser c) v v') (hsoh : c ≠ SOH) (hcan : c ≠ CAN)
    (heot : c = EOT → m = .eot ∧ Expects (chunksOf files) p .eot) : ReadsAs files p m v v' := by
  have hk := ht.kept hw h.kept
  cases ht with
  | purged _ _ _ _ _ => exact readsAs_purged h hk
  | purgedData => exact readsAs_purged h hk
  | @kbCancelDelayed _ _ r _ _ _ _ _ =>
    exact readsAs_stop h hk ((silent_purge r).trans (silent_cancelled r.purge (by decide)))
  | @firstEOT _ r _ =>
    have hs : SameOutputs r (countAndWait env (r.purge.peer (·.sendByte NAK))) :=
      ⟨by simp [countAndWait], by simp [countAndWait, Progress.add, createsFile]⟩
    obtain ⟨rfl, -⟩ := heot rfl
    cases h.active _ rfl with
    | receiving _ hfill =>
      exact ⟨[NAK], _, .firstEot, h.stay hk hs rfl (.receiving rfl (hfill.same hs)),
        by simp [countAndWait, sentBytes]⟩
  | @secondEOT _ r hclose =>
    obtain ⟨rfl, he⟩ := heot rfl
    have hsent := (silent_closeTransferredFile env r).sent
    cases h.active _ rfl with
    | receiving _ hfill =>
      cases he with
      | eot =>
        refine ⟨[ACK, NCG], _, .secondEot, h.secondEOT hk hclose, ?_⟩
        rw [← hsent]
        simp [acknowledgeEOT, sentBytes]
  | @closeError _ r hclose =>
    exact readsAs_stop h hk
      ((silent_closeTransferredFile env r).trans (silent_cancelled _ (by decide)))
  | @excessiveEOTs _ r _ _ => exact readsAs_stop h hk (silent_cancelled r (by decide))
  | @eotAgain _ r _ _ =>
    have hs : SameOutputs r (countAndWait env ((r.peer (·.sendByte ACK)).peer (·.sendByte NCG))) :=
      ⟨by simp [countAndWait], by simp [countAndWait, Progress.add, createsFile]⟩
    obtain ⟨rfl, he⟩ := heot rfl
    cases h.active _ rfl with
    | waiting hidle hnum =>
      exact ⟨[ACK, NCG], _, .eotAgain, h.stay hk hs rfl (.waiting (hidle.same hs rfl) hnum),
        by simp [countAndWait, sentBytes]⟩
    | receiving hl _ => cases hl
    | doneAgain _ _ => cases he
  | resumedSER _ _ => cases h.active _ rfl with | receiving hl _ => cases hl
  | interrupted _ | sndCancelled => exact absurd rfl hcan
  | dataBlk _ _ | statBlk _ _ | blkWhenDone _ _ => exact absurd rfl hsoh

/-! ## Timeouts -/

/-- What the answer to a data block adds to the calls. -/
theorem answerDataBlk_calls {f : File} {o : OutFile} (env : Receiver.Env)
    (hcur : (outputs r.calls).current = some o) (hcopy : Copies f k o) :
    (∃ o', (outputs (answerDataBlk env r).calls).current = some o' ∧ Copies f k o') ∧
      (outputs (answerDataBlk env r).calls).earlier = (outputs r.calls).earlier ∧
      progress createsFile (answerDataBlk env r).calls = progress createsFile r.calls ∧
      sentBytes (answerDataBlk env r).calls = sentBytes r.calls ++
        if r.goodBlk then (if r.anotherFile ≠ 0 then [ACK, NCG] else [ACK]) else [NAK] := by
  refine ⟨?_, ?_, ?_, ?_⟩
  · rw [outputs_answerDataBlk]
    split_ifs
    · by_cases hfd : o.fd = r.transferringFileD
      · exact ⟨o.extend (r.rcvBlk.chunk (min CHUNK_SZ r.bytesRemaining.toNat)),
          by simp [Outputs.add, hcur, hfd], hcopy.extend _⟩
      · exact ⟨o, by simp [Outputs.add, hcur, hfd], hcopy⟩
    · exact ⟨o, hcur, hcopy⟩
  · rw [outputs_answerDataBlk]
    split_ifs <;> rfl
  · rw [answerDataBlk_eq]
    split_ifs <;> simp [Progress.add, createsFile]
  · rw [answerDataBlk_eq]
    split_ifs <;> simp [sentBytes]

/-- The block that has been read is answered, and written when it is new. -/
theorem RcvAt.answered (h : RcvAt files (.pending i k good) ⟨some .condTransientData, back, r⟩)
    (hfill : Filling files i k r) (hk : Kept ⟨some .firstByteData, back', answerDataBlk env r⟩) :
    RcvAt files (.receiving i k) ⟨some .firstByteData, back', answerDataBlk env r⟩ := by
  have ht : Transferring .firstByteData (answerDataBlk env r) := hk.transferring _ rfl rfl
  obtain ⟨f, o, hf, hs, hle, hcur, hcopy⟩ := hfill.file
  obtain ⟨⟨o', hcur', hcopy'⟩, hearlier, hprog, -⟩ := answerDataBlk_calls env hcur hcopy
  obtain ⟨-, -, hdata⟩ := file_of_transferring ht (by simp) hcur' hcopy' hle
  have hcopied : Copied files i (created r.calls) := h.copied
  rw [created, hcur] at hcopied
  apply rcvAt_running hk
  case hh =>
    refine .receiving rfl ⟨⟨f, o', hf, hs, hle, hcur', hcopy'⟩, ?_, ?_⟩
    · rw [hearlier]
      exact hfill.earlier
    · rw [hprog]
      exact hfill.begun
  case hcopied =>
    show Copied files i (created (answerDataBlk env r).calls)
    rw [created, hcur', hearlier]
    refine (hcopied.init (Nat.le_of_eq hfill.earlier.symm)).concat (f := f) ?_ ⟨hcopy'.fileName, ?_⟩
    · rw [hfill.earlier]
      exact hf
    · rw [hdata]
      exact List.take_prefix _ _
  case hdone =>
    show ∀ j ∈ (progress createsFile (answerDataBlk env r).calls).done, j < i
    rw [hprog]
    exact h.done

/-- A timeout is one that `StopAndWait` allows, or stops the machine. -/
def TimesOutAs (files : List File) (p : RPlace) (v v' : Receiver.Config) : Prop :=
  (RcvAt files p v' ∧ sentBytes v'.ctx.calls = sentBytes v.ctx.calls) ∨
    ∃ out p', StopAndWait.TimesOut p out p' ∧ RcvAt files p' v' ∧
      sentBytes v'.ctx.calls = sentBytes v.ctx.calls ++ out

theorem timesOutAs_stop (h : RcvAt files p ⟨some leaf, back, r⟩) (hk : Kept ⟨none, back', r'⟩)
    (hs : Silent r r') : TimesOutAs files p ⟨some leaf, back, r⟩ ⟨none, back', r'⟩ :=
  .inl ⟨h.stop hk hs, hs.sent⟩

/-- The receiver asks again for what it waits for. -/
theorem timesOutAs_retry (h : RcvAt files p ⟨some leaf, back, r⟩)
    (hk : Kept ⟨some leaf, back, countAndWait env
      (if r.transferringFileD = -1 then r.peer (·.sendByte NCG) else r.peer (·.sendByte NAK))⟩)
    (hl : leaf = .firstByteStat ∨ leaf.dataLeaf = true) :
    TimesOutAs files p ⟨some leaf, back, r⟩ ⟨some leaf, back, countAndWait env
      (if r.transferringFileD = -1 then r.peer (·.sendByte NCG) else r.peer (·.sendByte NAK))⟩ := by
  have hs : SameOutputs r (countAndWait env
      (if r.transferringFileD = -1 then r.peer (·.sendByte NCG) else r.peer (·.sendByte NAK))) := by
    constructor
    · split_ifs <;> simp [countAndWait]
    · split_ifs <;> simp [countAndWait, Progress.add, createsFile]
  have hh := h.active leaf rfl
  have hmove := h.stay hk hs rfl (hh.same hs (by split_ifs <;> rfl) (by split_ifs <;> rfl)
    (by split_ifs <;> rfl))
  have hsent : sentBytes (countAndWait env (if r.transferringFileD = -1 then
      r.peer (·.sendByte NCG) else r.peer (·.sendByte NAK))).calls =
      sentBytes r.calls ++ [if r.transferringFileD = -1 then NCG else NAK] := by
    split_ifs <;> simp [countAndWait, sentBytes]
  refine .inr ⟨_, p, ?_, hmove, hsent⟩
  cases hh with
  | waiting hidle _ =>
    rw [if_pos hidle.closed]
    exact .stat
  | receiving hd _ =>
    have hopen := (h.kept.transferring leaf rfl (transfers_of_dataLeaf hd)).isOpen
    rw [if_neg (by show r.transferringFileD ≠ -1; have : -1 < r.transferringFileD := hopen; omega)]
    exact .data
  | doneAgain hidle _ =>
    rw [if_pos hidle.closed]
    exact .done
  | pending _ _ => rcases hl with hl | hl <;> cases hl
  | done _ _ => rcases hl with hl | hl <;> cases hl

theorem RcvAt.timesOut (h : RcvAt files p v) (hw : v.WellFormed)
    (ht : Receiver.Trans env .tm v v') : TimesOutAs files p v v' := by
  have hk := ht.kept hw h.kept
  cases ht with
  | retry hl herr hkb => exact timesOutAs_retry h hk hl
  | @gaveUp _ _ r hl hstop =>
    apply timesOutAs_stop h hk
    split_ifs
    · exact silent_cancelled r (by decide)
    · exact silent_cancelled r (by decide)
  | @answered _ r hs herr =>
    cases h.active _ rfl with
    | receiving hl _ => cases hl
    | @pending i k good hfill hg =>
      obtain ⟨f, o, -, -, -, hcur, hcopy⟩ := hfill.file
      obtain ⟨-, -, -, hsent⟩ := answerDataBlk_calls env hcur hcopy
      refine .inr ⟨_, _, ?_, h.answered hfill hk, hsent⟩
      replace hg : r.goodBlk = good := hg
      cases good with
      | false =>
        rw [if_neg (by simp [hg])]
        exact .bad
      | true =>
        rw [if_pos hg]
        apply StopAndWait.TimesOut.good
        split_ifs
        · exact .inr rfl
        · exact .inl rfl
  | @abandoned _ r hstop =>
    refine timesOutAs_stop h hk
      ((silent_cans r).trans ((silent_closeTransferredFile env r.cans).trans ?_))
    split_ifs
    · exact silent_result _ (by decide)
    · exact silent_result _ (by decide)
  | @endOfSession _ r => exact timesOutAs_stop h hk (silent_result r (by decide))
  | resumedTM hkb => cases h.active _ rfl with | receiving hl _ => cases hl

end Reads

/-- A receiver that has just been started waits for the first stat block, and has sent a 'C'. -/
theorem rcvAt_started {m : Receiver.Machine} (h : Receiver.Started m) (files : List File) :
    RcvAt files (.waiting 0) (Receiver.configOf m) ∧ sentBytes m.ctx.calls = [NCG] := by
  obtain ⟨env, rcvBlk, hc⟩ := h.config
  have hctx : m.ctx = startedCtx env rcvBlk := congrArg Receiver.Config.ctx hc
  rw [hc, hctx]
  refine ⟨rcvAt_running (kept_started env rcvBlk) (.waiting ⟨rfl, rfl, rfl, rfl⟩ rfl) ⟨?_, ?_⟩ ?_, rfl⟩
  · intro j o hj
    cases hj
  · intro j hj
    exact absurd hj (Nat.not_lt_zero j)
  · intro j hj
    cases hj

end YModem.Session
