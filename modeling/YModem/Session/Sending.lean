import YModem.Session.RoundTrip
import YModem.Session.StopAndWait

/-!
# The sender as an end of the protocol

`SndAt` ties a place of the abstract sender to a configuration of the chart, running or
stopped. Every transition that a response or a timeout causes is one of the answers that
`StopAndWait` allows.
-/

namespace YModem.Session

open YModem.Lib YModem.Peer YModem.SmartState YModem.Sender StopAndWait

/-! ## The messages of a batch -/

/-- The block `k` of the file number `i`. Behind the last file comes the empty stat block,
which is also what an empty path leads to. -/
def blkOf (files : List File) (i k : Nat) : List UInt8 :=
  match files[i]? with
  | some f => if f.name = [] ∧ k = 0 then lastStatBlk else f.blk k
  | none => lastStatBlk

def itemOfMsg (files : List File) : Msg → Item
  | .blk i k => .blk (blkOf files i k)
  | .eot => .eot

def chunksOf (files : List File) (i : Nat) : Nat := files[i]?.elim 0 File.numChunks

/-- The stat block number `i` names a file. -/
def Names (files : List File) (i : Nat) : Prop := ∃ f, files[i]? = some f ∧ filename f.name ≠ []

/-! ## What the calls tell about the files that are done -/

/-- The number of the files begun, and the numbers of those for which "Done, " has been
appended. -/
structure Progress where
  begun : Nat
  done : List Nat

def Progress.add (begins : Call → Bool) (p : Progress) (call : Call) : Progress :=
  if begins call then { p with begun := p.begun + 1 }
  else if call = .result "Done, " then { p with done := p.done ++ [p.begun - 1] }
  else p

def progress (begins : Call → Bool) (calls : List Call) : Progress :=
  calls.foldl (Progress.add begins) ⟨0, []⟩

@[simp] theorem progress_append (begins : Call → Bool) (calls new : List Call) :
    progress begins (calls ++ new) = new.foldl (Progress.add begins) (progress begins calls) :=
  List.foldl_append

/-- The sender begins a file when it opens it. -/
def opensFile : Call → Bool
  | .openFile _ _ _ => true
  | _ => false

/-! ## The places of the sender -/

/-- What holds of the context of a running sender. -/
inductive Holds (files : List File) (s : SenderY) : SState → SPlace → Prop where
  | unopened {i} (hfd : s.transferringFileD = -1) : Holds files s .statC (.statC i)
  | prepared {i f} (hf : files[i]? = some f) (hne : f.name ≠ []) (h : Prepared f s) :
      Holds files s .statC (.statC i)
  | nameless {i} (hi : ∀ f ∈ files[i]?, f.name = []) (h : s.current = lastStatBlk) :
      Holds files s .statC (.statC i)
  | statSent {i f} (hf : files[i]? = some f) (hne : f.name ≠ []) (h : Reading f 0 s) :
      Holds files s .acknakstat (.answer i 0)
  | namelessSent {i} (hi : ∀ f ∈ files[i]?, f.name = [])
      (h : (s.blkBufs (bufOf (s.blkNum - 1))).val = lastStatBlk) :
      Holds files s .acknakstat (.answer i 0)
  | one {i} (h : Names files i → ∃ f, files[i]? = some f ∧ f.name ≠ [] ∧ Reading f 0 s) :
      Holds files s .one (.one i)
  | blkSent {i k f} (hf : files[i]? = some f) (hk : k < f.numChunks) (h : Reading f (k + 1) s) :
      Holds files s .acknak (.answer i (k + 1))
  | eot1 {i} (hi : i < files.length) : Holds files s .eot1 (.eot i false)
  | eoteot {i} (hi : i < files.length) : Holds files s .eoteot (.eot i true)

/-- The batch, with the file number `i` begun unless it is behind the last one. -/
structure Batch (files : List File) (i : Nat) (s : SenderY) : Prop where
  fileNames : s.fileNames = files
  index : i < files.length → s.fileNameIndex = i + 1
  begun : i < files.length → (progress opensFile s.calls).begun = i + 1

structure SndAt (files : List File) (p : SPlace) (v : Sender.Config) : Prop where
  active : ∀ leaf ∈ v.leaf, Holds files v.ctx leaf p ∧ Batch files p.file v.ctx
  done : ∀ j ∈ (progress opensFile v.ctx.calls).done, j < p.file

section Frames

variable {files : List File} {s s' : SenderY} {leaf : SState} {p : SPlace}

theorem Holds.frame (h : Holds files s leaf p) (hs : Sender.SameFile s s') :
    Holds files s' leaf p := by
  cases h with
  | unopened hfd =>
    obtain ⟨q, b, rfl, hq⟩ := hs
    exact .unopened (hq.trans hfd)
  | prepared hf hne h =>
    obtain ⟨q, b, rfl, -⟩ := hs
    exact .prepared hf hne ⟨h.fileName, h.blkNum, h.unread, h.stat⟩
  | nameless hi h =>
    obtain ⟨q, b, rfl, -⟩ := hs
    exact .nameless hi h
  | statSent hf hne h => exact .statSent hf hne (h.frame hs)
  | namelessSent hi h =>
    obtain ⟨q, b, rfl, -⟩ := hs
    exact .namelessSent hi h
  | one h =>
    refine .one fun hn => ?_
    obtain ⟨f, hf, hne, hr⟩ := h hn
    exact ⟨f, hf, hne, hr.frame hs⟩
  | blkSent hf hk h => exact .blkSent hf hk (h.frame hs)
  | eot1 hi => exact .eot1 hi
  | eoteot hi => exact .eoteot hi

theorem Batch.congr {i : Nat} (h : Batch files i s) (hnames : s'.fileNames = s.fileNames)
    (hindex : s'.fileNameIndex = s.fileNameIndex)
    (hprog : progress opensFile s'.calls = progress opensFile s.calls) : Batch files i s' :=
  ⟨hnames.trans h.fileNames, by rw [hindex]; exact h.index, by rw [hprog]; exact h.begun⟩

/-- The block sent first is the one that is sent again. -/
theorem previous_of_nextSent (h : NextSent s s') :
    (s'.blkBufs (bufOf (s'.blkNum - 1))).val = s.current := by
  cases h with
  | noFile _ =>
    show (s.blkBufs (bufOf (s.blkNum + 1 - 1))).val = _
    rw [UInt8.add_sub_cancel]
    rfl
  | readAhead blk _ _ _ =>
    show (Function.update s.blkBufs (bufOf (s.blkNum + 1)) blk (bufOf (s.blkNum + 1 - 1))).val = _
    rw [UInt8.add_sub_cancel, Function.update_of_ne (bufOf_add_one _).symm]
    rfl

theorem progress_nextSent (h : NextSent s s') :
    progress opensFile s'.calls = progress opensFile s.calls := by
  rw [nextSent_calls h]
  simp [Progress.add, opensFile]

theorem progress_close {env : Sender.Env} (h : s.closeTransferredFile env = .ok s') :
    progress opensFile s'.calls = progress opensFile s.calls := by
  rcases SenderY.closeTransferredFile_spec.mp h with ⟨-, rfl⟩ | ⟨-, -, rfl⟩
  · rfl
  · simp [Progress.add, opensFile]

theorem progress_cancel {env : Sender.Env} {text : String} (ht : text ≠ "Done, ")
    (h : cancel env text s = .ok s') :
    progress opensFile s'.calls = progress opensFile s.calls := by
  obtain ⟨t, hclose, h⟩ := bind_inv h
  cases h
  simpa [Progress.add, opensFile, ht] using progress_close hclose

end Frames

/-! ## Every response is answered -/

section Answers

variable {files : List File} {env : Sender.Env} {c : UInt8} {p p' : SPlace} {v v' : Sender.Config}
  {leaf leaf' : SState} {back back' : Option SState} {s s' t : SenderY}

/-- One of the allowed answers. -/
def AnswersAs (files : List File) (p : SPlace) (c : UInt8) (v v' : Sender.Config) : Prop :=
  ∃ msgs p', StopAndWait.Answers (chunksOf files) p c msgs p' ∧ SndAt files p' v' ∧
    itemsSent v'.ctx.calls = itemsSent v.ctx.calls ++ msgs.map (itemOfMsg files)

/-- The machine goes to a place of the same file. -/
theorem SndAt.move (h : SndAt files p ⟨some leaf, back, s⟩) (hh : Holds files s' leaf' p')
    (hfile : p'.file = p.file) (hnames : s'.fileNames = s.fileNames)
    (hindex : s'.fileNameIndex = s.fileNameIndex)
    (hprog : progress opensFile s'.calls = progress opensFile s.calls) :
    SndAt files p' ⟨some leaf', back', s'⟩ := by
  constructor
  · rintro _ ⟨⟩
    refine ⟨hh, ?_⟩
    rw [hfile]
    exact (h.active leaf rfl).2.congr hnames hindex hprog
  · show ∀ j ∈ (progress opensFile s'.calls).done, j < p'.file
    rw [hfile, hprog]
    exact h.done

theorem SndAt.stop (h : SndAt files p ⟨some leaf, back, s⟩)
    (hprog : progress opensFile s'.calls = progress opensFile s.calls) :
    SndAt files p ⟨none, back', s'⟩ := by
  refine ⟨by simp, ?_⟩
  show ∀ j ∈ (progress opensFile s'.calls).done, j < p.file
  rw [hprog]
  exact h.done

/-- The machine stops. -/
theorem answersAs_stop (h : SndAt files p ⟨some leaf, back, s⟩)
    (hitems : transmissions s'.calls = transmissions s.calls)
    (hprog : progress opensFile s'.calls = progress opensFile s.calls) :
    AnswersAs files p c ⟨some leaf, back, s⟩ ⟨none, back', s'⟩ := by
  refine ⟨[], p, .quiet, h.stop hprog, ?_⟩
  simp [itemsSent, hitems]

theorem blkOf_eq {f : File} {i k : Nat} (hf : files[i]? = some f) (h : f.name ≠ [] ∨ k ≠ 0) :
    blkOf files i k = f.blk k := by
  simp only [blkOf, hf]
  apply if_neg
  rintro ⟨hn, hk⟩
  rcases h with h | h <;> contradiction

theorem blkOf_nameless {i : Nat} (hi : ∀ f ∈ files[i]?, f.name = []) :
    blkOf files i 0 = lastStatBlk := by
  cases hf : files[i]? with
  | none => simp only [blkOf, hf]
  | some f => simp only [blkOf, hf, hi f hf, and_self, if_true]

theorem name_ne_nil_of_filename {f : File} (h : filename f.name ≠ []) : f.name ≠ [] := by
  intro hn
  rw [hn] at h
  exact h rfl

/-- A block is sent for the first time. -/
theorem answersAs_sent {i k : Nat} (h : SndAt files p ⟨some leaf, back, s⟩)
    (ha : StopAndWait.Answers (chunksOf files) p c [.blk i k] (.answer i k)) (hfile : i = p.file)
    (hb : s.current = blkOf files i k) (hs : s.sendBlkPrepNext = .ok s')
    (ht : Sender.SameFile s' t) (hcalls : t.calls = s'.calls)
    (hh : Holds files s' leaf' (.answer i k)) :
    AnswersAs files p c ⟨some leaf, back, s⟩ ⟨some leaf', back, t⟩ := by
  have hn := SenderY.nextSent hs
  have hbatch : t.fileNames = s.fileNames ∧ t.fileNameIndex = s.fileNameIndex := by
    obtain ⟨q, b, rfl, -⟩ := ht
    cases hn <;> exact ⟨rfl, rfl⟩
  refine ⟨_, _, ha, h.move (hh.frame ht) hfile hbatch.1 hbatch.2 ?_, ?_⟩
  · rw [hcalls, progress_nextSent hn]
  · show itemsSent t.calls = itemsSent s.calls ++ [.blk (blkOf files i k)]
    rw [hcalls, nextSent_items hn, hb]

/-- The block sent last is sent again. -/
theorem answersAs_resent {i k : Nat} (h : SndAt files p ⟨some leaf, back, s⟩)
    (ha : StopAndWait.Answers (chunksOf files) p c [.blk i k] (.answer i k)) (hfile : i = p.file)
    (hb : (s.blkBufs (bufOf (s.blkNum - 1))).val = blkOf files i k)
    (hh : Holds files s leaf' (.answer i k)) :
    AnswersAs files p c ⟨some leaf, back, s⟩
      ⟨some leaf', back, wait env (s.resendBlk.peer (·.incErrCnt))⟩ := by
  refine ⟨_, _, ha, h.move (hh.frame ⟨_, _, rfl, rfl⟩) hfile rfl rfl ?_, ?_⟩
  · simp [Progress.add, opensFile, wait]
  · show itemsSent (s.calls ++ [.sendBlk false _]) = itemsSent s.calls ++ [.blk (blkOf files i k)]
    rw [itemsSent_append, hb]
    rfl

/-- An EOT is sent. -/
theorem answersAs_eot {i : Nat} {naked : Bool} (h : SndAt files p ⟨some leaf, back, s⟩)
    (ha : StopAndWait.Answers (chunksOf files) p c [.eot] (.eot i naked)) (hfile : i = p.file)
    (hh : Holds files t leaf' (.eot i naked)) (hnames : t.fileNames = s.fileNames)
    (hindex : t.fileNameIndex = s.fileNameIndex)
    (hcalls : itemsSent t.calls = itemsSent s.calls ++ [.eot])
    (hprog : progress opensFile t.calls = progress opensFile s.calls) :
    AnswersAs files p c ⟨some leaf, back, s⟩ ⟨some leaf', back, t⟩ :=
  ⟨_, _, ha, h.move hh hfile hnames hindex hprog, hcalls⟩

/-- An EOT is sent once more. -/
theorem answersAs_eotAgain {i : Nat} {naked naked' : Bool}
    (h : SndAt files (.eot i naked) ⟨some leaf, back, s⟩) (hc : c ≠ ACK)
    (ht : Sender.SameFile s t) (hcalls : t.calls = s.calls ++ [.sendByte EOT])
    (hh : Holds files t leaf' (.eot i naked')) :
    AnswersAs files (.eot i naked) c ⟨some leaf, back, s⟩ ⟨some leaf', back, t⟩ := by
  have hbatch : t.fileNames = s.fileNames ∧ t.fileNameIndex = s.fileNameIndex := by
    obtain ⟨q, b, rfl, -⟩ := ht
    exact ⟨rfl, rfl⟩
  apply answersAs_eot h (.eotAgain hc) rfl hh hbatch.1 hbatch.2
  · rw [hcalls, itemsSent_append]
    rfl
  · rw [hcalls]
    simp [Progress.add, opensFile]

/-- The file is closed after its EOT has been sent. -/
theorem answersAs_lastBlk {i : Nat} (h : SndAt files p ⟨some leaf, back, s⟩)
    (ha : StopAndWait.Answers (chunksOf files) p c [.eot] (.eot i false)) (hfile : i = p.file)
    (hi : i < files.length) (hs : t.closeTransferredFile env = .ok s')
    (ht : Sender.SameFile s t) (hcalls : t.calls = s.calls ++ [.sendByte EOT])
    {u : SenderY} (hu : Sender.SameFile s' u) (hucalls : u.calls = s'.calls) :
    AnswersAs files p c ⟨some leaf, back, s⟩ ⟨some .eot1, back, u⟩ := by
  have hbatch : u.fileNames = s.fileNames ∧ u.fileNameIndex = s.fileNameIndex := by
    obtain ⟨q, b, rfl, -⟩ := ht
    obtain ⟨q', b', rfl, -⟩ := hu
    rcases SenderY.closeTransferredFile_spec.mp hs with ⟨-, rfl⟩ | ⟨-, -, rfl⟩ <;> exact ⟨rfl, rfl⟩
  apply answersAs_eot h ha hfile (.eot1 hi) hbatch.1 hbatch.2
  · have hclosed : itemsSent s'.calls = itemsSent t.calls :=
      congrArg (List.map itemOf) (close_transmissions hs)
    rw [hucalls, hclosed, hcalls, itemsSent_append]
    rfl
  · rw [hucalls, progress_close hs, hcalls]
    simp [Progress.add, opensFile]

/-- What `prepStatBlk` leaves when it is the turn of the file number `i`. -/
theorem holds_statC {i : Nat} (hnames : t.fileNames = files) (hindex : t.fileNameIndex = i)
    (hbegun : i < files.length → (progress opensFile t.calls).begun = i)
    (h : StatPrepared env t s') :
    Holds files s' .statC (.statC i) ∧ Batch files i s' ∧
      (progress opensFile s'.calls).done = (progress opensFile t.calls).done := by
  have hprep := h
  cases h with
  | openError file hfile hfd =>
    refine ⟨.unopened rfl, ⟨hnames, fun _ => congrArg (· + 1) hindex, fun hi => ?_⟩, ?_⟩
    · simp [Progress.add, opensFile, hbegun hi]
    · simp [Progress.add, opensFile]
  | opened file blk hfile hfd hblk =>
    have hget : files[i]? = some file := by rw [← hindex, ← hnames, hfile]
    refine ⟨?_, ⟨hnames, fun _ => congrArg (· + 1) hindex, fun hi => ?_⟩, ?_⟩
    · by_cases hne : file.name = []
      · refine .nameless (fun f hf => ?_) ?_
        · cases hget.symm.trans hf
          exact hne
        · obtain ⟨b, hb, hv⟩ := (t.blkBufs 0).genStatBlk_empty file.contents.length
          rw [hne, hb] at hblk
          cases hblk
          show (Function.update t.blkBufs 0 _ (bufOf 0)).val = _
          rw [show bufOf 0 = 0 from rfl, Function.update_self]
          exact hv
      · exact .prepared hget hne (prepared_of_statPrepared hfile hne hfd hprep)
    · simp [Progress.add, opensFile, hbegun hi]
    · simp [Progress.add, opensFile]
  | noMore blk hfile hblk =>
    have hget : files[i]? = none := by rw [← hindex, ← hnames, hfile]
    have hout : ¬ i < files.length := Nat.not_lt.mpr (List.getElem?_eq_none_iff.mp hget)
    refine ⟨.nameless (by simp [hget]) (lastPrepared_of_statPrepared hfile hprep).current,
      ⟨hnames, fun hi => absurd hi hout, fun hi => absurd hi hout⟩, rfl⟩

/-- The next stat block is prepared. -/
theorem answersAs_next {i : Nat} {naked : Bool}
    (h : SndAt files (.eot i naked) ⟨some leaf, back, s⟩) (hi : i < files.length)
    (hs : t.prepStatBlk env = .ok s') (hnames : t.fileNames = s.fileNames)
    (hindex : t.fileNameIndex = s.fileNameIndex)
    (hitems : transmissions t.calls = transmissions s.calls)
    (hbegun : (progress opensFile t.calls).begun = (progress opensFile s.calls).begun)
    (hdone : ∀ j ∈ (progress opensFile t.calls).done, j < i + 1) :
    AnswersAs files (.eot i naked) ACK ⟨some leaf, back, s⟩ ⟨some .statC, back, wait env s'⟩ := by
  obtain ⟨-, hb⟩ := h.active leaf rfl
  have hp := SenderY.statPrepared hs
  obtain ⟨hh, hb', hd⟩ := holds_statC (hnames.trans hb.fileNames) (hindex.trans (hb.index hi))
    (fun _ => hbegun.trans (hb.begun hi)) hp
  refine ⟨[], .statC (i + 1), .eotAcked, ⟨?_, ?_⟩, ?_⟩
  · rintro _ ⟨⟩
    exact ⟨hh.frame ⟨_, _, rfl, rfl⟩, hb'.congr rfl rfl rfl⟩
  · show ∀ j ∈ (progress opensFile s'.calls).done, j < i + 1
    rw [hd]
    exact hdone
  · show itemsSent s'.calls = itemsSent s.calls ++ []
    rw [itemsSent, statPrepared_transmissions hp, hitems, List.append_nil]
    rfl

theorem SndAt.answers (h : SndAt files p v) (ht : Sender.Trans env (.ser c) v v') (hcan : c ≠ CAN)
    (hone : ∀ i, p = .one i → Names files i) : AnswersAs files p c v v' := by
  cases ht with
  | ignored _ => exact ⟨[], p, .quiet, h, by simp⟩
  | openError hf hfd =>
    exact answersAs_stop h (by simp [transmissions, transmits]) (by simp [Progress.add, opensFile])
  | statSent hfd hs =>
    obtain ⟨hh, -⟩ := h.active _ rfl
    cases hh with
    | unopened hclosed => exact absurd hclosed hfd
    | prepared hf hne hp =>
      exact answersAs_sent h .stat rfl (hp.current.trans (blkOf_eq hf (.inl hne)).symm) hs
        ⟨_, _, rfl, rfl⟩ rfl (.statSent hf hne (hp.sendBlkPrepNext hs))
    | nameless hi hb =>
      exact answersAs_sent h .stat rfl (hb.trans (blkOf_nameless hi).symm) hs ⟨_, _, rfl, rfl⟩ rfl
        (.namelessSent hi ((previous_of_nextSent (SenderY.nextSent hs)).trans hb))
  | @statAcked _ s hf hk =>
    obtain ⟨hh, -⟩ := h.active _ rfl
    cases hh with
    | @statSent i f hf hne hr =>
      have hone : Holds files (wait env { s with firstBlk := true }) .one (.one i) :=
        .one fun _ => ⟨f, hf, hne, hr.frame ⟨_, _, rfl, rfl⟩⟩
      exact ⟨[], _, .statAcked, h.move hone rfl rfl rfl (by simp [wait]), by simp [wait]⟩
    | namelessSent hi hb =>
      refine ⟨[], _, .statAcked, h.move (.one fun hn => ?_) rfl rfl rfl ?_, ?_⟩
      · obtain ⟨f, hf, hne⟩ := hn
        exact absurd (hi f hf) (name_ne_nil_of_filename hne)
      · simp [wait]
      · simp [wait]
  | statResent hc hk =>
    obtain ⟨hh, -⟩ := h.active _ rfl
    cases hh with
    | statSent hf hne hr =>
      exact answersAs_resent h (.resent (by rcases hc with rfl | rfl <;> decide)) rfl
        (hr.previous.trans (blkOf_eq hf (.inl hne)).symm) (.statSent hf hne hr)
    | namelessSent hi hb =>
      exact answersAs_resent h (.resent (by rcases hc with rfl | rfl <;> decide)) rfl
        (hb.trans (blkOf_nameless hi).symm) (.namelessSent hi hb)
  | endOfSession hf =>
    exact answersAs_stop h (by simp [transmissions, transmits]) (by simp [Progress.add, opensFile])
  | noBlk hb hk hs =>
    obtain ⟨hh, -⟩ := h.active _ rfl
    cases hh with
    | @one i hr =>
      obtain ⟨f, hf, hne, hr⟩ := hr (hone i rfl)
      have hchunks : chunksOf files i = 0 := by
        rw [chunksOf, hf]
        exact Nat.le_zero.mp (hr.bytesRd_eq_zero_iff.mp hb)
      exact answersAs_lastBlk h (.noBlk hchunks) rfl (List.getElem?_eq_some_iff.mp hf).1 hs
        ⟨_, _, rfl, rfl⟩ rfl ⟨_, _, rfl, rfl⟩ rfl
  | firstBlkSent hb hk hs =>
    obtain ⟨hh, -⟩ := h.active _ rfl
    cases hh with
    | @one i hr =>
      obtain ⟨f, hf, hne, hr⟩ := hr (hone i rfl)
      have hlt : 0 < f.numChunks := Nat.lt_of_not_le (mt hr.bytesRd_eq_zero_iff.mpr hb)
      have hchunks : 0 < chunksOf files i := by
        rw [chunksOf, hf]
        exact hlt
      exact answersAs_sent h (.firstBlk hchunks) rfl
        ((hr.current hlt).trans (blkOf_eq hf (.inl hne)).symm) hs ⟨_, _, rfl, rfl⟩ rfl
        (.blkSent hf hlt (hr.sendBlkPrepNext hlt hs))
  | statNaked hk =>
    obtain ⟨hh, -⟩ := h.active _ rfl
    cases hh with
    | @one i hr =>
      obtain ⟨f, hf, hne, hr⟩ := hr (hone i rfl)
      exact answersAs_resent h .statAgain rfl (hr.previous.trans (blkOf_eq hf (.inl hne)).symm)
        (.statSent hf hne hr)
  | blkResent hc he hk =>
    obtain ⟨hh, -⟩ := h.active _ rfl
    cases hh with
    | blkSent hf hlt hr =>
      exact answersAs_resent h (.resent (by rcases hc with rfl | ⟨rfl, -⟩ <;> decide)) rfl
        (hr.previous.trans (blkOf_eq hf (.inr (Nat.succ_ne_zero _))).symm) (.blkSent hf hlt hr)
  | lastBlkAcked hb hk hs =>
    obtain ⟨hh, -⟩ := h.active _ rfl
    cases hh with
    | @blkSent i k f hf hlt hr =>
      have hchunks : chunksOf files i = k + 1 := by
        rw [chunksOf, hf]
        exact Nat.le_antisymm (hr.bytesRd_eq_zero_iff.mp hb) hlt
      exact answersAs_lastBlk h (.lastBlk hchunks) rfl (List.getElem?_eq_some_iff.mp hf).1 hs
        ⟨_, _, rfl, rfl⟩ rfl ⟨_, _, rfl, rfl⟩ rfl
  | blkAcked hb hk hs =>
    obtain ⟨hh, -⟩ := h.active _ rfl
    cases hh with
    | @blkSent i k f hf hlt hr =>
      have hnext : k + 1 < f.numChunks := Nat.lt_of_not_le (mt hr.bytesRd_eq_zero_iff.mpr hb)
      have hchunks : k + 1 < chunksOf files i := by
        rw [chunksOf, hf]
        exact hnext
      exact answersAs_sent h (.nextBlk hchunks) rfl
        ((hr.current hnext).trans (blkOf_eq hf (.inr (Nat.succ_ne_zero _))).symm) hs
        ⟨_, _, rfl, rfl⟩ rfl (.blkSent hf hnext (hr.sendBlkPrepNext hnext hs))
  | eotResent hf he =>
    obtain ⟨hh, -⟩ := h.active _ rfl
    cases hh with
    | eot1 hi =>
      exact answersAs_eotAgain h (by decide) ⟨_, _, rfl, rfl⟩ rfl (.eot1 hi)
  | eotAcked hk hs =>
    obtain ⟨hh, -⟩ := h.active _ rfl
    cases hh with
    | eot1 hi =>
      exact answersAs_next h hi hs rfl rfl rfl rfl fun j hj => Nat.lt_succ_of_lt (h.done j hj)
  | eotNaked hk =>
    obtain ⟨hh, -⟩ := h.active _ rfl
    cases hh with
    | eot1 hi =>
      exact answersAs_eotAgain h (by decide) ⟨_, _, rfl, rfl⟩ rfl (.eoteot hi)
  | secondEotResent hk he =>
    obtain ⟨hh, -⟩ := h.active _ rfl
    cases hh with
    | eoteot hi =>
      exact answersAs_eotAgain h (by decide) ⟨_, _, rfl, rfl⟩ rfl (.eoteot hi)
  | fileDone hk hs =>
    obtain ⟨hh, hb⟩ := h.active _ rfl
    cases hh with
    | eoteot hi =>
      have hbegun := hb.begun hi
      refine answersAs_next h hi hs rfl rfl (by simp [transmissions, transmits]) ?_ fun j hj => ?_
      · simp [Progress.add, opensFile]
      · simp only [SenderY.peer_toPeerY, PeerY.addResult_calls, progress_append, List.foldl_cons,
          List.foldl_nil, Progress.add, opensFile, Bool.false_eq_true, if_false, if_true,
          List.mem_append, List.mem_singleton, hbegun, Nat.add_sub_cancel] at hj
        rcases hj with hj | rfl
        · exact Nat.lt_succ_of_lt (h.done j hj)
        · exact Nat.lt_succ_self j
  | excessiveNAKs hl hnone he hs =>
    exact answersAs_stop h (cancel_transmissions hs) (progress_cancel (by decide) hs)
  | kbCancelled hc hk hnone hs =>
    exact answersAs_stop h (cancel_transmissions hs) (progress_cancel (by decide) hs)
  | interrupted hl => exact absurd rfl hcan
  | resumedSER hc hk =>
    obtain ⟨hh, -⟩ := h.active _ rfl
    cases hh
  | rcvCancelled hs => exact absurd rfl hcan

/-- A timeout stops the sender. -/
theorem SndAt.timesOut (h : SndAt files p v) (ht : Sender.Trans env .tm v v') :
    SndAt files p v' ∧ itemsSent v'.ctx.calls = itemsSent v.ctx.calls := by
  cases ht with
  | ignored _ => exact ⟨h, rfl⟩
  | timedOut hk hs =>
    refine ⟨h.stop (progress_cancel ?_ hs), congrArg (List.map itemOf) (cancel_transmissions hs)⟩
    split_ifs <;> decide
  | resumedTM hk =>
    obtain ⟨hh, -⟩ := h.active _ rfl
    cases hh

/-- A sender that has just been started waits for the first 'C'. -/
theorem sndAt_started {m : Sender.Machine} (h : Sender.Started files m) :
    SndAt files (.statC 0) (Sender.configOf m) ∧ itemsSent m.ctx.calls = [] := by
  obtain ⟨env, blkBufs, h⟩ := h
  obtain ⟨-, s, hs, hc⟩ := start_inv h
  have hp := SenderY.statPrepared hs
  obtain ⟨hh, hb, hd⟩ := holds_statC (i := 0) rfl rfl (fun _ => rfl) hp
  have hctx : m.ctx = startedCtx env s := congrArg Sender.Config.ctx hc
  constructor
  · rw [hc]
    constructor
    · rintro _ ⟨⟩
      exact ⟨hh.frame ⟨_, _, rfl, rfl⟩, hb.congr rfl rfl rfl⟩
    · show ∀ j ∈ (progress opensFile s.calls).done, j < 0
      rw [hd]
      exact fun j hj => absurd hj List.not_mem_nil
  · rw [hctx]
    exact congrArg (List.map itemOf) (statPrepared_transmissions hp)

end Answers

end YModem.Session
