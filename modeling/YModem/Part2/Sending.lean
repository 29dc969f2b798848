import YModem.Part2.Sender
import YModem.Session.Copy

/-!
# What the sender of Part 2 sends

`sendFiles` at each of its reads, for a batch whose files open and fit their stat blocks: which
blocks it holds, and what it sends when a response is read.
-/

namespace YModem.Part2

open YModem.Lib YModem.Peer YModem.SmartState
open YModem.Sender (Blk File filename lastStatBlk)
open YModem.Session (Sendable)

/-- What is sent to the receiver at a time. -/
inductive Item where
  | blk (bytes : List UInt8)
  | byte (b : UInt8)
  /-- `CAN_LEN` CANs, in one piece. -/
  | cans
deriving DecidableEq

def itemsOf : Event → List Item
  | .first blk | .again blk => [.blk blk.val]
  | .sendByte byte => [.byte byte]
  | .cans => [.cans]
  | .read _ => []

def itemsSent (trace : List Event) : List Item := trace.flatMap itemsOf

@[simp] theorem itemsSent_append (trace new : List Event) :
    itemsSent (trace ++ new) = itemsSent trace ++ itemsSent new := List.flatMap_append

/-- The files can be sent, and `myOpen` answers a descriptor for each. -/
def Opens (files : List (File × Int)) : Prop := ∀ f ∈ files, Sendable f.1 ∧ 0 ≤ f.2

namespace SenderY

/-- `i` stat blocks have been prepared, and `n` files are done. -/
structure Batch (files : List (File × Int)) (i n : Nat) (s : SenderY) : Prop where
  fileNames : s.fileNames = files
  fileNameIndex : s.fileNameIndex = i
  result : s.result = doneText n

/-- The stat block of the file number `i` is prepared, and the sender waits for a 'C'. -/
structure AtStat (files : List (File × Int)) (i : Nat) (f : File) (s : SenderY) : Prop where
  wait : s.wait = .statC
  batch : s.Batch files (i + 1) i
  opened : 0 ≤ s.transferringFileD
  blkNum : s.blkNum = 0
  unread : s.unread = f.contents
  next : s.blkBuf.val = f.blk 0

/-- The block number `k` of the file number `i` has been sent, and the next one is prepared. -/
structure Reading (files : List (File × Int)) (i k : Nat) (f : File) (s : SenderY) : Prop where
  batch : s.Batch files (i + 1) i
  opened : 0 ≤ s.transferringFileD
  blkNum : s.blkNum = UInt8.ofNat (k + 1)
  bytesRd : s.bytesRd = (f.chunk k).length
  unread : s.unread = f.contents.drop (CHUNK_SZ * (k + 1))
  next : k < f.numChunks → s.blkBuf.val = f.blk (k + 1)
  sent : s.sentBuf.val = f.blk k

/-- The stat block has been sent. -/
structure AtStatAck (files : List (File × Int)) (i : Nat) (f : File) (s : SenderY) : Prop where
  wait : s.wait = .statAck
  reading : Reading files i 0 f s

/-- The response to the stat block has been read. -/
structure AtDataC (files : List (File × Int)) (i : Nat) (f : File) (s : SenderY) : Prop where
  wait : s.wait = .dataC
  reading : Reading files i 0 f s

/-- The block number `k` has been sent, and the sender waits for the response. -/
structure AtBlk (files : List (File × Int)) (i k : Nat) (f : File) (s : SenderY) : Prop where
  wait : s.wait = .dataAck
  errCnt : s.errCnt = 0
  reading : Reading files i k f s

/-- An EOT of the file number `i` has been sent, and the sender is at the read `w`. -/
structure AtEot (files : List (File × Int)) (i : Nat) (w : Expects) (s : SenderY) : Prop where
  wait : s.wait = w
  batch : s.Batch files (i + 1) i

/-- The last stat block has been sent. -/
structure AtLast (files : List (File × Int)) (s : SenderY) : Prop where
  wait : s.wait = .lastAck
  result : s.result = doneText files.length

/-- The sender reads `c`, sends the items and is left as `P` says. -/
def Goes (c : UInt8) (items : List Item) (P : SenderY → Prop) (s : SenderY) : Prop :=
  ∃ s', s.proceed c = .ok s' ∧ P s' ∧ itemsSent s'.trace = itemsSent s.trace ++ items

section Steps

variable {files : List (File × Int)} {i k n : Nat} {f : File} {s : SenderY} {c : UInt8}

/-! ## The blocks -/

theorem genBlk_spec (hfd : 0 ≤ s.transferringFileD) : ∃ blk, s.genBlk = .ok { s with
      bytesRd := (s.unread.take CHUNK_SZ).length
      unread := s.unread.drop CHUNK_SZ
      blkBuf := blk } ∧
    (s.unread ≠ [] → blk.val = SOH :: restOf s.blkNum (padded CTRL_Z (s.unread.take CHUNK_SZ))) := by
  rw [SenderY.genBlk, if_neg (by omega)]
  by_cases hne : s.unread = []
  · obtain ⟨blk, hs, -⟩ := s.blkBuf.store_ok DATA_POS [] (show DATA_POS + 0 ≤ BLK_SZ_CRC by decide)
    have hg : s.blkBuf.genBlk s.blkNum (s.unread.take CHUNK_SZ) = .ok blk := by
      rw [hne, List.take_nil, Blk.genBlk, hs]
      rfl
    refine ⟨blk, ?_, fun h => absurd hne h⟩
    simp only [hg, ok_bind]
    rfl
  · obtain ⟨blk, hg, hv⟩ := @Blk.genBlk_spec s.blkBuf s.blkNum (s.unread.take CHUNK_SZ)
      (by simp [hne]) (List.length_take_le _ _)
    refine ⟨blk, ?_, fun _ => hv⟩
    simp only [hg, ok_bind]
    rfl

/-- The prepared block is sent, and the next chunk is read. -/
theorem sendBlkPrepNext_spec (hfd : 0 ≤ s.transferringFileD) (hb : s.Batch files (i + 1) i)
    (hnum : s.blkNum = UInt8.ofNat k) (hunread : s.unread = f.contents.drop (CHUNK_SZ * k))
    (hnext : s.blkBuf.val = f.blk k) :
    ∃ s', s.sendBlkPrepNext = .ok s' ∧ Reading files i k f s' ∧
      s'.trace = s.trace ++ [.first s.blkBuf] := by
  obtain ⟨blk, hg, hv⟩ := @genBlk_spec { s with blkNum := s.blkNum + 1, sentBuf := s.blkBuf } hfd
  have hchunk : s.unread.take CHUNK_SZ = f.chunk k := by rw [hunread, File.chunk]
  have hstep : s.blkNum + 1 = UInt8.ofNat (k + 1) := by rw [hnum, Sender.ofNat_succ]
  refine ⟨_, by rw [sendBlkPrepNext, hg]; rfl, ?_, rfl⟩
  constructor
  case batch => exact ⟨hb.fileNames, hb.fileNameIndex, hb.result⟩
  case opened => exact hfd
  case blkNum => exact hstep
  case bytesRd => exact congrArg (fun bs => (bs.length : Int)) hchunk
  case unread =>
    show s.unread.drop CHUNK_SZ = _
    rw [hunread, List.drop_drop, Nat.mul_add, Nat.mul_one]
  case next =>
    intro hk
    have hne : s.unread ≠ [] := by
      rw [hunread, ne_eq, f.drop_eq_nil_iff]
      omega
    refine (hv hne).trans ?_
    show SOH :: restOf (s.blkNum + 1) (padded CTRL_Z (s.unread.take CHUNK_SZ)) = _
    rw [hstep, hchunk]
    rfl
  case sent => exact hnext

/-- The next stat block: of the next file, or the last one, which is sent at once. -/
theorem prepStatBlk_spec (hopens : Opens files) (hn : n ≤ files.length) (hb : s.Batch files n n) :
    ∃ s₀, s.prepStatBlk = .ok s₀ ∧
      ((∃ f, files[n]?.map Prod.fst = some f ∧ AtStat files n f s₀.whileFileNames ∧
          itemsSent s₀.whileFileNames.trace = itemsSent s.trace) ∨
        n = files.length ∧ AtLast files s₀.whileFileNames ∧
          itemsSent s₀.whileFileNames.trace = itemsSent s.trace ++ [.blk lastStatBlk]) := by
  cases hget : files[n]? with
  | some file =>
    obtain ⟨hn, heq⟩ := List.getElem?_eq_some_iff.mp hget
    obtain ⟨hsend, hfd⟩ := hopens file (heq ▸ List.getElem_mem hn)
    obtain ⟨blk, hg, hv⟩ := @Blk.genStatBlk_named s.blkBuf file.1.name file.1.contents.length
      hsend.name_ne_nil hsend.fits
    have hopen : ¬ file.2 = -1 := by omega
    have hprep : s.prepStatBlk = .ok { s with
        blkNum := 0, fileName := file.1.name, transferringFileD := file.2
        unread := file.1.contents, blkBuf := blk, fileNameIndex := n + 1 } := by
      simp only [prepStatBlk, hb.fileNames, hb.fileNameIndex, hget, ne_eq, hopen,
        not_false_eq_true, if_true, hg, ok_bind]
      rfl
    refine ⟨_, hprep, .inl ⟨file.1, rfl, ?_⟩⟩
    rw [whileFileNames, if_pos (by simp only [hb.fileNames]; omega)]
    exact ⟨⟨rfl, ⟨hb.fileNames, rfl, hb.result⟩, hfd, rfl, rfl, hv⟩, rfl⟩
  | none =>
    obtain rfl : n = files.length := Nat.le_antisymm hn (List.getElem?_eq_none_iff.mp hget)
    obtain ⟨blk, hg, hv⟩ := s.blkBuf.genStatBlk_empty 0
    have hprep : s.prepStatBlk = .ok { s with
        blkNum := 0, fileName := [], transferringFileD := -2, blkBuf := blk
        fileNameIndex := files.length + 1 } := by
      simp only [prepStatBlk, hb.fileNames, hb.fileNameIndex, hget, hg, ok_bind]
      rfl
    refine ⟨_, hprep, .inr ⟨rfl, ?_⟩⟩
    rw [whileFileNames, if_neg (by simp only [hb.fileNames]; omega)]
    refine ⟨⟨rfl, hb.result⟩, ?_⟩
    simp [itemsSent, itemsOf, hv, lastStatBlk]

/-- Up to the first read. -/
theorem start_spec (hopens : Opens files) (blkBuf sentBuf : Blk) :
    ∃ s, start files blkBuf sentBuf = .ok s ∧
      ((∃ f, files[0]?.map Prod.fst = some f ∧ AtStat files 0 f s ∧ itemsSent s.trace = []) ∨
        files = [] ∧ AtLast files s ∧ itemsSent s.trace = [.blk lastStatBlk]) := by
  obtain ⟨s₀, hs₀, hnext⟩ := @prepStatBlk_spec files 0
    ⟨"", 0, -1, -1, [], files, 0, 0, blkBuf, sentBuf, [], [], .statC⟩ hopens (Nat.zero_le _)
    ⟨rfl, rfl, rfl⟩
  refine ⟨s₀.whileFileNames, by rw [start, hs₀]; rfl, ?_⟩
  rcases hnext with h | ⟨hlen, h⟩
  · exact .inl h
  · exact .inr ⟨List.length_eq_zero_iff.mp hlen.symm, h⟩

/-! ## From one read to the next -/

/-- A 'C', or anything else, before the stat block. -/
theorem AtStat.goes (h : AtStat files i f s) (c : UInt8) :
    s.Goes c [.blk (f.blk 0)] (AtStatAck files i f) := by
  obtain ⟨s', hs, hr, htrace⟩ := @sendBlkPrepNext_spec files i 0 f (s.log (.read c)) h.opened
    ⟨h.batch.fileNames, h.batch.fileNameIndex, h.batch.result⟩ h.blkNum
    (by rw [Nat.mul_zero, List.drop_zero]; exact h.unread) h.next
  have hfd : ¬ -1 = (s.log (.read c)).transferringFileD := by
    have := h.opened
    show ¬ -1 = s.transferringFileD
    omega
  refine ⟨{ s' with wait := .statAck }, ?_, ⟨rfl, ⟨hr.batch.1, hr.batch.2, hr.batch.3⟩, hr.opened,
    hr.blkNum, hr.bytesRd, hr.unread, hr.next, hr.sent⟩, ?_⟩
  · have hw : (s.log (.read c)).wait = .statC := h.wait
    rw [proceed, hw]
    simp only [if_neg hfd, hs, ok_bind]
    rfl
  · show itemsSent s'.trace = _
    rw [htrace, itemsSent_append, log_trace, itemsSent_append, h.next.symm]
    simp [itemsSent, itemsOf]

/-- What the sender holds does not depend on the record and on the read that it waits at. -/
theorem Reading.of_fields {s' : SenderY} (h : Reading files i k f s) (hnames : s'.fileNames = s.fileNames)
    (hindex : s'.fileNameIndex = s.fileNameIndex) (hresult : s'.result = s.result)
    (hfd : s'.transferringFileD = s.transferringFileD) (hnum : s'.blkNum = s.blkNum)
    (hrd : s'.bytesRd = s.bytesRd) (hunread : s'.unread = s.unread) (hbuf : s'.blkBuf = s.blkBuf)
    (hsent : s'.sentBuf = s.sentBuf) : Reading files i k f s' where
  batch := ⟨hnames.trans h.batch.fileNames, hindex.trans h.batch.fileNameIndex,
    hresult.trans h.batch.result⟩
  opened := hfd ▸ h.opened
  blkNum := hnum.trans h.blkNum
  bytesRd := hrd.trans h.bytesRd
  unread := hunread.trans h.unread
  next := fun hk => hbuf ▸ h.next hk
  sent := hsent ▸ h.sent

/-- The response to the stat block, whatever it is. -/
theorem AtStatAck.goes (h : AtStatAck files i f s) (c : UInt8) : s.Goes c [] (AtDataC files i f) := by
  refine ⟨{ s.log (.read c) with wait := .dataC }, ?_,
    ⟨rfl, h.reading.of_fields rfl rfl rfl rfl rfl rfl rfl rfl rfl⟩, ?_⟩
  · have hw : (s.log (.read c)).wait = .statAck := h.wait
    rw [proceed, hw]
  · simp [itemsSent, itemsOf]

/-- The condition on `bytesRd`: the next block, or the first EOT. -/
theorem Reading.while_spec (h : Reading files i k f s) :
    (k < f.numChunks ∧ ∃ s', s.whileBytesRd = .ok s' ∧ AtBlk files i (k + 1) f s' ∧
        itemsSent s'.trace = itemsSent s.trace ++ [.blk (f.blk (k + 1))]) ∨
      (f.numChunks ≤ k ∧ ∃ s', s.whileBytesRd = .ok s' ∧ AtEot files i .eotNak s' ∧
        itemsSent s'.trace = itemsSent s.trace ++ [.byte EOT]) := by
  have hzero : s.bytesRd = 0 ↔ f.numChunks ≤ k := by
    rw [h.bytesRd]
    exact f.length_chunk_eq_zero_iff k
  rcases Nat.lt_or_ge k f.numChunks with hk | hk
  · have hne : s.bytesRd ≠ 0 := by
      rw [ne_eq, hzero]
      omega
    obtain ⟨s', hs, hr, htrace⟩ := sendBlkPrepNext_spec h.opened h.batch h.blkNum h.unread (h.next hk)
    refine .inl ⟨hk, { s' with errCnt := 0, wait := .dataAck }, ?_,
      ⟨rfl, rfl, hr.of_fields rfl rfl rfl rfl rfl rfl rfl rfl rfl⟩, ?_⟩
    · rw [whileBytesRd, if_pos hne, hs]
      rfl
    · show itemsSent s'.trace = _
      rw [htrace, itemsSent_append, ← h.next hk]
      rfl
  · refine .inr ⟨hk, _, if_neg (not_not.mpr (hzero.mpr hk)),
      ⟨rfl, ⟨h.batch.fileNames, h.batch.fileNameIndex, h.batch.result⟩⟩, ?_⟩
    exact itemsSent_append s.trace [.sendByte EOT]

/-- The record of a read tells nothing of what is sent. -/
theorem itemsSent_read (trace : List Event) (c : UInt8) :
    itemsSent (trace ++ [.read c]) = itemsSent trace := by
  rw [itemsSent_append]
  exact List.append_nil _

/-- A byte that lets the sender go on behind block `k`. -/
theorem Reading.goes (h : Reading files i k f s)
    (hproceed : s.proceed c = (s.log (.read c)).whileBytesRd) :
    (k < f.numChunks ∧ s.Goes c [.blk (f.blk (k + 1))] (AtBlk files i (k + 1) f)) ∨
      (f.numChunks ≤ k ∧ s.Goes c [.byte EOT] (AtEot files i .eotNak)) := by
  have hlog : Reading files i k f (s.log (.read c)) :=
    h.of_fields rfl rfl rfl rfl rfl rfl rfl rfl rfl
  rcases hlog.while_spec with ⟨hk, s', hs, hat, hitems⟩ | ⟨hk, s', hs, hat, hitems⟩
  · rw [log_trace, itemsSent_read] at hitems
    exact .inl ⟨hk, s', hproceed.trans hs, hat, hitems⟩
  · rw [log_trace, itemsSent_read] at hitems
    exact .inr ⟨hk, s', hproceed.trans hs, hat, hitems⟩

/-- Whatever comes before the first data block. -/
theorem AtDataC.goes (h : AtDataC files i f s) (c : UInt8) :
    (0 < f.numChunks ∧ s.Goes c [.blk (f.blk 1)] (AtBlk files i 1 f)) ∨
      (f.numChunks ≤ 0 ∧ s.Goes c [.byte EOT] (AtEot files i .eotNak)) := by
  have hw : (s.log (.read c)).wait = .dataC := h.wait
  exact h.reading.goes (by rw [proceed, hw])

/-- An acknowledged block. -/
theorem AtBlk.acked (h : AtBlk files i k f s) :
    (k < f.numChunks ∧ s.Goes ACK [.blk (f.blk (k + 1))] (AtBlk files i (k + 1) f)) ∨
      (f.numChunks ≤ k ∧ s.Goes ACK [.byte EOT] (AtEot files i .eotNak)) := by
  have hw : (s.log (.read ACK)).wait = .dataAck := h.wait
  have hack : ¬ (ACK = NAK ∧ (s.log (.read ACK)).errCnt < errB) := fun hx => absurd hx.1 (by decide)
  exact h.reading.goes (by rw [proceed, hw]; simp only [if_neg hack])

/-- A block that is to be sent again. -/
theorem AtBlk.naked (h : AtBlk files i k f s) :
    s.Goes NAK [.blk (f.blk k)] (AtBlk files i k f) := by
  have hw : (s.log (.read NAK)).wait = .dataAck := h.wait
  have hnak : NAK = NAK ∧ (s.log (.read NAK)).errCnt < errB := by
    refine ⟨rfl, ?_⟩
    show s.errCnt < errB
    rw [h.errCnt]
    decide
  refine ⟨(s.log (.read NAK)).resendBlk, ?_,
    ⟨h.wait, h.errCnt, h.reading.of_fields rfl rfl rfl rfl rfl rfl rfl rfl rfl⟩, ?_⟩
  · rw [proceed, hw]
    exact if_pos hnak
  · show itemsSent (s.trace ++ [.read NAK] ++ [.again s.sentBuf]) = _
    rw [itemsSent_append, itemsSent_read, ← h.reading.sent]
    rfl

/-- Whatever the first EOT is answered by. -/
theorem AtEot.first_goes (h : AtEot files i .eotNak s) (c : UInt8) :
    s.Goes c [.byte EOT] (AtEot files i .eotAck) := by
  have hw : (s.log (.read c)).wait = .eotNak := h.wait
  refine ⟨{ (s.log (.read c)).log (.sendByte EOT) with wait := .eotAck }, by rw [proceed, hw],
    ⟨rfl, ⟨h.batch.fileNames, h.batch.fileNameIndex, h.batch.result⟩⟩, ?_⟩
  show itemsSent (s.trace ++ [.read c] ++ [.sendByte EOT]) = _
  rw [itemsSent_append, itemsSent_read]
  rfl

theorem proceed_eotAck (hw : s.wait = .eotAck) (c : UInt8) : s.proceed c =
    prepStatBlk { s.log (.read c) with result := s.result ++ "Done, " } >>=
      fun t => .ok t.whileFileNames := by
  cases s
  cases hw
  rfl

/-- Whatever the second EOT is answered by: the next stat block. -/
theorem AtEot.second_goes (h : AtEot files i .eotAck s) (hopens : Opens files)
    (hi : i < files.length) (c : UInt8) :
    (∃ f, files[i + 1]?.map Prod.fst = some f ∧ s.Goes c [] (AtStat files (i + 1) f)) ∨
      (i + 1 = files.length ∧ s.Goes c [.blk lastStatBlk] (AtLast files)) := by
  obtain ⟨s₀, hs₀, hnext⟩ := @prepStatBlk_spec files (i + 1)
    { s.log (.read c) with result := s.result ++ "Done, " } hopens hi
    ⟨h.batch.fileNames, h.batch.fileNameIndex, congrArg (· ++ "Done, ") h.batch.result⟩
  have hproceed : s.proceed c = .ok s₀.whileFileNames := by
    rw [proceed_eotAck h.wait, hs₀]
    rfl
  have hread : itemsSent (s.log (.read c)).trace = itemsSent s.trace := itemsSent_read s.trace c
  rcases hnext with ⟨f, hf, hat, hitems⟩ | ⟨hlen, hat, hitems⟩
  · exact .inl ⟨f, hf, _, hproceed, hat, (hitems.trans hread).trans (List.append_nil _).symm⟩
  · exact .inr ⟨hlen, _, hproceed, hat, hitems.trans (congrArg (· ++ _) hread)⟩

/-- Whatever the last stat block is answered by. -/
theorem AtLast.goes (h : AtLast files s) (c : UInt8) : s.Goes c [] fun s' =>
    s'.wait = .returned ∧ s'.result = ((doneText files.length).dropEnd 2).copy := by
  have hw : (s.log (.read c)).wait = .lastAck := h.wait
  refine ⟨{ s.log (.read c) with
      result := (s.result.dropEnd 2).copy, wait := .returned }, by rw [proceed, hw]; rfl,
    ⟨rfl, ?_⟩, ?_⟩
  · show (s.result.dropEnd 2).copy = _
    rw [h.result]
  · rw [List.append_nil]
    exact itemsSent_read s.trace c

end Steps

end SenderY

end YModem.Part2
