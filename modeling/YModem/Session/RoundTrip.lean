import YModem.Sender.Trace
import YModem.Session.Copy

/-!
# A batch, block by block

The functions of the two contexts in the order in which an undisturbed session calls them:
what the sender sends for a batch, and what the receiver does with it.
-/

namespace YModem.Session

open YModem.Lib YModem.Peer YModem.SmartState YModem.Sender YModem.Receiver

/-! ## The sender's part -/

/-- Sends the blocks that the read-ahead finds; `fuel` bounds their number. -/
def sendData : Nat → SenderY → Except Fault SenderY
  | 0, s => .ok s
  | fuel + 1, s =>
    if s.bytesRd = 0 then .ok s
    else do
      let s ← s.sendBlkPrepNext
      sendData fuel s

/-- The stat block, the data blocks and an EOT of the next file. -/
def sendFile (s : SenderY) (env : Sender.Env) : Except Fault SenderY := do
  let s ← s.prepStatBlk env
  let s ← s.sendBlkPrepNext
  let s ← sendData (s.unread.length + 1) s
  (sendEOT s).closeTransferredFile env

/-- A file for each environment, and the empty stat block. -/
def sendBatch (envs : List Sender.Env) (last : Sender.Env) (s : SenderY) :
    Except Fault SenderY := do
  let s ← envs.foldlM sendFile s
  let s ← s.prepStatBlk last
  s.sendBlkPrepNext

/-- The blocks and EOTs that have been sent. -/
def itemsSent (calls : List Call) : List Item := (transmissions calls).map itemOf

theorem itemsSent_append (calls new : List Call) :
    itemsSent (calls ++ new) = itemsSent calls ++ itemsSent new := by
  rw [itemsSent, transmissions_append, List.map_append]
  rfl

section Sending

variable {env : Sender.Env} {f : File} {k : Nat} {s s' : SenderY}

theorem nextSent_items (h : NextSent s s') :
    itemsSent s'.calls = itemsSent s.calls ++ [.blk s.current] := by
  rw [nextSent_calls h, itemsSent_append]
  rfl

theorem nextSent_transferringFileD (h : NextSent s s') :
    s'.transferringFileD = s.transferringFileD := by
  cases h <;> rfl

/-- From chunk `k` on, the rest of the file is sent. -/
theorem sendData_spec {fuel : Nat} (hr : Reading f k s) (hfd : 0 ≤ s.transferringFileD)
    (hfuel : f.numChunks ≤ k + fuel) :
    ∃ s', sendData fuel s = .ok s' ∧ s'.transferringFileD = s.transferringFileD ∧
      s'.fileNames = s.fileNames ∧ s'.todo = s.todo ∧
      itemsSent s'.calls ++ [.eot] = itemsSent s.calls ++ (f.dataScript k).map Prod.fst := by
  induction fuel generalizing k s with
  | zero =>
    refine ⟨s, rfl, rfl, rfl, rfl, ?_⟩
    rw [f.dataScript_end (k := k) hfuel]
    rfl
  | succ fuel ih =>
    by_cases hk : f.numChunks ≤ k
    · refine ⟨s, if_pos (hr.bytesRd_eq_zero_iff.mpr hk), rfl, rfl, rfl, ?_⟩
      rw [File.dataScript_end hk]
      rfl
    · obtain ⟨t, ht, hn⟩ := @SenderY.sendBlkPrepNext_spec s (.inr hfd)
      have htfd := nextSent_transferringFileD hn
      have hlt : k < f.numChunks := Nat.lt_of_not_le hk
      obtain ⟨s', hs', hfd', hnames, htodo, hitems⟩ :=
        ih (hr.sendBlkPrepNext hlt ht) (by rwa [htfd]) (by omega)
      refine ⟨s', ?_, hfd'.trans htfd, hnames.trans (nextSent_batch hn).1,
        htodo.trans (nextSent_batch hn).2, ?_⟩
      · rw [sendData, if_neg (mt hr.bytesRd_eq_zero_iff.mp hk), ht]
        exact hs'
      · rw [hitems, nextSent_items hn, hr.current hlt, File.dataScript_next hlt]
        simp

/-- The stat block of a sendable file is prepared. -/
theorem prepStatBlk_sendable {rest : List File} (hf : Sendable f) (hopen : env.opened ≠ -1)
    (htodo : s.todo = f :: rest) :
    ∃ p, s.prepStatBlk env = .ok p ∧ Prepared f p ∧ 0 ≤ p.transferringFileD ∧ p.todo = rest ∧
      itemsSent p.calls = itemsSent s.calls := by
  have hfile : s.fileNames[s.fileNameIndex]? = some f := by
    rw [← List.head?_drop, ← SenderY.todo, htodo]
    rfl
  have hnext : s.fileNames.drop (s.fileNameIndex + 1) = rest := by
    have hcons := todo_cons hfile
    rw [htodo] at hcons
    exact (List.cons.inj hcons).2.symm
  obtain ⟨blk, hblk, -⟩ := (s.blkBufs 0).genStatBlk_named hf.name_ne_nil hf.fits
  have hprep := SenderY.prepStatBlk_some hfile hopen
  rw [hblk, ok_bind] at hprep
  have hp := prepared_of_statPrepared hfile hf.name_ne_nil hopen (SenderY.statPrepared hprep)
  have hge := env.opened_ge
  refine ⟨_, hprep, hp, ?_, hnext, ?_⟩
  · show 0 ≤ env.opened
    omega
  · show itemsSent (s.calls ++ [_]) = _
    rw [itemsSent_append]
    exact List.append_nil _

/-- A sendable file is sent whole. -/
theorem sendFile_spec {rest : List File} (hf : Sendable f) (hopen : env.opened ≠ -1)
    (hclose : env.close ≠ -1) (htodo : s.todo = f :: rest) :
    ∃ s', sendFile s env = .ok s' ∧ s'.todo = rest ∧
      itemsSent s'.calls = itemsSent s.calls ++ f.script.map Prod.fst := by
  have hsz : CHUNK_SZ = 128 := rfl
  obtain ⟨p, hp, hprep, hpfd, hptodo, hpitems⟩ := prepStatBlk_sendable hf hopen htodo
  obtain ⟨t, ht, htn⟩ := @SenderY.sendBlkPrepNext_spec p (.inr hpfd)
  have htfd := nextSent_transferringFileD htn
  have hread := hprep.sendBlkPrepNext ht
  have hfuel : f.numChunks ≤ 0 + (t.unread.length + 1) := by
    rw [hread.unread, List.length_drop, File.numChunks, hsz]
    omega
  obtain ⟨u, hu, hufd, -, hutodo, huitems⟩ := sendData_spec hread (by rwa [htfd]) hfuel
  obtain ⟨v, hv, hvtodo, hvcalls⟩ : ∃ v, (sendEOT u).closeTransferredFile env = .ok v ∧
      v.todo = u.todo ∧ v.calls = (u.calls ++ [.sendByte EOT]) ++ [.close u.transferringFileD env.close] := by
    refine ⟨_, SenderY.closeTransferredFile_spec.mpr (.inr ⟨?_, hclose, rfl⟩), rfl, rfl⟩
    show -1 < u.transferringFileD
    omega
  refine ⟨v, ?_, hvtodo.trans (hutodo.trans ((nextSent_batch htn).2.trans hptodo)), ?_⟩
  · rw [sendFile, hp, ok_bind, ht, ok_bind, hu, ok_bind, hv]
  · have hclosed : itemsSent v.calls = itemsSent u.calls ++ [.eot] := by
      rw [hvcalls, itemsSent_append, itemsSent_append]
      exact List.append_nil _
    rw [hclosed, huitems, nextSent_items htn, hprep.current, hpitems, File.script]
    simp

theorem sendFiles_spec {envs : List Sender.Env} {files : List File}
    (hf : ∀ f ∈ files, Sendable f) (henv : ∀ env ∈ envs, env.opened ≠ -1 ∧ env.close ≠ -1)
    (hlen : envs.length = files.length) (htodo : s.todo = files) :
    ∃ s', envs.foldlM sendFile s = .ok s' ∧ s'.todo = [] ∧
      itemsSent s'.calls = itemsSent s.calls ++ (files.flatMap File.script).map Prod.fst := by
  induction files generalizing envs s with
  | nil =>
    rw [List.length_eq_zero_iff.mp hlen]
    exact ⟨s, rfl, htodo, by simp⟩
  | cons f files ih =>
    obtain ⟨env, envs, rfl⟩ := List.exists_cons_of_length_eq_add_one hlen
    obtain ⟨hopen, hclose⟩ := henv env (by simp)
    obtain ⟨t, ht, httodo, htitems⟩ := sendFile_spec (hf f (by simp)) hopen hclose htodo
    obtain ⟨s', hs', hstodo, hsitems⟩ := ih (fun g hg => hf g (.tail _ hg))
      (fun e he => henv e (.tail _ he)) (by simpa using hlen) httodo
    refine ⟨s', ?_, hstodo, ?_⟩
    · rw [List.foldlM_cons, ht, ok_bind, hs']
    · rw [hsitems, htitems]
      simp

/-- The sender sends its script. -/
theorem sendBatch_spec {envs : List Sender.Env} (last : Sender.Env) {files : List File}
    (s : SenderY) (hf : ∀ f ∈ files, Sendable f) (henv : ∀ env ∈ envs, env.opened ≠ -1 ∧ env.close ≠ -1)
    (hlen : envs.length = files.length) (htodo : s.todo = files) :
    ∃ s', sendBatch envs last s = .ok s' ∧
      itemsSent s'.calls = itemsSent s.calls ++ (batchScript files).map Prod.fst := by
  obtain ⟨t, ht, httodo, htitems⟩ := sendFiles_spec hf henv hlen htodo
  have hnone : t.fileNames[t.fileNameIndex]? = none := by
    rw [← List.head?_drop, ← SenderY.todo, httodo]
    rfl
  obtain ⟨p, hp, hprep⟩ := @SenderY.prepStatBlk_noMore last t hnone
  have hpitems : itemsSent p.calls = itemsSent t.calls :=
    congrArg (List.map itemOf) (statPrepared_transmissions hprep)
  have hlast : LastPrepared p := lastPrepared_of_statPrepared hnone hprep
  obtain ⟨s', hs', hn⟩ := @SenderY.sendBlkPrepNext_spec p (.inl hlast.fileName)
  refine ⟨s', ?_, ?_⟩
  · rw [sendBatch, ht, ok_bind, hp, ok_bind, hs']
  · rw [nextSent_items hn, hlast.current, hpitems, htitems, batchScript]
    simp

end Sending

/-! ## The receiver's part -/

/-- The answers of the system when the block `blk` has arrived and its SOH has been read. -/
def reading (env : Receiver.Env) (blk : List UInt8) : Receiver.Env :=
  { env with rest := blk.tail.take (BUF_SZ - 1), rest_le := List.length_take_le _ _ }

/-- What the receiver does with an item: while no file is open, a block is a stat block. -/
def takeItem (r : ReceiverY) : Receiver.Env × Item → Except Fault ReceiverY
  | (env, .blk blk) =>
    let r := r.getRestBlk (reading env blk)
    if r.transferringFileD = -1 then
      let r := r.checkForAnotherFile
      if r.anotherFile ≠ 0 then r.openFileForTransfer (reading env blk) else .ok r
    else .ok (if r.goodBlk1st then r.writeChunk else r)
  | (env, .eot) => .ok (r.closeTransferredFile env)

/-- The blocks that have been read, with the flags that `getRestBlk` left. -/
def blksRead (calls : List Call) : List (List UInt8 × Bool × Bool) :=
  calls.filterMap fun
    | .getRestBlk rest goodBlk goodBlk1st => some (rest, goodBlk, goodBlk1st)
    | _ => none

@[simp] theorem blksRead_append (calls new : List Call) :
    blksRead (calls ++ new) = blksRead calls ++ blksRead new := List.filterMap_append

/-- The names and the bytes of the files received. -/
def filesReceived (calls : List Call) : List (List UInt8 × List UInt8) :=
  (outputs calls).earlier.map fun o => (o.fileName, o.data)

/-- The receiver is ready for the stat block of the next file. -/
structure Listening (done : List (List UInt8 × List UInt8))
    (read : List (List UInt8 × Bool × Bool)) (r : ReceiverY) : Prop where
  closed : r.transferringFileD = -1
  lastNum : r.numLastGoodBlk = 255
  inSync : r.syncLoss = false
  current : (outputs r.calls).current = none
  received : filesReceived r.calls = done
  readings : blksRead r.calls = read

/-- The file `f` is open, and its first `k` data blocks have been written. -/
structure Copying (done : List (List UInt8 × List UInt8))
    (read : List (List UInt8 × Bool × Bool)) (f : File) (k : Nat) (r : ReceiverY) : Prop where
  isOpen : -1 < r.transferringFileD
  inSync : r.syncLoss = false
  file : ∃ o, (outputs r.calls).current = some o ∧ Copies f k o ∧ FileInv o k r
  received : filesReceived r.calls = done
  readings : blksRead r.calls = read

/-- A block read as good and for the first time. -/
def goodReading (blk : List UInt8) : List UInt8 × Bool × Bool := (blk.tail, true, true)

section Receiving

variable {env : Receiver.Env} {f : File} {k : Nat} {r : ReceiverY}
  {done : List (List UInt8 × List UInt8)} {read : List (List UInt8 × Bool × Bool)}

theorem rest_reading (env : Receiver.Env) {blk : List UInt8} (h : blk.length = BLK_SZ_CRC) :
    (reading env blk).rest = blk.tail :=
  List.take_of_length_le (by rw [List.length_tail, h]; decide)

theorem takeItem_closed (env : Receiver.Env) (blk : List UInt8) (h : r.transferringFileD = -1) :
    takeItem r (env, .blk blk) =
      if (r.getRestBlk (reading env blk)).checkForAnotherFile.anotherFile ≠ 0 then
        (r.getRestBlk (reading env blk)).checkForAnotherFile.openFileForTransfer (reading env blk)
      else .ok (r.getRestBlk (reading env blk)).checkForAnotherFile :=
  if_pos ((r.getRestBlk_transferringFileD _).trans h)

theorem takeItem_open (env : Receiver.Env) (blk : List UInt8) (h : r.transferringFileD ≠ -1) :
    takeItem r (env, .blk blk) =
      .ok (if (r.getRestBlk (reading env blk)).goodBlk1st then
        (r.getRestBlk (reading env blk)).writeChunk else r.getRestBlk (reading env blk)) := by
  apply if_neg
  rwa [ReceiverY.getRestBlk_transferringFileD]

theorem blksRead_writeChunk (r : ReceiverY) : blksRead r.writeChunk.calls = blksRead r.calls := by
  rw [writeChunk_spec]
  split_ifs
  · rfl
  · rw [blksRead_append]
    exact List.append_nil _

/-- A block read while no file is open is judged against the number 255. -/
theorem Listening.getRestBlk (env : Receiver.Env) {blk : List UInt8} (h : Listening done read r)
    (hlen : blk.length = BLK_SZ_CRC) (hi : Intact blk.tail) (hnum : blkNumOf blk.tail = 0) :
    r.getRestBlk (reading env blk) = { r with
      rcvBlk := r.rcvBlk.read (reading env blk).rest (reading env blk).rest_le
      goodBlk := true, goodBlk1st := true, numLastGoodBlk := 0
      calls := r.calls ++ [.getRestBlk blk.tail true true] } := by
  have hrest := rest_reading env hlen
  have hnext : blkNumOf (reading env blk).rest = r.numLastGoodBlk + 1 := by
    rw [hrest, hnum, h.lastNum]
    rfl
  have hget := getRestBlk_first (by rw [hrest]; exact hi) hnext
  rw [hget]
  simp only [hrest, hnum]

/-- The stat block opens the file. -/
theorem Listening.statBlk (h : Listening done read r) (hf : Sendable f) (hcreat : env.creat ≠ -1) :
    ∃ r', takeItem r (env, .blk (f.blk 0)) = .ok r' ∧
      Copying done (read ++ [goodReading (f.blk 0)]) f 0 r' := by
  have hrest := rest_reading env (length_blk hf 0)
  have hget := h.getRestBlk env (length_blk hf 0) (intact_blk hf 0) (blkNumOf_blk 0)
  have hnamed := anotherFile_blk hf r.rcvBlk hrest (reading env (f.blk 0)).rest_le
  have htext := statText_blk hf r.rcvBlk hrest (reading env (f.blk 0)).rest_le
  have hge := env.creat_ge
  have hopens := (@openFileForTransfer_spec (reading env (f.blk 0))
    (r.getRestBlk (reading env (f.blk 0))).checkForAnotherFile _).mpr
    ⟨filename f.name, f.contents.length, by rw [hget]; exact htext, rfl⟩
  refine ⟨_, (takeItem_closed env _ h.closed).trans ((if_pos ?_).trans hopens), ?_⟩
  · rw [hget]
    exact hnamed
  rw [hget]
  constructor
  case isOpen =>
    show -1 < env.creat
    omega
  case inSync => exact h.inSync
  case file =>
    refine ⟨⟨filename f.name, f.contents.length, env.creat, 0, [], []⟩, ?_, ⟨rfl, rfl, rfl, rfl⟩,
      .created rfl rfl rfl⟩
    simp [ReceiverY.checkForAnotherFile, Outputs.add, Outputs.accept, Outputs.lastNum, hcreat,
      reading]
  case received =>
    have hdone := h.received
    unfold filesReceived at hdone ⊢
    simpa [ReceiverY.checkForAnotherFile, Outputs.add, Outputs.accept, h.current] using hdone
  case readings =>
    rw [← h.readings]
    simp only [ReceiverY.checkForAnotherFile, ReceiverY.peer, PeerY.log, List.append_assoc,
      blksRead_append]
    rfl

/-- The next data block is written. -/
theorem Copying.dataBlk (env : Receiver.Env) (h : Copying done read f k r) (hf : Sendable f) :
    ∃ r', takeItem r (env, .blk (f.blk (k + 1))) = .ok r' ∧
      Copying done (read ++ [goodReading (f.blk (k + 1))]) f (k + 1) r' := by
  obtain ⟨hopen, hsync, ⟨o, hcur, hcopy, hinv⟩, hdone, hread⟩ := h
  have hrest := rest_reading env (length_blk hf (k + 1))
  have hi : Intact (reading env (f.blk (k + 1))).rest := by
    rw [hrest]
    exact intact_blk hf (k + 1)
  have hnum : blkNumOf (reading env (f.blk (k + 1))).rest = r.numLastGoodBlk + 1 := by
    rw [hrest, blkNumOf_blk, hinv.lastNum, hcopy.statNum, hcopy.length_blocks, UInt8.zero_add,
      ofNat_succ]
  have hget := getRestBlk_first hi hnum
  have hchunk : (r.rcvBlk.read (reading env (f.blk (k + 1))).rest
      (reading env (f.blk (k + 1))).rest_le).chunk CHUNK_SZ = payload f (k + 1) := by
    rw [RcvBlk.chunk_read _ _ (by rw [hi.length_eq]; decide), ← payloadOf_blk hf, ← hrest]
    rfl
  have htake := takeItem_open env (f.blk (k + 1)) (show r.transferringFileD ≠ -1 by omega)
  generalize reading env (f.blk (k + 1)) = e at *
  have hg : (r.getRestBlk e).goodBlk1st = true := by rw [hget]
  have hpush : FileInv (o.push (blkNumOf e.rest) (payload f (k + 1))) k (r.getRestBlk e) :=
    hinv.accept (Nat.le_of_eq hcopy.length_blocks.symm) hnum (length_payload hf (k + 1))
      (by rw [hget]) (by rw [hget]) (by rw [hget])
  have hcur' : (outputs (r.getRestBlk e).calls).current =
      some (o.push (blkNumOf e.rest) (payload f (k + 1))) := by
    rw [hget, ← payloadOf_blk hf, ← hrest]
    simp [Outputs.accept, hcur]
  obtain ⟨bs, hbs, hwritten⟩ := hpush.writeChunk hcur'
    (by rw [(hcopy.push _).length_blocks]) (by rw [hget, hchunk]; simp [OutFile.payloads])
  rw [if_pos hg] at htake
  refine ⟨_, htake, ?_, ?_, ⟨_, by rw [hbs], (hcopy.push _).extend bs, hwritten⟩, ?_, ?_⟩
  · simpa using hopen
  · rw [ReceiverY.writeChunk_syncLoss, hget]
    exact hsync
  · rw [← hdone, filesReceived, hbs, hget, filesReceived]
    simp [Outputs.accept]
  · rw [blksRead_writeChunk, hget, blksRead_append, hread, hrest]
    rfl

/-- An EOT closes a file that is complete. -/
theorem Copying.eot (h : Copying done read f k r) (hk : k = f.numChunks) (hclose : env.close = 0) :
    ∃ r', takeItem r (env, .eot) = .ok r' ∧
      Listening (done ++ [(filename f.name, f.contents)]) read r' := by
  obtain ⟨hopen, hsync, ⟨o, hcur, hcopy, hinv⟩, hdone, hread⟩ := h
  have hdata : o.data = f.contents := by
    rw [hcopy.data (Nat.le_of_eq hk) (Nat.le_refl k) hinv.data, hk, take_numChunks]
  have hadd := Outputs.add_close_current hcur
  rw [hinv.fd] at hadd
  refine ⟨_, rfl, ?_⟩
  rw [closeTransferredFile_closed hopen hclose]
  constructor
  case closed => rfl
  case lastNum => rfl
  case inSync => exact hsync
  case current => simp [hadd]
  case received =>
    rw [← hdone]
    simp [filesReceived, hadd, hcopy.fileName, hdata]
  case readings =>
    rw [← hread]
    simp only [blksRead_append]
    exact List.append_nil _

/-- The empty stat block is recognised. -/
theorem Listening.endOfBatch (env : Receiver.Env) (h : Listening done read r) :
    ∃ r', takeItem r (env, .blk lastStatBlk) = .ok r' ∧ r'.anotherFile = 0 ∧
      r'.transferringFileD = -1 ∧ r'.syncLoss = false ∧ filesReceived r'.calls = done ∧
      blksRead r'.calls = read ++ [goodReading Sender.lastStatBlk] := by
  have hrest := rest_reading env length_lastStatBlk
  have hget := h.getRestBlk env length_lastStatBlk intact_lastStatBlk rfl
  have hnone := anotherFile_lastStatBlk r.rcvBlk hrest (reading env Sender.lastStatBlk).rest_le
  refine ⟨_, (takeItem_closed env _ h.closed).trans (if_neg ?_), ?_⟩
  · rw [hget]
    exact not_not.mpr hnone
  rw [hget]
  refine ⟨hnone, h.closed, h.inSync, ?_, ?_⟩
  · have hdone := h.received
    unfold filesReceived at hdone ⊢
    simpa [ReceiverY.checkForAnotherFile, Outputs.accept, h.current] using hdone
  · rw [← h.readings]
    simp only [ReceiverY.checkForAnotherFile, ReceiverY.peer, PeerY.log, List.append_assoc,
      blksRead_append]
    rfl

/-- The readings of a list of items when every block is good and new. -/
def goodReadings (items : List Item) : List (List UInt8 × Bool × Bool) :=
  items.filterMap fun
    | .blk blk => some (goodReading blk)
    | .eot => none

/-- The data blocks from number `k + 1` on, and the EOT. -/
theorem Copying.dataScript {feed : List (Receiver.Env × Item)} (h : Copying done read f k r)
    (hf : Sendable f) (hk : k ≤ f.numChunks) (hclose : ∀ e ∈ feed, e.1.close = 0)
    (hfeed : feed.map Prod.snd = (f.dataScript k).map Prod.fst) :
    ∃ r', feed.foldlM takeItem r = .ok r' ∧
      Listening (done ++ [(filename f.name, f.contents)])
        (read ++ goodReadings (feed.map Prod.snd)) r' := by
  induction hn : f.numChunks - k generalizing k r read feed with
  | zero =>
    have hend : f.numChunks ≤ k := by omega
    rw [File.dataScript_end hend] at hfeed
    obtain ⟨⟨env, i⟩, rest, rfl, hi, hrest⟩ := List.map_eq_cons_iff.mp hfeed
    cases hi
    cases List.map_eq_nil_iff.mp hrest
    obtain ⟨r', hr', hl⟩ := h.eot (Nat.le_antisymm hk hend) (hclose _ (.head _))
    refine ⟨r', ?_, by simpa [goodReadings] using hl⟩
    rw [List.foldlM_cons, hr', ok_bind]
    rfl
  | succ n ih =>
    have hlt : k < f.numChunks := by omega
    rw [File.dataScript_next hlt, List.map_cons] at hfeed
    obtain ⟨⟨env, i⟩, rest, rfl, hi, hrest⟩ := List.map_eq_cons_iff.mp hfeed
    cases hi
    obtain ⟨t, ht, hcopy⟩ := h.dataBlk env hf
    obtain ⟨r', hr', hl⟩ := ih hcopy hlt (fun e he => hclose e (.tail _ he)) hrest (by omega)
    refine ⟨r', ?_, by simpa [goodReadings] using hl⟩
    rw [List.foldlM_cons, ht, ok_bind, hr']

/-- The files of a batch, one after the other. -/
theorem Listening.files {files : List File} {feed : List (Receiver.Env × Item)}
    (h : Listening done read r) (hf : ∀ f ∈ files, Sendable f)
    (hsys : ∀ e ∈ feed, e.1.creat ≠ -1 ∧ e.1.close = 0)
    (hfeed : feed.map Prod.snd = (files.flatMap File.script).map Prod.fst) :
    ∃ r', feed.foldlM takeItem r = .ok r' ∧
      Listening (done ++ files.map fun f => (filename f.name, f.contents))
        (read ++ goodReadings (feed.map Prod.snd)) r' := by
  induction files generalizing done read r feed with
  | nil =>
    cases List.map_eq_nil_iff.mp hfeed
    exact ⟨r, rfl, by simpa [goodReadings] using h⟩
  | cons f files ih =>
    rw [List.flatMap_cons, List.map_append, File.script, List.map_cons, List.cons_append] at hfeed
    obtain ⟨⟨env, i⟩, later, rfl, hi, hlater⟩ := List.map_eq_cons_iff.mp hfeed
    cases hi
    obtain ⟨data, rest, rfl, hdata, hrest⟩ := List.map_eq_append_iff.mp hlater
    obtain ⟨t, ht, hcopy⟩ := h.statBlk (hf f (.head _)) (hsys _ (.head _)).1
    obtain ⟨u, hu, hl⟩ := hcopy.dataScript (hf f (.head _)) (Nat.zero_le _)
      (fun e he => (hsys e (by simp [he])).2) hdata
    obtain ⟨r', hr', hl'⟩ := ih hl (fun g hg => hf g (.tail _ hg))
      (fun e he => hsys e (by simp [he])) hrest
    refine ⟨r', ?_, by simpa [goodReadings] using hl'⟩
    rw [List.foldlM_cons, ht, ok_bind, List.foldlM_append, hu, ok_bind, hr']

end Receiving

/-! ## Both parts together -/

/-- The receiver has read every block of the batch as good for the first time and without
loss of synchronisation, has stored every file and has seen the end of the batch. -/
structure Delivered (files : List File) (feed : List (Receiver.Env × Item)) (r r' : ReceiverY) :
    Prop where
  readings : blksRead r'.calls = blksRead r.calls ++ goodReadings (feed.map Prod.snd)
  inSync : ∀ part rest t, feed = part ++ rest → part.foldlM takeItem r = .ok t → t.syncLoss = false
  files : filesReceived r'.calls =
    filesReceived r.calls ++ files.map fun f => (filename f.name, f.contents)
  closed : r'.transferringFileD = -1
  ended : r'.anotherFile = 0

/-- Nothing clears `syncLoss`. -/
theorem takeItem_syncLoss {r r' : ReceiverY} {e : Receiver.Env × Item} (h : takeItem r e = .ok r')
    (hs : r.syncLoss = true) : r'.syncLoss = true := by
  obtain ⟨env, i⟩ := e
  cases i with
  | eot =>
    cases h
    rwa [ReceiverY.closeTransferredFile_syncLoss]
  | blk blk =>
    have hg := getRestBlk_syncLoss (reading env blk) hs
    by_cases hfd : r.transferringFileD = -1
    · rw [takeItem_closed env blk hfd] at h
      split_ifs at h
      · obtain ⟨fileName, size, -, rfl⟩ := openFileForTransfer_spec.mp h
        exact hg
      · cases h
        exact hg
    · rw [takeItem_open env blk hfd] at h
      cases h
      split_ifs
      · rwa [ReceiverY.writeChunk_syncLoss]
      · exact hg

theorem syncLoss_of_foldlM {r r' : ReceiverY} {feed : List (Receiver.Env × Item)}
    (h : feed.foldlM takeItem r = .ok r') (hs : r.syncLoss = true) : r'.syncLoss = true := by
  induction feed generalizing r with
  | nil =>
    cases h
    exact hs
  | cons e feed ih =>
    rw [List.foldlM_cons] at h
    obtain ⟨t, ht, h⟩ := bind_inv h
    exact ih h (takeItem_syncLoss ht hs)

theorem length_of_mem_batchScript {files : List File} (hf : ∀ f ∈ files, Sendable f)
    {blk : List UInt8} (h : .blk blk ∈ (batchScript files).map Prod.fst) :
    blk.length = BLK_SZ_CRC := by
  simp only [batchScript, List.map_append, List.mem_append, List.map_flatMap, List.mem_flatMap] at h
  rcases h with ⟨f, hmem, h⟩ | h
  · simp only [File.script, File.dataScript, List.map_cons, List.map_append, List.map_map,
      List.mem_cons, List.mem_append, List.mem_map] at h
    rcases h with h | ⟨j, -, h⟩ | h
    · cases h
      exact length_blk (hf f hmem) 0
    · cases h
      exact length_blk (hf f hmem) (j + 1)
    · simp at h
  · simp only [List.map_cons, List.map_nil, List.mem_singleton] at h
    cases h
    exact length_lastStatBlk

/-- **Round trip of a batch.** -/
theorem batch_round_trip {files : List File} {envs : List Sender.Env} (last : Sender.Env)
    (blkBufs : Fin 2 → Blk) {done : List (List UInt8 × List UInt8)}
    {read : List (List UInt8 × Bool × Bool)} {r : ReceiverY} (hf : ∀ f ∈ files, Sendable f)
    (henv : ∀ env ∈ envs, env.opened ≠ -1 ∧ env.close ≠ -1) (hlen : envs.length = files.length)
    (hr : Listening done read r) :
    ∃ s, sendBatch envs last (SenderY.init files blkBufs) = .ok s ∧
      (∀ blk, .blk blk ∈ itemsSent s.calls → blk.length = BLK_SZ_CRC) ∧
      ∀ feed : List (Receiver.Env × Item), feed.map Prod.snd = itemsSent s.calls →
        (∀ e ∈ feed, e.1.creat ≠ -1 ∧ e.1.close = 0) →
        ∃ r', feed.foldlM takeItem r = .ok r' ∧ Delivered files feed r r' := by
  obtain ⟨s, hs, hitems⟩ := sendBatch_spec last (SenderY.init files blkBufs) hf henv hlen rfl
  have hscript : itemsSent s.calls = (batchScript files).map Prod.fst := hitems
  refine ⟨s, hs, fun blk hblk => length_of_mem_batchScript hf (hscript ▸ hblk), ?_⟩
  intro feed hfeed hsys
  rw [hscript, batchScript, List.map_append] at hfeed
  obtain ⟨feed, tail, rfl, hfiles, htail⟩ := List.map_eq_append_iff.mp hfeed
  obtain ⟨⟨env, i⟩, rest, rfl, hi, hrest⟩ := List.map_eq_cons_iff.mp htail
  cases hi
  cases List.map_eq_nil_iff.mp hrest
  obtain ⟨t, ht, hl⟩ := hr.files hf (fun e he => hsys e (by simp [he])) hfiles
  obtain ⟨r', hr', hnone, hclosed, hsync, hdone, hreadings⟩ := hl.endOfBatch env
  have hrun : (feed ++ [(env, Item.blk lastStatBlk)]).foldlM takeItem r = .ok r' := by
    rw [List.foldlM_append, ht, ok_bind, List.foldlM_cons, hr', ok_bind]
    rfl
  refine ⟨r', hrun, ?_, ?_, ?_, hclosed, hnone⟩
  · rw [hreadings, hr.readings]
    simp [goodReadings]
  · intro part rest u heq hu
    rw [heq, List.foldlM_append, hu, ok_bind] at hrun
    by_contra hlost
    rw [syncLoss_of_foldlM hrun (by simpa using hlost)] at hsync
    cases hsync
  · rw [hdone, hr.received]

theorem batch_round_trip_small : ∃ s,
    sendBatch [.calm] .calm (SenderY.init [smallFile] fun _ => .blank) = .ok s ∧
      (∀ blk, .blk blk ∈ itemsSent s.calls → blk.length = BLK_SZ_CRC) ∧
      ∀ feed : List (Receiver.Env × Item), feed.map Prod.snd = itemsSent s.calls →
        (∀ e ∈ feed, e.1.creat ≠ -1 ∧ e.1.close = 0) →
        ∃ r', feed.foldlM takeItem (ReceiverY.init .blank) = .ok r' ∧
          Delivered [smallFile] feed (ReceiverY.init .blank) r' := by
  have hsend : Sendable smallFile := by decide
  refine @batch_round_trip [smallFile] [.calm] .calm (fun _ => .blank) [] [] (ReceiverY.init .blank)
    ?_ ?_ rfl ⟨rfl, rfl, rfl, rfl, rfl, rfl⟩
  · simpa using hsend
  · simp [Sender.Env.calm]

end YModem.Session
