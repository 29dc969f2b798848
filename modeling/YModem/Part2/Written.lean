import YModem.Part2.Receiver
import YModem.Sender.Blocks

/-!
# What the receiver of Part 2 writes

The inner loop writes a block when `m_goodBlk` is set. The member that tells a first copy from
a second one is `m_goodBlk1st`, which `receiveFiles` does not read, so that every good copy of
a block reaches the file.
-/

namespace YModem.Part2

open YModem.Lib YModem.Peer YModem.SmartState
open YModem.Sender (Blk)

/-! ## What `getRestBlk` decides -/

section RestBlk

variable {r : ReceiverY} {rest : List UInt8}

/-- The flags by the bytes behind the SOH. A damaged block leaves `m_goodBlk1st` set. -/
theorem judgeBlk_eq {c : UInt8} (hb : r.m_rcvBlk.val = c :: rest) (hlen : rest.length = REST_BLK_SZ_CRC) :
    r.judgeBlk =
      if Intact rest then
        if (blkNumOf rest).toNat = r.m_numLastGoodBlk.toNat + 1 then
          { r with
            m_goodBlk := true, m_goodBlk1st := true, m_syncLoss := false
            m_numLastGoodBlk := blkNumOf rest }
        else { r with m_goodBlk := true, m_goodBlk1st := false, m_syncLoss := true }
      else { r with m_goodBlk := false, m_goodBlk1st := true } := by
  have hnum : r.byte SOH_OH = blkNumOf rest := by rw [ReceiverY.byte, hb]; rfl
  have hcomp : r.byte (SOH_OH + 1) = complementOf rest := by rw [ReceiverY.byte, hb]; rfl
  have hchunk : r.m_rcvBlk.chunk = payloadOf rest := by rw [Blk.chunk, hb]; rfl
  have hcrc : r.m_rcvBlk.val.drop PAST_CHUNK = rest.drop (2 + CHUNK_SZ) := by rw [hb]; rfl
  have hintact : Intact rest ↔ complementOf rest = ~~~blkNumOf rest ∧
      (rest.drop (2 + CHUNK_SZ)).take 2 = crc16ns (payloadOf rest) :=
    ⟨fun hi => ⟨hi.matched, hi.crc⟩, fun h => ⟨hlen, h.1, h.2⟩⟩
  have hflip : blkNumOf rest = ~~~complementOf rest ↔ complementOf rest = ~~~blkNumOf rest := by
    constructor
    · intro h
      rw [h, UInt8.not_not]
    · intro h
      rw [h, UInt8.not_not]
  unfold ReceiverY.judgeBlk
  simp only [ReceiverY.byte] at hnum hcomp
  simp only [ReceiverY.byte, hnum, hcomp, hchunk, hcrc, hintact, ne_eq, hflip]
  by_cases hm : complementOf rest = ~~~blkNumOf rest
  · by_cases hc : (rest.drop (2 + CHUNK_SZ)).take 2 = crc16ns (payloadOf rest)
    · by_cases hn : (blkNumOf rest).toNat = r.m_numLastGoodBlk.toNat + 1
      · simp [hm, hc, hn]
      · simp [hm, hc, hn]
    · simp [hm, hc]
  · simp [hm]

/-- A read of the right length, which leaves the first byte of the block. -/
theorem getRestBlk_eq {c : UInt8} {old : List UInt8} (hb : r.m_rcvBlk.val = c :: old)
    (hlen : rest.length = REST_BLK_SZ_CRC) : ∃ blk : Blk, blk.val = c :: rest ∧
      r.getRestBlk rest = .ok (ReceiverY.judgeBlk { r with m_rcvBlk := blk }) := by
  have hold : old.length = REST_BLK_SZ_CRC := by
    have hl := r.m_rcvBlk.property
    rw [hb, List.length_cons, BLK_SZ_CRC] at hl
    omega
  obtain ⟨blk, hs, hv⟩ := r.m_rcvBlk.store_ok 1 rest (by rw [hlen])
  refine ⟨blk, ?_, ?_⟩
  · rw [hv, hb, show 1 = 0 + 1 from rfl, overwrite_cons_succ,
      overwrite_all (hlen.trans hold.symm)]
  · rw [ReceiverY.getRestBlk, if_neg (not_not.mpr hlen), hs]
    rfl

theorem readFirst_eq (r : ReceiverY) (c : UInt8) : ∃ (blk : Blk) (old : List UInt8),
    blk.val = c :: old ∧ r.readFirst [c] = .ok { r with m_rcvBlk := blk } := by
  obtain ⟨a, b, d, chunk, crc, hv, -⟩ := r.m_rcvBlk.exists_parts
  obtain ⟨blk, hs, hval⟩ := r.m_rcvBlk.store_ok 0 [c] (show 0 + 1 ≤ BLK_SZ_CRC by decide)
  refine ⟨blk, b :: d :: (chunk ++ crc), ?_, ?_⟩
  · rw [hval, hv]
    rfl
  · rw [ReceiverY.readFirst, if_neg (by simp), hs]
    rfl

end RestBlk

/-! ## The output files of a run -/

structure OutFile where
  name : List UInt8
  fd : Int
  data : List UInt8
deriving DecidableEq

/-- The files that were created, the last one first. -/
def addCall (files : List OutFile) : Call → List OutFile
  | .creat name fd => if fd = -1 then files else ⟨name, fd, []⟩ :: files
  | .write fd data =>
    match files with
    | [] => []
    | f :: files => (if f.fd = fd then { f with data := f.data ++ data } else f) :: files
  | .sendByte _ | .cans | .close _ _ => files

def outputs (calls : List Call) : List OutFile := calls.foldl addCall []

theorem outputs_append (calls new : List Call) :
    outputs (calls ++ new) = new.foldl addCall (outputs calls) := List.foldl_append

/-! ## What a stop-and-wait sender may send -/

/-- A data block with the copies of it that arrive: the bytes behind each SOH. -/
structure SentBlk where
  payload : List UInt8
  copies : List (List UInt8)

namespace SentBlk

/-- The number of copies that arrive undamaged. -/
def goodCopies (b : SentBlk) : Nat := b.copies.countP fun rest => decide (Intact rest)

/-- What reaches the file: the payload once for each good copy. -/
def written (b : SentBlk) : List UInt8 := (List.replicate b.goodCopies b.payload).flatten

/-- The block has number `k`. Its copies are whole, each one is as it was sent or damaged
detectably, and the last one is good, for the sender does not go on before. -/
structure Sent (k : Nat) (b : SentBlk) : Prop where
  length_payload : b.payload.length = CHUNK_SZ
  copy : ∀ rest ∈ b.copies, rest = restOf (UInt8.ofNat k) b.payload ∨
    rest.length = REST_BLK_SZ_CRC ∧ ¬ Intact rest
  last : b.copies.getLast? = some (restOf (UInt8.ofNat k) b.payload)

variable {k : Nat} {b : SentBlk}

theorem length_written (b : SentBlk) : b.written.length = b.goodCopies * b.payload.length := by
  rw [written, List.length_flatten, List.map_replicate, List.sum_replicate_nat]

theorem Sent.goodCopies_pos (h : Sent k b) : 0 < b.goodCopies := by
  rw [goodCopies, List.countP_pos_iff]
  refine ⟨_, List.mem_of_getLast? h.last, ?_⟩
  rw [decide_eq_true_eq]
  exact restOf_intact _ h.length_payload

/-- Whole copies, of which the undamaged ones carry the payload. -/
theorem Sent.copy_cases (h : Sent k b) {rest : List UInt8} (hmem : rest ∈ b.copies) :
    rest.length = REST_BLK_SZ_CRC ∧ (Intact rest → payloadOf rest = b.payload) := by
  rcases h.copy rest hmem with rfl | ⟨hlen, hbad⟩
  · exact ⟨length_restOf _ h.length_payload, fun _ => payloadOf_restOf _ h.length_payload⟩
  · exact ⟨hlen, fun hi => absurd hi hbad⟩

end SentBlk

/-- The reads of the copies of a data block. -/
def copyReads (env : Env) (copies : List (List UInt8)) : List (Env × List UInt8) :=
  copies.flatMap fun rest => [(env, [SOH]), (env, rest)]

/-- The reads of a file: block 0, the data blocks and two EOTs. -/
def fileReads (env : Env) (stat : List UInt8) (blks : List SentBlk) : List (Env × List UInt8) :=
  (env, [SOH]) :: (env, stat) ::
    (blks.flatMap (fun b => copyReads env b.copies) ++ [(env, [EOT]), (env, [EOT])])

/-! ## One file -/

/-- The inner loop is about to read, and a file is open. -/
@[mk_iff] structure Receiving (fd : Int) (r : ReceiverY) : Prop where
  wait : r.wait = .first
  transferringFileD : r.transferringFileD = fd

section File

variable {env : Env} {r : ReceiverY} {fd : Int} {rest : List UInt8}

theorem receiveFiles_append (reads₁ reads₂ : List (Env × List UInt8)) (r : ReceiverY) :
    r.receiveFiles (reads₁ ++ reads₂) = (r.receiveFiles reads₁ >>= fun r' => r'.receiveFiles reads₂) := by
  induction reads₁ generalizing r with
  | nil => rfl
  | cons read reads₁ ih =>
    obtain ⟨env, bytes⟩ := read
    rw [List.cons_append, ReceiverY.receiveFiles, ReceiverY.receiveFiles]
    cases r.proceed env bytes with
    | error f => rfl
    | ok r' => exact ih r'

/-- What the inner loop does with one copy of a block. -/
theorem copy_read (hr : Receiving fd r) (hlen : rest.length = REST_BLK_SZ_CRC) :
    ∃ r', r.receiveFiles [(env, [SOH]), (env, rest)] = .ok r' ∧ Receiving fd r' ∧
      r'.calls = r.calls ++
        if Intact rest then [.sendByte ACK, .write fd (payloadOf rest)] else [.sendByte NAK] := by
  obtain ⟨blk₁, old, hv₁, hread⟩ := readFirst_eq r SOH
  obtain ⟨blk₂, hv₂, hrest⟩ := @getRestBlk_eq
    { r with m_rcvBlk := blk₁, wait := .restOfBlk } rest SOH old hv₁ hlen
  have hjudge := @judgeBlk_eq { r with m_rcvBlk := blk₂, wait := .restOfBlk } rest SOH hv₂ hlen
  have hsoh : ReceiverY.byte { r with m_rcvBlk := blk₁ } 0 = SOH := by
    rw [ReceiverY.byte, hv₁]
    rfl
  have hchunk : blk₂.chunk = payloadOf rest := by rw [Blk.chunk, hv₂]; rfl
  have hfirst : r.proceed env [SOH] = .ok { r with m_rcvBlk := blk₁, wait := .restOfBlk } := by
    rw [ReceiverY.proceed, hr.wait]
    simp only [hread, ok_bind, if_pos hsoh]
    rfl
  have hsecond : ReceiverY.proceed env rest { r with m_rcvBlk := blk₁, wait := .restOfBlk } =
      .ok { (ReceiverY.judgeBlk { r with m_rcvBlk := blk₂, wait := .restOfBlk }).answerBlk with
        wait := .first } := by
    rw [ReceiverY.proceed]
    simp only [hrest, ok_bind]
    rfl
  refine ⟨_, by rw [ReceiverY.receiveFiles, hfirst, ok_bind, ReceiverY.receiveFiles, hsecond, ok_bind,
    ReceiverY.receiveFiles], ?_⟩
  rw [hjudge]
  by_cases hi : Intact rest
  · by_cases hnum : (blkNumOf rest).toNat = r.m_numLastGoodBlk.toNat + 1
    · simp [hi, hnum, ReceiverY.answerBlk, ReceiverY.writeChunk, hchunk, hr.transferringFileD,
        receiving_iff]
    · simp [hi, hnum, ReceiverY.answerBlk, ReceiverY.writeChunk, hchunk, hr.transferringFileD,
        receiving_iff]
  · simp [hi, ReceiverY.answerBlk, hr.transferringFileD, receiving_iff]

theorem outputs_push {f : OutFile} {files : List OutFile} {bs : List UInt8} {before : List Call}
    (h : outputs before = f :: files) (hfd : f.fd = fd) :
    outputs (before ++ [.sendByte ACK, .write fd bs]) = { f with data := f.data ++ bs } :: files := by
  simp [outputs_append, addCall, h, hfd]

/-- A block whose copies arrive is written as often as a good copy arrives. -/
theorem copies_read {b : SentBlk} (hcopy : ∀ rest ∈ b.copies, rest.length = REST_BLK_SZ_CRC ∧
      (Intact rest → payloadOf rest = b.payload))
    (hr : Receiving fd r) {f : OutFile} {files : List OutFile} (hf : f.fd = fd)
    (hout : outputs r.calls = f :: files) :
    ∃ r', r.receiveFiles (copyReads env b.copies) = .ok r' ∧ Receiving fd r' ∧
      outputs r'.calls = { f with data := f.data ++ b.written } :: files := by
  obtain ⟨payload, copies⟩ := b
  induction copies generalizing r f with
  | nil => exact ⟨r, rfl, hr, by simpa [SentBlk.written, SentBlk.goodCopies] using hout⟩
  | cons rest copies ih =>
    obtain ⟨hlen, hpayload⟩ := hcopy rest List.mem_cons_self
    obtain ⟨r₁, h₁, hr₁, hc₁⟩ := @copy_read env r fd rest hr hlen
    have hout₁ : outputs r₁.calls =
        { f with data := f.data ++ if Intact rest then payload else [] } :: files := by
      rw [hc₁]
      by_cases hi : Intact rest
      · rw [if_pos hi, if_pos hi, outputs_push hout hf, hpayload hi]
      · rw [if_neg hi, if_neg hi, outputs_append, hout, List.append_nil]
        rfl
    obtain ⟨r₂, h₂, hr₂, hout₂⟩ := ih hr₁ (by exact hf) hout₁
      (fun c hc => hcopy c (List.mem_cons_of_mem _ hc))
    refine ⟨r₂, ?_, hr₂, ?_⟩
    · have hcons : copyReads env (rest :: copies) =
          [(env, [SOH]), (env, rest)] ++ copyReads env copies := rfl
      rw [hcons, receiveFiles_append, h₁, ok_bind, h₂]
    · rw [hout₂, SentBlk.written, SentBlk.written, SentBlk.goodCopies, SentBlk.goodCopies,
        List.countP_cons]
      by_cases hi : Intact rest
      · simp [hi, List.replicate_succ]
      · simp [hi]

/-- The data blocks, one after the other. -/
theorem blks_read {blks : List SentBlk} (hsent : ∀ b ∈ blks, ∃ k, SentBlk.Sent k b)
    (hr : Receiving fd r) {f : OutFile} {files : List OutFile} (hf : f.fd = fd)
    (hout : outputs r.calls = f :: files) :
    ∃ r', r.receiveFiles (blks.flatMap (fun b => copyReads env b.copies)) = .ok r' ∧
      Receiving fd r' ∧
      outputs r'.calls = { f with data := f.data ++ blks.flatMap SentBlk.written } :: files := by
  induction blks generalizing r f with
  | nil => exact ⟨r, rfl, hr, by simpa using hout⟩
  | cons b blks ih =>
    obtain ⟨k, hb⟩ := hsent b List.mem_cons_self
    obtain ⟨r₁, h₁, hr₁, hout₁⟩ := @copies_read env r fd b (fun rest hmem => hb.copy_cases hmem) hr f
      files hf hout
    obtain ⟨r₂, h₂, hr₂, hout₂⟩ := ih (fun b' hmem => hsent b' (List.mem_cons_of_mem _ hmem)) hr₁
      (by exact hf) hout₁
    refine ⟨r₂, ?_, hr₂, ?_⟩
    · rw [List.flatMap_cons, receiveFiles_append, h₁, ok_bind, h₂]
    · rw [hout₂, List.flatMap_cons, ← List.append_assoc]

/-- Block 0 opens the file, whether it is damaged or not. -/
theorem stat_read {stat name : List UInt8} (hwait : r.wait = .soh)
    (hlen : stat.length = REST_BLK_SZ_CRC) (hname : cString (stat.drop 2) = some name)
    (hne : name ≠ []) (hfd : -1 < env.creat) :
    ∃ r', r.receiveFiles [(env, [SOH]), (env, stat)] = .ok r' ∧ Receiving env.creat r' ∧
      outputs r'.calls = ⟨name, env.creat, []⟩ :: outputs r.calls := by
  obtain ⟨blk₁, old, hv₁, hread⟩ := readFirst_eq r SOH
  obtain ⟨blk₂, hv₂, hrest⟩ := @getRestBlk_eq
    { r with m_rcvBlk := blk₁, wait := .restOfStat } stat SOH old hv₁ hlen
  have hjudge := @judgeBlk_eq { r with m_rcvBlk := blk₂, wait := .restOfStat } stat SOH hv₂ hlen
  have hopen : cString (blk₂.val.drop DATA_POS) = some name := by rw [hv₂]; exact hname
  have hbyte : blk₂.val.getD DATA_POS 0 ≠ 0 := by
    have hfirst := getD_zero_of_cString hname hne
    rw [hv₂]
    simpa [List.getD_eq_getElem?_getD] using hfirst
  have hcreat : ¬ env.creat = -1 := by omega
  have hfirst : r.proceed env [SOH] = .ok { r with m_rcvBlk := blk₁, wait := .restOfStat } := by
    rw [ReceiverY.proceed, hwait]
    simp only [hread, ok_bind]
    rfl
  have hsecond : ∃ r', ReceiverY.proceed env stat { r with m_rcvBlk := blk₁, wait := .restOfStat } =
      .ok r' ∧ Receiving env.creat r' ∧
        r'.calls = r.calls ++ [.creat name env.creat, .sendByte ACK, .sendByte r.m_NCGbyte] := by
    rw [ReceiverY.proceed]
    simp only [hrest, ok_bind]
    generalize hj : ReceiverY.judgeBlk { r with m_rcvBlk := blk₂, wait := .restOfStat } = j
    have hframe : j.m_rcvBlk = blk₂ ∧ j.calls = r.calls ∧ j.m_NCGbyte = r.m_NCGbyte := by
      rw [← hj, hjudge]
      split_ifs <;> exact ⟨rfl, rfl, rfl⟩
    obtain ⟨hb, hc, hn⟩ := hframe
    have hagain : (ReceiverY.checkForAnotherFile j).m_anotherFile ≠ 0 := by
      rw [ReceiverY.checkForAnotherFile, ReceiverY.byte, hb]
      exact hbyte
    rw [ReceiverY.fileAnnounced, if_pos hagain, ReceiverY.openFileForTransfer,
      show (ReceiverY.checkForAnotherFile j).m_rcvBlk = blk₂ from hb, hopen]
    simp only [ok_bind, if_neg hcreat]
    refine ⟨_, rfl, ⟨rfl, rfl⟩, ?_⟩
    simp [ReceiverY.checkForAnotherFile, hc, hn]
  obtain ⟨r', h', hr', hc'⟩ := hsecond
  refine ⟨r', ?_, hr', ?_⟩
  · rw [ReceiverY.receiveFiles, hfirst, ok_bind, ReceiverY.receiveFiles, h', ok_bind,
      ReceiverY.receiveFiles]
  · rw [hc', outputs_append]
    simp [addCall, hcreat]

theorem outputs_endFile (env : Env) (r : ReceiverY) :
    outputs (r.endFile env).askForFile.calls = outputs r.calls := by
  unfold ReceiverY.endFile ReceiverY.closeTransferredFile
  by_cases hopen : r.transferringFileD > -1
  · by_cases hc : env.close = 0
    · simp [hopen, hc, ReceiverY.askForFile, outputs_append, addCall]
    · simp [hopen, hc, ReceiverY.askForFile, outputs_append, addCall]
  · simp [hopen, ReceiverY.askForFile, outputs_append, addCall]

/-- The two EOTs do not touch the files. -/
theorem eot_read (hr : Receiving fd r) :
    ∃ r', r.receiveFiles [(env, [EOT]), (env, [EOT])] = .ok r' ∧ r'.wait = .soh ∧
      outputs r'.calls = outputs r.calls := by
  obtain ⟨blk₁, old₁, hv₁, hread₁⟩ := readFirst_eq r EOT
  have hsoh : ¬ ReceiverY.byte { r with m_rcvBlk := blk₁ } 0 = SOH := by
    rw [ReceiverY.byte, hv₁]
    show ¬ EOT = SOH
    decide
  have hfirst : r.proceed env [EOT] = .ok
      { ReceiverY.sendByte { r with m_rcvBlk := blk₁ } NAK with wait := .anotherEot } := by
    rw [ReceiverY.proceed, hr.wait]
    simp only [hread₁, ok_bind, if_neg hsoh]
    rfl
  obtain ⟨blk₂, old₂, -, hread₂⟩ := readFirst_eq
    { ReceiverY.sendByte { r with m_rcvBlk := blk₁ } NAK with wait := .anotherEot } EOT
  rw [ReceiverY.receiveFiles, hfirst, ok_bind, ReceiverY.receiveFiles, ReceiverY.proceed]
  simp only [hread₂, ok_bind]
  refine ⟨_, rfl, rfl, ?_⟩
  rw [outputs_endFile]
  simp [outputs_append, addCall]

end File

/-! ## Each block once -/

/-- A list of blocks with at least one good copy each is written as their payloads when there
is no second one. -/
theorem written_eq_iff {blks : List SentBlk} (hsent : ∀ b ∈ blks, ∃ k, SentBlk.Sent k b) :
    blks.flatMap SentBlk.written = blks.flatMap SentBlk.payload ↔ ∀ b ∈ blks, b.goodCopies = 1 := by
  -- what is written is never shorter
  have hle {bs : List SentBlk} (hs : ∀ b ∈ bs, ∃ k, SentBlk.Sent k b) :
      (bs.flatMap SentBlk.payload).length ≤ (bs.flatMap SentBlk.written).length := by
    induction bs with
    | nil => simp
    | cons b bs ih =>
      obtain ⟨k, hb⟩ := hs b List.mem_cons_self
      have hrest := ih fun b' hmem => hs b' (List.mem_cons_of_mem _ hmem)
      have hfirst := Nat.le_mul_of_pos_left b.payload.length hb.goodCopies_pos
      rw [List.flatMap_cons, List.flatMap_cons, List.length_append, List.length_append,
        SentBlk.length_written]
      omega
  induction blks with
  | nil => simp
  | cons b blks ih =>
    obtain ⟨k, hb⟩ := hsent b List.mem_cons_self
    have hrest : ∀ b' ∈ blks, ∃ k, SentBlk.Sent k b' :=
      fun b' hmem => hsent b' (List.mem_cons_of_mem _ hmem)
    rw [List.flatMap_cons, List.flatMap_cons, List.forall_mem_cons]
    constructor
    · intro heq
      have hlen := congrArg List.length heq
      have hmono := hle hrest
      have hsz : CHUNK_SZ = 128 := rfl
      have hpos := hb.goodCopies_pos
      have hpay := hb.length_payload
      have hone : b.goodCopies = 1 := by
        rw [List.length_append, List.length_append, SentBlk.length_written, hpay, hsz] at hlen
        omega
      refine ⟨hone, (ih hrest).mp ?_⟩
      rw [SentBlk.written, hone, List.replicate_one, List.flatten_singleton] at heq
      exact List.append_cancel_left heq
    · intro ⟨hone, hrests⟩
      rw [(ih hrest).mpr hrests, SentBlk.written, hone, List.replicate_one, List.flatten_singleton]

section Claim

variable {env : Env} {r : ReceiverY} {stat name : List UInt8} {blks : List SentBlk}

/-- A whole file: every good copy of a data block is in it. -/
theorem file_read (hwait : r.wait = .soh) (hlen : stat.length = REST_BLK_SZ_CRC)
    (hname : cString (stat.drop 2) = some name) (hne : name ≠ []) (hfd : -1 < env.creat)
    (hsent : ∀ b ∈ blks, ∃ k, SentBlk.Sent k b) :
    ∃ r', r.receiveFiles (fileReads env stat blks) = .ok r' ∧ r'.wait = .soh ∧
      outputs r'.calls = ⟨name, env.creat, blks.flatMap SentBlk.written⟩ :: outputs r.calls := by
  obtain ⟨r₁, h₁, hr₁, hout₁⟩ := @stat_read env r stat name hwait hlen hname hne hfd
  obtain ⟨r₂, h₂, hr₂, hout₂⟩ := @blks_read env r₁ env.creat blks hsent hr₁ _ _ rfl hout₁
  obtain ⟨r₃, h₃, hw₃, hout₃⟩ := @eot_read env r₂ env.creat hr₂
  refine ⟨r₃, ?_, hw₃, by rw [hout₃, hout₂, List.nil_append]⟩
  have hreads : fileReads env stat blks = [(env, [SOH]), (env, stat)] ++
      (blks.flatMap (fun b => copyReads env b.copies) ++ [(env, [EOT]), (env, [EOT])]) := rfl
  rw [hreads, receiveFiles_append, h₁, ok_bind, receiveFiles_append, h₂, ok_bind, h₃]

/-- A file whose block 0 arrives, then its data blocks in order, each in any number of copies up
to one that is good, and two EOTs, from any state of the receiver before a file: what is
written is the payloads in order exactly when no block arrives in two good copies. -/
theorem blocks_written_once_iff (hwait : r.wait = .soh) (hlen : stat.length = REST_BLK_SZ_CRC)
    (hname : cString (stat.drop 2) = some name) (hne : name ≠ []) (hfd : -1 < env.creat)
    (hsent : ∀ k b, blks[k]? = some b → SentBlk.Sent (k + 1) b) :
    ∃ r', r.receiveFiles (fileReads env stat blks) = .ok r' ∧ r'.wait = .soh ∧
      (outputs r'.calls = ⟨name, env.creat, blks.flatMap SentBlk.payload⟩ :: outputs r.calls ↔
        ∀ b ∈ blks, b.goodCopies = 1) := by
  have hall : ∀ b ∈ blks, ∃ k, SentBlk.Sent k b := by
    intro b hmem
    obtain ⟨k, hk⟩ := List.getElem?_of_mem hmem
    exact ⟨k + 1, hsent k b hk⟩
  obtain ⟨r', h', hw, hout⟩ := @file_read env r stat name blks hwait hlen hname hne hfd hall
  refine ⟨r', h', hw, ?_⟩
  rw [hout, ← written_eq_iff hall]
  simp

/-- Block 0 of a file "a", and two chunks. -/
def statOfA : List UInt8 := restOf 0 (padded 0 [97, 0, 48])

def chunkOfB : List UInt8 := List.replicate CHUNK_SZ 98

def chunkOfC : List UInt8 := List.replicate CHUNK_SZ 99

/-- The first chunk as block 1, whose number is damaged. -/
def damagedB : List UInt8 := 2 :: (restOf 1 chunkOfB).tail

theorem length_chunkOfB : chunkOfB.length = CHUNK_SZ := List.length_replicate

theorem length_chunkOfC : chunkOfC.length = CHUNK_SZ := List.length_replicate

theorem length_statOfA : statOfA.length = REST_BLK_SZ_CRC :=
  length_restOf 0 (length_padded (by decide))

theorem cString_statOfA : cString (statOfA.drop 2) = some [97] := by
  have hsplit : statOfA.drop 2 = [97] ++ 0 :: (48 :: (List.replicate (CHUNK_SZ - 3) 0 ++
      crc16ns (padded 0 [97, 0, 48]))) := by
    rw [statOfA, restOf, padded]
    simp only [List.drop_succ_cons, List.drop_zero, List.cons_append, List.nil_append,
      List.length_cons, List.length_nil]
  rw [hsplit]
  exact cString_append_nul (by decide)

theorem intact_chunkOfB : Intact (restOf 1 chunkOfB) := restOf_intact 1 length_chunkOfB

theorem not_intact_damagedB : ¬ Intact damagedB := by
  intro h
  exact absurd h.matched (by decide)

/-- Copies of the first chunk, of which any but the last one may be damaged. -/
theorem sent_chunkOfB {copies : List (List UInt8)}
    (hcopy : ∀ rest ∈ copies, rest = restOf 1 chunkOfB ∨ rest = damagedB)
    (hlast : copies.getLast? = some (restOf 1 chunkOfB)) : SentBlk.Sent 1 ⟨chunkOfB, copies⟩ where
  length_payload := length_chunkOfB
  copy := by
    intro rest hmem
    rcases hcopy rest hmem with rfl | rfl
    · exact .inl rfl
    · refine .inr ⟨?_, not_intact_damagedB⟩
      rw [damagedB, List.length_cons, List.length_tail, length_restOf 1 length_chunkOfB]
      rfl
  last := hlast

/-- The two chunks as blocks 1 and 2, the second of which arrives once. -/
def blksOf (copies : List (List UInt8)) : List SentBlk :=
  [⟨chunkOfB, copies⟩, ⟨chunkOfC, [restOf 2 chunkOfC]⟩]

theorem sent_blksOf {copies : List (List UInt8)} (hB : SentBlk.Sent 1 ⟨chunkOfB, copies⟩) (k : Nat)
    (b : SentBlk) (hk : (blksOf copies)[k]? = some b) : SentBlk.Sent (k + 1) b := by
  match k with
  | 0 =>
    obtain rfl := Option.some.inj hk
    exact hB
  | 1 =>
    obtain rfl := Option.some.inj hk
    exact ⟨length_chunkOfC, fun _ hmem => .inl (List.mem_singleton.mp hmem), rfl⟩
  | k + 2 => simp [blksOf] at hk

/-- Block 1 arrives damaged and is repeated, or it is repeated after a good copy; block 2 follows. -/
theorem blocks_written_once_repeated :
    (∃ r', (ReceiverY.start .blank).receiveFiles
        (fileReads ⟨3, 0⟩ statOfA (blksOf [damagedB, restOf 1 chunkOfB])) = .ok r' ∧
      outputs r'.calls = [⟨[97], 3, chunkOfB ++ chunkOfC⟩]) ∧
    ∃ r', (ReceiverY.start .blank).receiveFiles
        (fileReads ⟨3, 0⟩ statOfA (blksOf [restOf 1 chunkOfB, damagedB, restOf 1 chunkOfB])) = .ok r' ∧
      outputs r'.calls ≠ [⟨[97], 3, chunkOfB ++ chunkOfC⟩] := by
  have hC : Intact (restOf 2 chunkOfC) := restOf_intact 2 length_chunkOfC
  have hchunks (copies : List (List UInt8)) :
      (blksOf copies).flatMap SentBlk.payload = chunkOfB ++ chunkOfC := rfl
  have hnone : outputs (ReceiverY.start .blank).calls = [] := rfl
  constructor
  · obtain ⟨r', h', -, hiff⟩ := @blocks_written_once_iff ⟨3, 0⟩ (ReceiverY.start .blank) statOfA [97]
      (blksOf [damagedB, restOf 1 chunkOfB]) rfl length_statOfA cString_statOfA (by decide)
      (by decide) (sent_blksOf (sent_chunkOfB (by simp) rfl))
    rw [hchunks, hnone] at hiff
    refine ⟨r', h', hiff.mpr ?_⟩
    simp [blksOf, SentBlk.goodCopies, not_intact_damagedB, intact_chunkOfB, hC]
  · obtain ⟨r', h', -, hiff⟩ := @blocks_written_once_iff ⟨3, 0⟩ (ReceiverY.start .blank) statOfA [97]
      (blksOf [restOf 1 chunkOfB, damagedB, restOf 1 chunkOfB]) rfl length_statOfA cString_statOfA
      (by decide) (by decide) (sent_blksOf (sent_chunkOfB (by simp) rfl))
    rw [hchunks, hnone] at hiff
    refine ⟨r', h', fun heq => ?_⟩
    have honce := hiff.mp heq ⟨chunkOfB, [restOf 1 chunkOfB, damagedB, restOf 1 chunkOfB]⟩
      List.mem_cons_self
    simp [SentBlk.goodCopies, not_intact_damagedB, intact_chunkOfB] at honce

/-- The same block, sent again because its ACK arrived as a NAK. -/
theorem repeated_block_written_twice : ∃ r', (ReceiverY.start .blank).receiveFiles
    (fileReads ⟨3, 0⟩ statOfA [⟨chunkOfB, [restOf 1 chunkOfB, restOf 1 chunkOfB]⟩]) = .ok r' ∧
      outputs r'.calls ≠ [⟨[97], 3, chunkOfB⟩] := by
  obtain ⟨r', h', -, hout⟩ := @file_read ⟨3, 0⟩ (ReceiverY.start .blank) statOfA [97]
    [⟨chunkOfB, [restOf 1 chunkOfB, restOf 1 chunkOfB]⟩] rfl length_statOfA cString_statOfA
    (by decide) (by decide) (fun b hmem => ⟨1, by
      rw [List.mem_singleton.mp hmem]
      exact sent_chunkOfB (by simp) rfl⟩)
  refine ⟨r', h', ?_⟩
  intro heq
  obtain ⟨hfile, -⟩ := List.cons.inj (hout.symm.trans heq)
  have hlen := congrArg (fun f : OutFile => f.data.length) hfile
  have htwice : [restOf 1 chunkOfB, restOf 1 chunkOfB].countP (fun rest => decide (Intact rest)) = 2 := by
    simp [intact_chunkOfB]
  simp only [List.flatMap_cons, List.flatMap_nil, List.append_nil, SentBlk.length_written,
    SentBlk.goodCopies, htwice, length_chunkOfB] at hlen
  exact absurd hlen (by decide)

end Claim

end YModem.Part2
