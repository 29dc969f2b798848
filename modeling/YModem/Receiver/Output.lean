import YModem.Lib.Log
import YModem.Receiver.Runtime

/-!
# The output files of a run

`outputs` replays the calls of the receiver: which files it created, which data blocks
it accepted for each of them, and what it wrote. The invariant relates that to the
members of `ReceiverY` while a file is being transferred.
-/

namespace YModem.Receiver

open YModem.Lib YModem.Peer YModem.SmartState

structure OutFile where
  fileName : List UInt8
  size : Int
  fd : Int
  /-- The number of the block that had been accepted last when the file was created. -/
  statNum : UInt8
  /-- The data blocks accepted for the file as good for the first time. -/
  blocks : List (UInt8 × List UInt8)
  data : List UInt8
deriving DecidableEq

namespace OutFile

variable (f : OutFile)

def payloads : List (List UInt8) := f.blocks.map Prod.snd

/-- One more data block accepted. -/
@[simps] def push (num : UInt8) (payload : List UInt8) : OutFile :=
  { f with blocks := f.blocks ++ [(num, payload)] }

/-- More bytes written. -/
@[simps] def extend (bs : List UInt8) : OutFile := { f with data := f.data ++ bs }

/-- The numbers that follow the one of the stat block. -/
def Numbered : Prop :=
  f.blocks.map Prod.fst = (List.range f.blocks.length).map fun i => f.statNum + UInt8.ofNat (i + 1)

/-- What the first `k` data blocks contribute to a file of the announced size. -/
def firstBytes (k : Nat) : List UInt8 :=
  (f.payloads.take k).flatten.take (min f.size.toNat (CHUNK_SZ * k))

end OutFile

structure Outputs where
  /-- The files created before the current one, or closed. -/
  earlier : List OutFile
  current : Option OutFile
  /-- The bytes behind the SOH of the block accepted last, unless a file was closed since. -/
  last : Option (List UInt8)

namespace Outputs

/-- The number of the block accepted last. -/
def lastNum (o : Outputs) : UInt8 := o.last.elim 255 blkNumOf

def accept (o : Outputs) (rest : List UInt8) : Outputs :=
  { o with
    last := some rest
    current := o.current.map (·.push (blkNumOf rest) (payloadOf rest)) }

def add (o : Outputs) : Call → Outputs
  | .getRestBlk rest _ true => o.accept rest
  | .creat fileName size _ fd =>
    { o with
      earlier := o.earlier ++ o.current.toList
      current := if fd = -1 then none else some ⟨fileName, size, fd, o.lastNum, [], []⟩ }
  | .write fd data =>
    { o with current := o.current.map fun f => if f.fd = fd then f.extend data else f }
  | .close fd rc =>
    if rc ≠ 0 then o
    else if o.current.any (fun f => f.fd = fd) then ⟨o.earlier ++ o.current.toList, none, none⟩
    else { o with last := none }
  | _ => o

@[simp] theorem add_sendByte (o : Outputs) (b : UInt8) : o.add (.sendByte b) = o := rfl

@[simp] theorem add_cans (o : Outputs) : o.add .cans = o := rfl

@[simp] theorem add_purge (o : Outputs) : o.add .purge = o := rfl

@[simp] theorem add_clearCan (o : Outputs) : o.add .clearCan = o := rfl

@[simp] theorem add_result (o : Outputs) (s : String) : o.add (.result s) = o := rfl

@[simp] theorem add_checkForAnotherFile (o : Outputs) (b : UInt8) :
    o.add (.checkForAnotherFile b) = o := rfl

@[simp] theorem add_getRestBlk_false (o : Outputs) (rest : List UInt8) (b : Bool) :
    o.add (.getRestBlk rest b false) = o := rfl

@[simp] theorem add_getRestBlk_true (o : Outputs) (rest : List UInt8) (b : Bool) :
    o.add (.getRestBlk rest b true) = o.accept rest := rfl

@[simp] theorem last_accept (o : Outputs) (rest : List UInt8) :
    (o.accept rest).last = some rest := rfl

@[simp] theorem last_creat (o : Outputs) (fileName : List UInt8) (size held fd : Int) :
    (o.add (.creat fileName size held fd)).last = o.last := rfl

@[simp] theorem last_write (o : Outputs) (fd : Int) (data : List UInt8) :
    (o.add (.write fd data)).last = o.last := rfl

theorem add_close_current {o : Outputs} {f : OutFile} (h : o.current = some f) :
    o.add (.close f.fd 0) = ⟨o.earlier ++ [f], none, none⟩ := by
  simp [add, h]

theorem last_close (o : Outputs) (fd rc : Int) :
    (o.add (.close fd rc)).last = if rc = 0 then none else o.last := by
  simp only [add]
  split_ifs <;> first | rfl | contradiction

end Outputs

def outputs (calls : List Call) : Outputs := calls.foldl Outputs.add ⟨[], none, none⟩

@[simp] theorem outputs_append (calls new : List Call) :
    outputs (calls ++ new) = new.foldl Outputs.add (outputs calls) :=
  List.foldl_append

/-! ## The invariant of a transfer -/

/-- The leaves in which a file is being received. -/
def RState.transfers : RState → Bool
  | .firstByteData | .eot | .condTransientData => true
  | _ => false

/-- The members of the receiver agree with the file that is being received, of which the
chunks of `written` data blocks have been written. -/
structure FileInv (f : OutFile) (written : Nat) (r : ReceiverY) : Prop where
  fd : f.fd = r.transferringFileD
  numbered : f.Numbered
  lastNum : r.numLastGoodBlk = f.statNum + UInt8.ofNat f.blocks.length
  length_payload : ∀ p ∈ f.payloads, p.length = CHUNK_SZ
  data : f.data = (f.payloads.take written).flatten.take f.size.toNat
  remaining : 0 < r.bytesRemaining → r.bytesRemaining = f.size - CHUNK_SZ * written
  finished : r.bytesRemaining ≤ 0 → f.size ≤ CHUNK_SZ * written

/-- A file is being received, and every data block accepted for it has been written,
unless the last one still waits in `rcvBlk`. -/
structure Transferring (leaf : RState) (r : ReceiverY) : Prop where
  isOpen : -1 < r.transferringFileD
  file : ∃ f, (outputs r.calls).current = some f ∧
    if leaf = .condTransientData ∧ r.goodBlk1st = true then
      ∃ w, f.blocks.length = w + 1 ∧ f.payloads.getLast? = some (r.rcvBlk.chunk CHUNK_SZ) ∧
        FileInv f w r
    else FileInv f f.blocks.length r

/-- The members and the output that `Transferring` speaks about are unchanged. -/
structure SameFile (r r' : ReceiverY) : Prop where
  transferringFileD : r'.transferringFileD = r.transferringFileD
  numLastGoodBlk : r'.numLastGoodBlk = r.numLastGoodBlk
  bytesRemaining : r'.bytesRemaining = r.bytesRemaining
  rcvBlk : r'.rcvBlk = r.rcvBlk
  goodBlk1st : r'.goodBlk1st = r.goodBlk1st
  outputs : outputs r'.calls = outputs r.calls

theorem FileInv.congr {f : OutFile} {w : Nat} {r r' : ReceiverY} (h : FileInv f w r)
    (hfd : r'.transferringFileD = r.transferringFileD)
    (hnum : r'.numLastGoodBlk = r.numLastGoodBlk)
    (hrem : r'.bytesRemaining = r.bytesRemaining) : FileInv f w r' :=
  ⟨by rw [hfd]; exact h.fd, h.numbered, by rw [hnum]; exact h.lastNum, h.length_payload, h.data,
    by rw [hrem]; exact h.remaining, by rw [hrem]; exact h.finished⟩

theorem Transferring.frame {leaf leaf' : RState} {r r' : ReceiverY} (h : Transferring leaf r)
    (hs : SameFile r r')
    (hl : leaf' = leaf ∨ (leaf ≠ .condTransientData ∧ leaf' ≠ .condTransientData)) :
    Transferring leaf' r' := by
  obtain ⟨hopen, f, hcur, hf⟩ := h
  refine ⟨by rw [hs.transferringFileD]; exact hopen, f, by rw [hs.outputs]; exact hcur, ?_⟩
  have hcond : (leaf' = .condTransientData ∧ r'.goodBlk1st = true) ↔
      (leaf = .condTransientData ∧ r.goodBlk1st = true) := by
    rw [hs.goodBlk1st]
    rcases hl with rfl | ⟨h₁, h₂⟩
    · rfl
    · simp [h₁, h₂]
  simp only [hcond]
  split_ifs at hf ⊢ with hc
  · obtain ⟨w, hlen, hlast, hinv⟩ := hf
    exact ⟨w, hlen, by rw [hs.rcvBlk]; exact hlast,
      hinv.congr hs.transferringFileD hs.numLastGoodBlk hs.bytesRemaining⟩
  · exact hf.congr hs.transferringFileD hs.numLastGoodBlk hs.bytesRemaining

theorem OutFile.length_flatten_take {f : OutFile} {k : Nat} (hk : k ≤ f.blocks.length)
    (h : ∀ p ∈ f.payloads, p.length = CHUNK_SZ) :
    (f.payloads.take k).flatten.length = CHUNK_SZ * k := by
  have hlen : (f.payloads.take k).length = k := by
    rw [List.length_take, OutFile.payloads, List.length_map]
    omega
  rw [length_flatten_of_forall fun p hp => h p (List.mem_of_mem_take hp), hlen]

theorem OutFile.firstBytes_eq {f : OutFile} {k : Nat} (hk : k ≤ f.blocks.length)
    (h : ∀ p ∈ f.payloads, p.length = CHUNK_SZ) :
    f.firstBytes k = (f.payloads.take k).flatten.take f.size.toNat := by
  rw [OutFile.firstBytes, ← OutFile.length_flatten_take hk h, ← List.take_take, List.take_length]

/-! ## What the steps of a transfer do to the file -/

/-- A file that has just been created. -/
theorem FileInv.created {r : ReceiverY} {fileName : List UInt8} {size fd : Int} {statNum : UInt8}
    (hfd : r.transferringFileD = fd) (hlast : r.numLastGoodBlk = statNum)
    (hrem : r.bytesRemaining = size) : FileInv ⟨fileName, size, fd, statNum, [], []⟩ 0 r where
  fd := hfd.symm
  numbered := rfl
  lastNum := hlast.trans (by simp)
  length_payload := by simp [OutFile.payloads]
  data := by simp [OutFile.payloads]
  remaining := by
    intro _
    rw [hrem]
    simp
  finished := by
    intro hle
    rw [hrem] at hle
    simpa using hle

/-- A data block accepted for the first time joins the file; its chunk is not written yet. -/
theorem FileInv.accept {f : OutFile} {w : Nat} {r : ReceiverY} {num : UInt8}
    {payload : List UInt8} (h : FileInv f w r) (hw : w ≤ f.blocks.length)
    (hnum : num = r.numLastGoodBlk + 1) (hlen : payload.length = CHUNK_SZ) {r' : ReceiverY}
    (hfd : r'.transferringFileD = r.transferringFileD) (hlast : r'.numLastGoodBlk = num)
    (hrem : r'.bytesRemaining = r.bytesRemaining) :
    FileInv (f.push num payload) w r' where
  fd := by rw [hfd]; exact h.fd
  numbered := by
    have := h.numbered
    simp only [OutFile.Numbered, OutFile.push_blocks, OutFile.push_statNum] at this ⊢
    rw [List.map_append, this, List.length_append, List.length_singleton, List.range_succ,
      List.map_append, hnum, h.lastNum, UInt8.add_assoc]
    simp [UInt8.ofNat_add]
  lastNum := by
    rw [hlast, hnum, h.lastNum, UInt8.add_assoc]
    simp [UInt8.ofNat_add]
  length_payload := by
    intro p hp
    simp only [OutFile.payloads, OutFile.push_blocks, List.map_append, List.mem_append, List.map_cons, List.map_nil,
      List.mem_singleton] at hp
    rcases hp with hp | rfl
    · exact h.length_payload p hp
    · exact hlen
  data := by
    have hlen : w ≤ f.payloads.length := by rwa [OutFile.payloads, List.length_map]
    have hpay : (f.push num payload).payloads = f.payloads ++ [payload] := by
      simp [OutFile.payloads]
    rw [hpay, List.take_append_of_le_length hlen]
    exact h.data
  remaining := by rw [hrem]; exact h.remaining
  finished := by rw [hrem]; exact h.finished

/-- The chunk of the last data block accepted is written, as far as the size reaches. -/
theorem FileInv.write {f : OutFile} {w : Nat} {r r' : ReceiverY} (h : FileInv f w r)
    {payload : List UInt8} (hlen : f.blocks.length = w + 1)
    (hlast : f.payloads.getLast? = some payload)
    (hfd : r'.transferringFileD = r.transferringFileD)
    (hnum : r'.numLastGoodBlk = r.numLastGoodBlk)
    (hrem : r'.bytesRemaining =
      if 0 < r.bytesRemaining then r.bytesRemaining - CHUNK_SZ else r.bytesRemaining) :
    FileInv (f.extend
        (if 0 < r.bytesRemaining then payload.take (min CHUNK_SZ r.bytesRemaining.toNat) else []))
      (w + 1) r' where
  fd := by rw [hfd]; exact h.fd
  numbered := h.numbered
  lastNum := by rw [hnum]; exact h.lastNum
  length_payload := h.length_payload
  data := by
    have hpw : f.payloads.length = w + 1 := by rw [OutFile.payloads, List.length_map, hlen]
    have hall : f.payloads = f.payloads.take w ++ [payload] := by
      have h := List.dropLast_append_getLast? payload hlast
      rw [List.dropLast_eq_take, hpw, Nat.add_sub_cancel] at h
      exact h.symm
    have hplen : payload.length = CHUNK_SZ := h.length_payload payload (List.mem_of_getLast? hlast)
    have hflat := OutFile.length_flatten_take (f := f) (k := w) (by omega) h.length_payload
    show f.data ++ _ = (f.payloads.take (w + 1)).flatten.take f.size.toNat
    rw [List.take_of_length_le (by omega : f.payloads.length ≤ w + 1)]
    conv_rhs => rw [hall]
    rw [List.flatten_append, List.take_append, hflat, h.data, List.flatten_singleton]
    congr 1
    have hrest := h.remaining
    have hdone := h.finished
    simp only [CHUNK_SZ] at hrest hdone hplen ⊢
    split_ifs with hr
    · rw [List.take_eq_take_iff, hplen]
      omega
    · rw [show f.size.toNat - 128 * w = 0 by omega, List.take_zero]
  remaining := by
    intro hpos
    rw [hrem] at hpos ⊢
    split_ifs at hpos ⊢ with hr
    · have := h.remaining hr
      simp only [CHUNK_SZ, OutFile.extend_size] at this ⊢
      omega
    · exact absurd hpos hr
  finished := by
    intro hle
    rw [hrem] at hle
    simp only [CHUNK_SZ, OutFile.extend_size] at hle ⊢
    split_ifs at hle with hr
    · have := h.remaining hr
      simp only [CHUNK_SZ] at this
      omega
    · have := h.finished (by omega)
      simp only [CHUNK_SZ] at this
      omega

theorem RcvBlk.take_chunk (blk : RcvBlk) {n k : Nat} (h : n ≤ k) :
    (blk.chunk k).take n = blk.chunk n := by
  rw [RcvBlk.chunk, List.take_take, min_eq_left h, RcvBlk.chunk]

/-- The chunk of the data block accepted last is written. -/
theorem FileInv.writeChunk {f : OutFile} {w : Nat} {r : ReceiverY} (h : FileInv f w r)
    (hcur : (outputs r.calls).current = some f) (hlen : f.blocks.length = w + 1)
    (hlast : f.payloads.getLast? = some (r.rcvBlk.chunk CHUNK_SZ)) :
    ∃ bs, outputs r.writeChunk.calls = { outputs r.calls with current := some (f.extend bs) } ∧
      FileInv (f.extend bs) (w + 1) r.writeChunk := by
  have hrem : r.writeChunk.bytesRemaining =
      if 0 < r.bytesRemaining then r.bytesRemaining - CHUNK_SZ else r.bytesRemaining := by
    rw [writeChunk_spec]
    split_ifs <;> first | rfl | omega
  refine ⟨_, ?_, h.write hlen hlast r.writeChunk_transferringFileD r.writeChunk_numLastGoodBlk hrem⟩
  rw [writeChunk_spec]
  by_cases hpos : r.bytesRemaining ≤ 0
  · rw [if_pos hpos, if_neg (by omega)]
    simp [OutFile.extend, ← hcur]
  · rw [if_neg hpos, if_pos (by omega), r.rcvBlk.take_chunk (min_le_left _ _)]
    simp [Outputs.add, hcur, h.fd]

/-! ## Every transition keeps the file -/

/-- The block counter of the receiver is the number of the block its calls have accepted
last, which was intact. -/
def LastBlk (r : ReceiverY) : Prop :=
  r.numLastGoodBlk = (outputs r.calls).lastNum ∧ ∀ rest ∈ (outputs r.calls).last, Intact rest

section Steps

variable {env : Env} {r r' : ReceiverY}

/-- `getRestBlk` hands over a block that is good for the first time. -/
theorem outputs_getRestBlk (env : Env) (r : ReceiverY) :
    outputs (r.getRestBlk env).calls =
      if (r.getRestBlk env).goodBlk1st then (outputs r.calls).accept env.rest
      else outputs r.calls := by
  have hspec := getRestBlk_spec env r
  generalize r.getRestBlk env = g at hspec ⊢
  cases hspec with
  | bad purged hp _ => rcases hp with rfl | rfl <;> simp
  | _ => simp

/-- An answer touches the output files only by the chunk it may write. -/
theorem outputs_answerDataBlk (env : Env) (r : ReceiverY) :
    outputs (answerDataBlk env r).calls =
      if r.goodBlk1st = true ∧ 0 < r.bytesRemaining then
        (outputs r.calls).add
          (.write r.transferringFileD (r.rcvBlk.chunk (min CHUNK_SZ r.bytesRemaining.toNat)))
      else outputs r.calls := by
  rw [answerDataBlk_eq]
  split_ifs <;> simp

theorem LastBlk.same (h : LastBlk r) (hs : SameFile r r') : LastBlk r' := by
  rw [LastBlk, hs.numLastGoodBlk, hs.outputs]
  exact h

theorem LastBlk.getRestBlk (h : LastBlk r) (env : Env) : LastBlk (r.getRestBlk env) := by
  have hspec := getRestBlk_spec env r
  generalize r.getRestBlk env = g at hspec ⊢
  unfold LastBlk Outputs.lastNum at h ⊢
  cases hspec with
  | bad purged hp _ => rcases hp with rfl | rfl <;> simpa using h
  | first hi _ => simpa using hi
  | _ => simpa using h

theorem LastBlk.statBlkRead (h : LastBlk r) (env : Env) : LastBlk (statBlkRead env r) := by
  rw [statBlkRead_eq]
  exact h.getRestBlk env

theorem LastBlk.dataBlkRead (h : LastBlk r) (env : Env) : LastBlk (dataBlkRead env r) := by
  rw [dataBlkRead_eq]
  exact h.getRestBlk env

theorem LastBlk.answerDataBlk (h : LastBlk r) (env : Env) : LastBlk (answerDataBlk env r) := by
  unfold LastBlk Outputs.lastNum at h ⊢
  rw [outputs_answerDataBlk, answerDataBlk_eq]
  split_ifs <;> simpa using h

theorem LastBlk.closeTransferredFile (h : LastBlk r) (env : Env) : LastBlk (r.closeTransferredFile env) := by
  have hspec := closeTransferredFile_spec env r
  generalize r.closeTransferredFile env = g at hspec ⊢
  unfold LastBlk Outputs.lastNum at h ⊢
  cases hspec with
  | notOpen _ => exact h
  | failed _ hc => simpa [Outputs.last_close, hc] using h
  | closed _ _ => simp [Outputs.last_close]

theorem LastBlk.statBlk {leaf : Option RState} (h : LastBlk r) (hb : StatBlk env r leaf r') :
    LastBlk r' := by
  unfold LastBlk Outputs.lastNum at h ⊢
  cases hb with
  | again _ _ _ => simpa [countAndWait] using h
  | noFile _ _ _ _ => simpa [ReceiverY.checkForAnotherFile] using h
  | opened _ _ _ _ _ ho _ =>
    obtain ⟨fileName, size, _, rfl⟩ := openFileForTransfer_spec.mp ho
    simpa [ReceiverY.checkForAnotherFile] using h
  | creatError _ _ _ _ _ ho _ =>
    obtain ⟨fileName, size, _, rfl⟩ := openFileForTransfer_spec.mp ho
    simpa [ReceiverY.checkForAnotherFile] using h
  | gaveUp _ => split_ifs <;> simpa using h

/-- A file that has just been created holds nothing yet. -/
theorem StatBlk.transferring {leaf : RState} (h : LastBlk r) (hb : StatBlk env r (some leaf) r')
    (hl : leaf.transfers = true) : Transferring leaf r' := by
  cases hb with
  | again _ _ _ => cases hl
  | noFile _ _ _ _ => cases hl
  | opened _ _ _ _ _ ho hfd =>
    obtain ⟨fileName, size, _, rfl⟩ := openFileForTransfer_spec.mp ho
    have hge := env.creat_ge
    have hne : env.creat ≠ -1 := hfd
    refine ⟨show -1 < env.creat by omega,
      ⟨fileName, size, env.creat, (outputs r.calls).lastNum, [], []⟩, ?_, ?_⟩
    · simp [ReceiverY.checkForAnotherFile, Outputs.add, hne]
    · rw [if_neg (by simp)]
      refine FileInv.created rfl ?_ rfl
      exact h.1

theorem Transferring.dataBlk {leaf : RState} (h : Transferring leaf r)
    (hl : leaf.dataLeaf = true) : Transferring .condTransientData (dataBlkRead env r) := by
  obtain ⟨hopen, f, hcur, hf⟩ := h
  have hne : leaf ≠ .condTransientData := by rintro rfl; cases hl
  rw [if_neg (by simp [hne])] at hf
  rw [dataBlkRead_eq]
  have hspec := getRestBlk_spec env r
  generalize r.getRestBlk env = g at hspec ⊢
  cases hspec with
  | bad purged hp _ =>
    refine ⟨hopen, f, by rcases hp with rfl | rfl <;> simpa using hcur, ?_⟩
    exact hf.congr rfl rfl rfl
  | lost _ _ => exact ⟨hopen, f, by simpa using hcur, hf.congr rfl rfl rfl⟩
  | resent _ _ _ => exact ⟨hopen, f, by simpa using hcur, hf.congr rfl rfl rfl⟩
  | first hi hnum =>
    refine ⟨hopen, f.push (blkNumOf env.rest) (payloadOf env.rest),
      by simp [Outputs.accept, hcur], ?_⟩
    rw [if_pos ⟨rfl, rfl⟩]
    have hchunk : (r.rcvBlk.read env.rest env.rest_le).chunk CHUNK_SZ = payloadOf env.rest :=
      RcvBlk.chunk_read _ _ (by rw [hi.length_eq]; decide)
    refine ⟨f.blocks.length, by simp, ?_, ?_⟩
    · simp [OutFile.payloads, hchunk]
    · refine hf.accept (Nat.le_refl _) hnum ?_ rfl rfl rfl
      rw [payloadOf, List.length_take, List.length_drop, hi.length_eq]
      decide

theorem Transferring.answered (h : Transferring .condTransientData r) :
    Transferring .firstByteData (answerDataBlk env r) := by
  obtain ⟨hopen, f, hcur, hf⟩ := h
  have hfd : (answerDataBlk env r).transferringFileD = r.transferringFileD := by
    rw [answerDataBlk_eq]
  have hnum : (answerDataBlk env r).numLastGoodBlk = r.numLastGoodBlk := by
    rw [answerDataBlk_eq]
  have hrem : (answerDataBlk env r).bytesRemaining =
      if r.goodBlk1st = true ∧ 0 < r.bytesRemaining then r.bytesRemaining - CHUNK_SZ
      else r.bytesRemaining := by rw [answerDataBlk_eq]
  by_cases h1st : r.goodBlk1st = true
  · rw [if_pos ⟨rfl, h1st⟩] at hf
    obtain ⟨w, hlen, hlast, hinv⟩ := hf
    have hdata := hinv.write hlen hlast hfd hnum (by simpa [h1st] using hrem)
    refine ⟨by rwa [hfd], f.extend (if 0 < r.bytesRemaining then
      (r.rcvBlk.chunk CHUNK_SZ).take (min CHUNK_SZ r.bytesRemaining.toNat) else []), ?_, ?_⟩
    · rw [outputs_answerDataBlk, r.rcvBlk.take_chunk (min_le_left _ _)]
      by_cases hpos : 0 < r.bytesRemaining
      · rw [if_pos ⟨h1st, hpos⟩, if_pos hpos]
        simp [Outputs.add, hcur, hinv.fd]
      · rw [if_neg (by simp [hpos]), if_neg hpos]
        simpa [OutFile.extend] using hcur
    · rw [if_neg (by simp), OutFile.extend_blocks, hlen]
      exact hdata
  · rw [if_neg (by simp [h1st])] at hf
    refine ⟨by rwa [hfd], f, ?_, ?_⟩
    · rw [outputs_answerDataBlk, if_neg (by simp [h1st])]
      exact hcur
    · rw [if_neg (by simp)]
      exact hf.congr hfd hnum (by simpa [h1st] using hrem)

end Steps

/-- What the calls of a receiver tell about its members, CAN bytes or not. -/
structure Kept (v : Config) : Prop where
  lastBlk : LastBlk v.ctx
  transferring : ∀ leaf ∈ v.leaf, leaf.transfers = true → Transferring leaf v.ctx

section Kept

variable {env : Env} {mesg : Mesg} {leaf leaf' : RState} {back back' : Option RState}
  {r r' : ReceiverY} {v v' : Config}

/-- The machine stops, or moves to a leaf in which no file is received. -/
theorem Kept.leave {next : Option RState} (hn : LastBlk r')
    (hl : ∀ leaf ∈ next, leaf.transfers = false) : Kept ⟨next, back, r'⟩ :=
  ⟨hn, fun leaf hm ht => by rw [hl leaf hm] at ht; cases ht⟩

theorem Kept.same (h : Kept ⟨some leaf, back, r⟩) (hs : SameFile r r')
    (hl : leaf' = leaf ∨ (leaf ≠ .condTransientData ∧ leaf' ≠ .condTransientData))
    (ht : leaf'.transfers = true → leaf.transfers = true) : Kept ⟨some leaf', back', r'⟩ := by
  refine ⟨h.lastBlk.same hs, fun s hm htr => ?_⟩
  cases hm
  exact (h.transferring leaf rfl (ht htr)).frame hs hl

theorem Kept.stop (h : Kept ⟨some leaf, back, r⟩) (hs : SameFile r r') : Kept ⟨none, back', r'⟩ :=
  .leave (h.lastBlk.same hs) (by simp)

theorem Kept.statBlk {next : Option RState} (hn : LastBlk r) (hb : StatBlk env r next r') :
    Kept ⟨next, back, r'⟩ := by
  refine ⟨hn.statBlk hb, fun leaf hm ht => ?_⟩
  cases hm
  exact hb.transferring hn ht

theorem transfers_of_dataLeaf (h : leaf.dataLeaf = true) : leaf.transfers = true := by
  rcases RState.dataLeaf_cases h with rfl | rfl <;> rfl

theorem transfers_resumed (hb : Remembers back) : (RState.resumed back).transfers = false := by
  rcases hb with rfl | rfl | rfl <;> rfl

theorem Trans.kept (h : Trans env mesg v v') (hw : v.WellFormed) (hk : Kept v) : Kept v' := by
  have hn := hk.lastBlk
  cases h with
  | ignored _ => exact hk
  | kbCancel _ _ => exact hk.same ⟨rfl, rfl, rfl, rfl, rfl, rfl⟩ (.inl rfl) id
  | kbCancelImmediate => exact hk.stop ⟨rfl, rfl, rfl, rfl, rfl, by simp⟩
  | purged _ _ _ _ _ => exact hk.same ⟨rfl, rfl, rfl, rfl, rfl, by simp⟩ (.inl rfl) id
  | purgedData => exact hk.same ⟨rfl, rfl, rfl, rfl, rfl, by simp⟩ (.inl rfl) id
  | interrupted _ => exact .leave hn (by simp [RState.transfers])
  | kbCancelDelayed _ _ _ _ => exact hk.stop ⟨rfl, rfl, rfl, rfl, rfl, by simp⟩
  | dataBlk hl _ =>
    refine ⟨hn.dataBlkRead env, fun s hm _ => ?_⟩
    cases hm
    exact (hk.transferring _ rfl (transfers_of_dataLeaf hl)).dataBlk hl
  | firstEOT _ =>
    exact hk.same ⟨rfl, rfl, rfl, rfl, rfl, by simp [countAndWait]⟩ (.inr ⟨by simp, by simp⟩)
      (fun _ => rfl)
  | secondEOT _ =>
    refine .leave ?_ (by simp [RState.transfers])
    exact (hn.closeTransferredFile env).same
      ⟨rfl, rfl, rfl, rfl, rfl, by simp [acknowledgeEOT]⟩
  | closeError _ =>
    refine .leave ?_ (by simp)
    exact (hn.closeTransferredFile env).same ⟨rfl, rfl, rfl, rfl, rfl, by simp⟩
  | excessiveEOTs _ _ => exact hk.stop ⟨rfl, rfl, rfl, rfl, rfl, by simp⟩
  | eotAgain _ _ =>
    exact hk.same ⟨rfl, rfl, rfl, rfl, rfl, by simp [countAndWait]⟩ (.inl rfl) id
  | statBlk _ hb => exact .statBlk (hn.statBlkRead env) hb
  | @blkWhenDone _ r _ _ _ hb =>
    have hr : LastBlk ((r.getRestBlk env).peer (·.incErrCnt)) :=
      (hn.getRestBlk env).same ⟨rfl, rfl, rfl, rfl, rfl, rfl⟩
    exact .statBlk hr hb
  | retry _ _ _ =>
    refine hk.same ?_ (.inl rfl) id
    split_ifs <;> exact ⟨rfl, rfl, rfl, rfl, rfl, by simp [countAndWait]⟩
  | gaveUp _ _ =>
    apply hk.stop
    split_ifs <;> exact ⟨rfl, rfl, rfl, rfl, rfl, by simp⟩
  | answered _ _ =>
    refine ⟨hn.answerDataBlk env, fun s hm _ => ?_⟩
    cases hm
    exact (hk.transferring _ rfl rfl).answered
  | @abandoned _ r _ =>
    have hc : LastBlk r.cans := hn.same ⟨rfl, rfl, rfl, rfl, rfl, by simp⟩
    replace hc := hc.closeTransferredFile env
    refine .leave ?_ (by simp)
    split_ifs <;> exact hc.same ⟨rfl, rfl, rfl, rfl, rfl, by simp⟩
  | endOfSession => exact hk.stop ⟨rfl, rfl, rfl, rfl, rfl, by simp⟩
  | resumedSER _ _ =>
    exact .leave (hn.same ⟨rfl, rfl, rfl, rfl, rfl, by simp⟩)
      (by simpa using transfers_resumed hw.remembers)
  | resumedTM _ => exact .leave hn (by simpa using transfers_resumed hw.remembers)
  | sndCancelled =>
    refine .leave ?_ (by simp)
    exact (hn.closeTransferredFile env).same ⟨rfl, rfl, rfl, rfl, rfl, by simp⟩

end Kept

theorem kept_started (env : Env) (rcvBlk : RcvBlk) :
    Kept ⟨some .firstByteStat, none, startedCtx env rcvBlk⟩ :=
  .leave ⟨rfl, by simp [startedCtx, ReceiverY.init, PeerY.init, outputs]⟩
    (by simp [RState.transfers])

theorem Reachable.kept {m : Machine} (h : Reachable m) : Kept (configOf m) :=
  (h.invariant kept_started fun hw hk ht => ht.kept hw hk).2

end YModem.Receiver
