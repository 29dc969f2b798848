import YModem.Lib.Script
import YModem.Sender.Blocks

/-!
# What the sender is to send

The blocks of a file by number, the script of a batch, and the state of the double buffer
while a file is read: the block with number `k` has been sent and lies in the buffer of its
parity, the next one has been prepared in the other.
-/

namespace YModem.Sender

open YModem.Lib YModem.Peer

/-! ## The blocks of a file -/

namespace File

/-- A piece of the contents, counted from 0 on. -/
def chunk (f : File) (k : Nat) : List UInt8 := (f.contents.drop (CHUNK_SZ * k)).take CHUNK_SZ

def numChunks (f : File) : Nat := (f.contents.length + (CHUNK_SZ - 1)) / CHUNK_SZ

/-- The stat block, and from number 1 on a block for each chunk. -/
def blk (f : File) : Nat → List UInt8
  | 0 => SOH :: restOf 0 (statChunk (filename f.name) (decimal f.contents.length ++ [0]))
  | k + 1 => SOH :: restOf (UInt8.ofNat (k + 1)) (padded CTRL_Z (f.chunk k))

variable (f : File) (k : Nat)

theorem drop_eq_nil_iff : f.contents.drop (CHUNK_SZ * k) = [] ↔ f.numChunks ≤ k := by
  have hsz : CHUNK_SZ = 128 := rfl
  rw [List.drop_eq_nil_iff, numChunks, hsz]
  omega

theorem chunk_eq_nil_iff : f.chunk k = [] ↔ f.numChunks ≤ k := by
  rw [← f.drop_eq_nil_iff, chunk, List.take_eq_nil_iff]
  simp

theorem length_chunk_le : (f.chunk k).length ≤ CHUNK_SZ := List.length_take_le _ _

theorem length_chunk_eq_zero_iff : ((f.chunk k).length : Int) = 0 ↔ f.numChunks ≤ k := by
  rw [← f.chunk_eq_nil_iff, ← List.length_eq_zero_iff]
  omega

theorem numChunks_eq_zero_iff : f.numChunks = 0 ↔ f.contents = [] := by
  rw [← Nat.le_zero, ← f.drop_eq_nil_iff, Nat.mul_zero, List.drop_zero]

end File

/-- The empty stat block that ends a batch. -/
def lastStatBlk : List UInt8 := SOH :: restOf 0 (padded 0 [])

/-! ## The script of a batch -/

inductive Item where
  | blk (bytes : List UInt8)
  | eot
deriving DecidableEq

/-- What is sent of a file from chunk `k` on: each chunk on an ACK, the first one on a 'C',
and then an EOT on an ACK, or on a 'C' when there was no chunk. -/
def File.dataScript (f : File) (k : Nat) : List (Item × Mesg) :=
  (List.range' k (f.numChunks - k)).map
      (fun j => (.blk (f.blk (j + 1)), .ser (if j = 0 then NCG else ACK))) ++
    [(.eot, .ser (if f.contents = [] then NCG else ACK))]

def File.script (f : File) : List (Item × Mesg) := (.blk (f.blk 0), .ser NCG) :: f.dataScript 0

/-- The files one after the other, and the empty stat block. -/
def batchScript (files : List File) : List (Item × Mesg) :=
  files.flatMap File.script ++ [(.blk lastStatBlk, .ser NCG)]

theorem File.dataScript_next {f : File} {k : Nat} (h : k < f.numChunks) :
    f.dataScript k =
      (.blk (f.blk (k + 1)), .ser (if k = 0 then NCG else ACK)) :: f.dataScript (k + 1) := by
  have hn : f.numChunks - k = f.numChunks - (k + 1) + 1 := by omega
  rw [File.dataScript, hn, List.range'_succ]
  rfl

theorem File.dataScript_end {f : File} {k : Nat} (h : f.numChunks ≤ k) :
    f.dataScript k = [(.eot, .ser (if f.contents = [] then NCG else ACK))] := by
  rw [File.dataScript, Nat.sub_eq_zero_of_le h]
  rfl

theorem batchScript_cons (f : File) (files : List File) :
    batchScript (f :: files) =
      (.blk (f.blk 0), .ser NCG) :: (f.dataScript 0 ++ batchScript files) := by
  simp [batchScript, File.script]

/-! ## The double buffer -/

/-- The stat block of `f` has been prepared. -/
structure Prepared (f : File) (s : SenderY) : Prop where
  fileName : s.fileName = some f
  blkNum : s.blkNum = 0
  unread : s.unread = f.contents
  stat : (s.blkBufs (bufOf 0)).val = f.blk 0

/-- The block of `f` with number `k` has been sent, and the next one has been prepared. -/
structure Reading (f : File) (k : Nat) (s : SenderY) : Prop where
  fileName : s.fileName = some f
  blkNum : s.blkNum = UInt8.ofNat (k + 1)
  bytesRd : s.bytesRd = (f.chunk k).length
  unread : s.unread = f.contents.drop (CHUNK_SZ * (k + 1))
  sent : (s.blkBufs (bufOf (UInt8.ofNat k))).val = f.blk k
  next : k < f.numChunks → (s.blkBufs (bufOf (UInt8.ofNat (k + 1)))).val = f.blk (k + 1)

/-- The empty stat block has been prepared. -/
structure LastPrepared (s : SenderY) : Prop where
  fileName : s.fileName = none
  blkNum : s.blkNum = 0
  stat : (s.blkBufs (bufOf 0)).val = lastStatBlk

/-- The empty stat block has been sent. -/
structure LastSent (s : SenderY) : Prop where
  fileName : s.fileName = none
  blkNum : s.blkNum = 1
  stat : (s.blkBufs (bufOf 0)).val = lastStatBlk

section Buffer

variable {f : File} {k : Nat} {s s' : SenderY}

theorem ofNat_succ (k : Nat) : UInt8.ofNat (k + 1) = UInt8.ofNat k + 1 := by
  rw [UInt8.ofNat_add]
  rfl

theorem Prepared.current (h : Prepared f s) : s.current = f.blk 0 := by
  rw [SenderY.current, h.blkNum, h.stat]

theorem LastPrepared.current (h : LastPrepared s) : s.current = lastStatBlk := by
  rw [SenderY.current, h.blkNum, h.stat]

theorem Reading.current (h : Reading f k s) (hk : k < f.numChunks) : s.current = f.blk (k + 1) := by
  rw [SenderY.current, h.blkNum, h.next hk]

/-- The buffer that `resendBlk` takes. -/
theorem Reading.previous (h : Reading f k s) : (s.blkBufs (bufOf (s.blkNum - 1))).val = f.blk k := by
  have hprev : s.blkNum - 1 = UInt8.ofNat k := by
    rw [h.blkNum, ofNat_succ, UInt8.add_sub_cancel]
  rw [hprev, h.sent]

theorem LastSent.previous (h : LastSent s) : (s.blkBufs (bufOf (s.blkNum - 1))).val = lastStatBlk := by
  rw [h.blkNum]
  exact h.stat

theorem Reading.bytesRd_eq_zero_iff (h : Reading f k s) : s.bytesRd = 0 ↔ f.numChunks ≤ k := by
  rw [h.bytesRd, f.length_chunk_eq_zero_iff]

/-- While the block with number `k` is sent, the one with number `k + 1` is prepared. -/
private theorem reading_of_nextSent (hfile : s.fileName = some f) (hnum : s.blkNum = UInt8.ofNat k)
    (hread : s.unread = f.contents.drop (CHUNK_SZ * k)) (hblk : s.current = f.blk k)
    (h : NextSent s s') : Reading f k s' := by
  have hother : bufOf s.blkNum ≠ bufOf (s.blkNum + 1) := (bufOf_add_one _).symm
  cases h with
  | noFile hf =>
    rw [hfile] at hf
    cases hf
  | readAhead blk hf hfd hnext =>
    constructor
    case fileName => exact hfile
    case blkNum => rw [ofNat_succ, ← hnum]
    case bytesRd => rw [File.chunk, ← hread]
    case unread => rw [hread, List.drop_drop, Nat.mul_add, Nat.mul_one]
    case sent =>
      rw [← hnum]
      show (Function.update s.blkBufs (bufOf (s.blkNum + 1)) blk (bufOf s.blkNum)).val = _
      rw [Function.update_of_ne hother]
      exact hblk
    case next =>
      intro hk
      have hne : s.unread ≠ [] := by
        rw [hread, ne_eq, f.drop_eq_nil_iff]
        omega
      rw [ofNat_succ, ← hnum]
      show (Function.update s.blkBufs (bufOf (s.blkNum + 1)) blk (bufOf (s.blkNum + 1))).val = _
      rw [Function.update_self, hnext hne, hnum, ← ofNat_succ, hread]
      rfl

/-- The stat block is sent and the first chunk prepared. -/
theorem Prepared.sendBlkPrepNext (hp : Prepared f s) (h : s.sendBlkPrepNext = .ok s') :
    Reading f 0 s' :=
  reading_of_nextSent hp.fileName hp.blkNum hp.unread hp.current (SenderY.nextSent h)

/-- The next chunk is sent and the one behind it prepared. -/
theorem Reading.sendBlkPrepNext (hr : Reading f k s) (hk : k < f.numChunks)
    (h : s.sendBlkPrepNext = .ok s') : Reading f (k + 1) s' :=
  reading_of_nextSent hr.fileName hr.blkNum hr.unread (hr.current hk) (SenderY.nextSent h)

theorem LastPrepared.sendBlkPrepNext (hp : LastPrepared s) (h : s.sendBlkPrepNext = .ok s') :
    LastSent s' := by
  cases SenderY.nextSent h with
  | noFile hf => exact ⟨hf, by rw [hp.blkNum]; rfl, hp.stat⟩
  | readAhead blk hf _ _ => exact absurd hp.fileName hf

/-- A file that `genStatBlk` returns for. -/
theorem genStatBlk_blk {blkBuf blk : Blk} (hne : f.name ≠ [])
    (h : blkBuf.genStatBlk f.name f.contents.length = .ok blk) : blk.val = f.blk 0 := by
  by_cases hfits : Fits f.name f.contents.length
  · obtain ⟨b, hb, hv⟩ := blkBuf.genStatBlk_named hne hfits
    rw [hb] at h
    cases h
    exact hv
  · rw [blkBuf.genStatBlk_not_fits hne hfits] at h
    cases h

/-- The stat block of a file that could be opened. -/
theorem prepared_of_statPrepared {env : Env} (hfile : s.fileNames[s.fileNameIndex]? = some f)
    (hne : f.name ≠ []) (hfd : s'.transferringFileD ≠ -1) (h : StatPrepared env s s') :
    Prepared f s' := by
  cases h with
  | openError _ _ _ => exact absurd rfl hfd
  | opened file blk hfile' _ hblk =>
    cases hfile.symm.trans hfile'
    refine ⟨rfl, rfl, rfl, ?_⟩
    show (Function.update s.blkBufs 0 blk (bufOf 0)).val = _
    rw [show bufOf 0 = 0 from rfl, Function.update_self]
    exact genStatBlk_blk hne hblk
  | noMore _ hfile' _ => cases hfile.symm.trans hfile'

theorem lastPrepared_of_statPrepared {env : Env} (hfile : s.fileNames[s.fileNameIndex]? = none)
    (h : StatPrepared env s s') : LastPrepared s' := by
  cases h with
  | openError _ hfile' _ => cases hfile.symm.trans hfile'
  | opened _ _ hfile' _ _ => cases hfile.symm.trans hfile'
  | noMore blk _ hblk =>
    refine ⟨rfl, rfl, ?_⟩
    show (Function.update s.blkBufs 0 blk (bufOf 0)).val = _
    rw [show bufOf 0 = 0 from rfl, Function.update_self]
    exact hblk

end Buffer

end YModem.Sender
