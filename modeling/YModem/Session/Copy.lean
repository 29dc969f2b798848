import YModem.Receiver.Accept
import YModem.Receiver.Output
import YModem.Sender.Script

/-!
# The blocks of a file, as the receiver reads them

Every block that the sender prepares is intact, its number is counted modulo 256, and the
payloads of the first data blocks, cut to the size announced in the stat block, are the
first bytes of the file.
-/

namespace YModem.Session

open YModem.Lib YModem.Peer YModem.Sender YModem.Receiver

/-- A file that a batch can carry: its basename is not empty, the basename and the size
fit the stat block, and the size fits an `int`. -/
structure Sendable (f : File) : Prop where
  named : filename f.name ≠ []
  fits : Fits f.name f.contents.length
  size : f.contents.length < INT_RANGE

instance (f : File) : Decidable (Sendable f) :=
  decidable_of_iff (filename f.name ≠ [] ∧ Fits f.name f.contents.length ∧
      f.contents.length < INT_RANGE)
    ⟨fun ⟨h₁, h₂, h₃⟩ => ⟨h₁, h₂, h₃⟩, fun ⟨h₁, h₂, h₃⟩ => ⟨h₁, h₂, h₃⟩⟩

theorem Sendable.name_ne_nil {f : File} (h : Sendable f) : f.name ≠ [] := by
  intro hn
  exact h.named (by rw [hn]; rfl)

/-- The chunk of the block with a given number. -/
def payload (f : File) : Nat → List UInt8
  | 0 => statChunk (filename f.name) (decimal f.contents.length ++ [0])
  | k + 1 => padded CTRL_Z (f.chunk k)

section Blocks

variable {f : File}

theorem blk_eq (k : Nat) : f.blk k = SOH :: restOf (UInt8.ofNat k) (payload f k) := by
  cases k <;> rfl

theorem length_payload (h : Sendable f) (k : Nat) : (payload f k).length = CHUNK_SZ := by
  have hfits := h.fits
  cases k with
  | zero =>
    apply length_statChunk
    rw [List.length_append, List.length_singleton]
    unfold Fits at hfits
    omega
  | succ k => exact length_padded (f.length_chunk_le k)

theorem length_blk (h : Sendable f) (k : Nat) : (f.blk k).length = BLK_SZ_CRC := by
  rw [blk_eq, List.length_cons, length_restOf _ (length_payload h k), Nat.add_comm]

theorem intact_blk (h : Sendable f) (k : Nat) : Intact (f.blk k).tail := by
  rw [blk_eq]
  exact restOf_intact _ (length_payload h k)

@[simp] theorem blkNumOf_blk (k : Nat) : blkNumOf (f.blk k).tail = UInt8.ofNat k := by
  rw [blk_eq]
  rfl

theorem payloadOf_blk (h : Sendable f) (k : Nat) : payloadOf (f.blk k).tail = payload f k := by
  rw [blk_eq]
  exact payloadOf_restOf _ (length_payload h k)

theorem length_lastStatBlk : lastStatBlk.length = BLK_SZ_CRC := by
  rw [lastStatBlk, List.length_cons, length_restOf _ (length_padded (by simp)), Nat.add_comm]

theorem intact_lastStatBlk : Intact lastStatBlk.tail := restOf_intact 0 (length_padded (by simp))

/-- The stat block of a file tells its name and its size. -/
theorem statText_blk (h : Sendable f) (blk : RcvBlk) {rest : List UInt8}
    (hrest : rest = (f.blk 0).tail) (hle : rest.length ≤ BUF_SZ - 1) :
    StatText (blk.read rest hle) (filename f.name) f.contents.length := by
  have hname : 0 ∉ filename f.name := nul_notMem_filename f.nul_notMem
  have hdig := nul_notMem_decimal f.contents.length
  have hp : payloadOf rest = filename f.name ++ 0 :: (decimal f.contents.length ++ 0 ::
      List.replicate (CHUNK_SZ - (filename f.name ++ 0 :: (decimal f.contents.length ++ [0])).length) 0) := by
    rw [hrest, payloadOf_blk h]
    simp [payload, statChunk, padded]
  exact blk.statText_read _ hle hp hname hdig (stoi_decimal h.size)

/-- The first byte of the chunk of a stat block tells whether there is another file. -/
theorem anotherFile_blk (h : Sendable f) (blk : RcvBlk) {rest : List UInt8}
    (hrest : rest = (f.blk 0).tail) (hle : rest.length ≤ BUF_SZ - 1) :
    (blk.read rest hle).get DATA_POS ≠ 0 := by
  subst hrest
  exact get_dataPos_statChunk blk hle (intact_blk h 0).length_eq (payloadOf_blk h 0) h.named
    (nul_notMem_filename f.nul_notMem)

/-- A stat block that names a file and can be read announces a sendable one. -/
theorem sendable_of_statText (blk : RcvBlk) {rest fileName : List UInt8} {size : Int}
    (hrest : rest = (f.blk 0).tail.take (BUF_SZ - 1)) (hle : rest.length ≤ BUF_SZ - 1)
    (hi : Intact rest) (hfirst : (blk.read rest hle).get DATA_POS ≠ 0)
    (htext : StatText (blk.read rest hle) fileName size) :
    Sendable f ∧ fileName = filename f.name ∧ size = f.contents.length := by
  have hsz : CHUNK_SZ = 128 := rfl
  have hbuf : BUF_SZ - 1 = 162 := rfl
  have hrsz : REST_BLK_SZ_CRC = 132 := rfl
  have hlen := hi.length_eq
  have htail : (f.blk 0).tail = restOf 0 (payload f 0) := by rw [blk_eq]; rfl
  have hpay : (payload f 0).length = CHUNK_SZ := by
    rw [hrest, htail, List.length_take] at hlen
    simp only [restOf, List.length_cons, List.length_append, crc16ns_length] at hlen
    omega
  have hfits : Fits f.name f.contents.length := by
    simp only [payload, statChunk, padded, List.length_append, List.length_cons, List.length_nil,
      List.length_replicate] at hpay
    rw [Fits]
    omega
  have heq : rest = restOf 0 (payload f 0) := by
    rw [hrest, htail]
    exact List.take_of_length_le (by rw [length_restOf 0 hpay]; decide)
  have hname : 0 ∉ filename f.name := nul_notMem_filename f.nul_notMem
  have hp : payloadOf rest = filename f.name ++ 0 :: (decimal f.contents.length ++ 0 ::
      List.replicate (CHUNK_SZ - (filename f.name ++ 0 :: (decimal f.contents.length ++ [0])).length) 0) := by
    rw [heq, payloadOf_restOf 0 hpay]
    simp [payload, statChunk, padded]
  obtain ⟨hfileName, htextAt⟩ := blk.cString_read _ hle hp hname (nul_notMem_decimal _)
  obtain ⟨hfileName', text, htext', hsize⟩ := htext
  cases hfileName.symm.trans hfileName'
  cases htextAt.symm.trans htext'
  rw [stoi_decimal_eq] at hsize
  split_ifs at hsize with hrange
  cases hsize
  refine ⟨⟨fun hnil => hfirst ?_, hfits, hrange⟩, rfl, rfl⟩
  rw [blk.get_dataPos hle hi.length_eq, hp, hnil]
  rfl

theorem anotherFile_lastStatBlk (blk : RcvBlk) {rest : List UInt8}
    (hrest : rest = lastStatBlk.tail) (hle : rest.length ≤ BUF_SZ - 1) :
    (blk.read rest hle).get DATA_POS = 0 := by
  have hp : payloadOf lastStatBlk.tail = padded 0 [] := payloadOf_restOf 0 (length_padded (by simp))
  subst hrest
  rw [blk.get_dataPos hle intact_lastStatBlk.length_eq, hp]
  rfl

end Blocks

/-! ## The data blocks make up the file -/

theorem take_padded {fill : UInt8} {bs : List UInt8} {n : Nat} (h : bs.length = min CHUNK_SZ n) :
    (padded fill bs).take n = bs := by
  rw [padded, List.take_append]
  have htake : bs.take n = bs := List.take_of_length_le (by omega)
  have hpad : (List.replicate (CHUNK_SZ - bs.length) fill).take (n - bs.length) = [] := by
    rw [List.take_eq_nil_iff, List.replicate_eq_nil_iff]
    omega
  rw [htake, hpad, List.append_nil]

/-- The payloads of the first `k` data blocks. -/
def payloads (f : File) (k : Nat) : List (List UInt8) :=
  (List.range k).map fun j => payload f (j + 1)

theorem payloads_succ (f : File) (k : Nat) :
    payloads f (k + 1) = payloads f k ++ [payload f (k + 1)] := by
  rw [payloads, List.range_succ, List.map_append]
  rfl

theorem length_payloads (f : File) (k : Nat) : (payloads f k).length = k := by simp [payloads]

/-- Cut to the size of the file, they are its first bytes. -/
theorem flatten_payloads (f : File) {k : Nat} (hk : k ≤ f.numChunks) :
    (payloads f k).flatten.take f.contents.length = f.contents.take (CHUNK_SZ * k) := by
  have hsz : CHUNK_SZ = 128 := rfl
  induction k with
  | zero => simp [payloads]
  | succ k ih =>
    have hlt : CHUNK_SZ * k < f.contents.length := by
      rw [File.numChunks, hsz] at hk
      rw [hsz]
      omega
    have hlen : (payloads f k).flatten.length = CHUNK_SZ * k := by
      rw [length_flatten_of_forall (n := CHUNK_SZ), length_payloads]
      intro p hp
      obtain ⟨j, -, rfl⟩ := List.mem_map.mp hp
      exact length_padded (f.length_chunk_le j)
    have hchunk : (f.chunk k).length = min CHUNK_SZ (f.contents.length - CHUNK_SZ * k) := by
      rw [File.chunk, List.length_take, List.length_drop]
    rw [payloads_succ, List.flatten_append, List.take_append, ih (by omega), hlen,
      List.flatten_singleton, payload, take_padded hchunk, File.chunk, Nat.mul_succ, List.take_add]

theorem take_numChunks (f : File) : f.contents.take (CHUNK_SZ * f.numChunks) = f.contents := by
  have hsz : CHUNK_SZ = 128 := rfl
  apply List.take_of_length_le
  rw [File.numChunks, hsz]
  omega

/-- The output file bears the name and the size of `f`, and its data blocks are the first
`k` of `f`. -/
structure Copies (f : File) (k : Nat) (o : OutFile) : Prop where
  fileName : o.fileName = filename f.name
  size : o.size = f.contents.length
  statNum : o.statNum = 0
  accepted : o.payloads = payloads f k

section Copies

variable {f : File} {k : Nat} {o : OutFile}

theorem Copies.length_blocks (h : Copies f k o) : o.blocks.length = k := by
  have hlen := congrArg List.length h.accepted
  rwa [length_payloads, OutFile.payloads, List.length_map] at hlen

/-- What has been written of the first blocks is a beginning of the file. -/
theorem Copies.data {w : Nat} (h : Copies f k o) (hk : k ≤ f.numChunks) (hw : w ≤ k)
    (hd : o.data = (o.payloads.take w).flatten.take o.size.toNat) :
    o.data = f.contents.take (CHUNK_SZ * w) := by
  have htake : (payloads f k).take w = payloads f w := by
    rw [payloads, ← List.map_take, List.take_range, min_eq_left hw]
    rfl
  rw [hd, h.accepted, htake, h.size, Int.toNat_natCast]
  exact flatten_payloads f (hw.trans hk)

theorem Copies.push (h : Copies f k o) (num : UInt8) :
    Copies f (k + 1) (o.push num (payload f (k + 1))) where
  fileName := h.fileName
  size := h.size
  statNum := h.statNum
  accepted := by
    have hp : (o.push num (payload f (k + 1))).payloads = o.payloads ++ [payload f (k + 1)] := by
      simp [OutFile.payloads]
    rw [hp, h.accepted, payloads_succ]

theorem Copies.extend (h : Copies f k o) (bs : List UInt8) : Copies f k (o.extend bs) :=
  ⟨h.fileName, h.size, h.statNum, h.accepted⟩

end Copies

end YModem.Session
