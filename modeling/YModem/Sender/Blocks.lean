import YModem.Sender.Context

/-!
# What the sender's functions do

`genStatBlk` and `genBlk` fill a block whatever it held before; the member functions
change what the inductive types below list.
-/

namespace YModem.Sender

open YModem.Lib YModem.Peer YModem.SmartState

/-! ## The blocks that are prepared -/

section Blocks

variable (blkBuf : Blk)

theorem Blk.store_ok (i : Nat) (bs : List UInt8) (h : i + bs.length ≤ BLK_SZ_CRC) :
    ∃ blk, blkBuf.store i bs = .ok blk ∧ blk.val = overwrite blkBuf.val i bs :=
  ⟨_, dif_pos h, rfl⟩

/-- A block, taken apart. -/
theorem Blk.exists_parts : ∃ a b c chunk crc, blkBuf.val = a :: b :: c :: (chunk ++ crc) ∧
    chunk.length = CHUNK_SZ ∧ crc.length = 2 := by
  obtain ⟨bytes, hl⟩ := blkBuf
  match bytes, hl with
  | a :: b :: c :: rest, hl =>
    have hrest : rest.length = CHUNK_SZ + 2 := by
      simp only [List.length_cons, BLK_SZ_CRC, REST_BLK_SZ_CRC] at hl
      omega
    refine ⟨a, b, c, rest.take CHUNK_SZ, rest.drop CHUNK_SZ, by simp, ?_, ?_⟩
    · rw [List.length_take]
      omega
    · rw [List.length_drop]
      omega

/-- Two bytes are stored behind the chunk. -/
theorem Blk.store_behind {num : UInt8} {chunk crc : List UInt8}
    (hv : blkBuf.val = SOH :: num :: ~~~num :: (chunk ++ crc)) (hlen : chunk.length = CHUNK_SZ)
    (hcrc : crc.length = 2) {bytes : List UInt8} (hb : bytes.length = 2) :
    blkBuf.chunk = chunk ∧ ∃ blk, blkBuf.store PAST_CHUNK bytes = .ok blk ∧
      blk.val = SOH :: num :: ~~~num :: (chunk ++ bytes) := by
  refine ⟨by rw [Blk.chunk, hv, ← hlen]; simp, ?_⟩
  obtain ⟨blk, hs, hval⟩ := blkBuf.store_ok PAST_CHUNK bytes (by rw [hb]; decide)
  refine ⟨blk, hs, ?_⟩
  have hright := overwrite_append_right chunk bytes (hb.trans hcrc.symm)
  rw [hlen] at hright
  rw [hval, hv, show PAST_CHUNK = CHUNK_SZ + 1 + 1 + 1 from rfl]
  simp only [overwrite_cons_succ, hright]

/-- The checksum is stored behind the chunk. -/
theorem Blk.seal {num : UInt8} {chunk crc : List UInt8}
    (hv : blkBuf.val = SOH :: num :: ~~~num :: (chunk ++ crc)) (hlen : chunk.length = CHUNK_SZ)
    (hcrc : crc.length = 2) :
    ∃ blk, blkBuf.store PAST_CHUNK (crc16ns blkBuf.chunk) = .ok blk ∧
      blk.val = SOH :: restOf num chunk := by
  obtain ⟨hchunk, blk, hs, hb⟩ := blkBuf.store_behind hv hlen hcrc (crc16ns_length chunk)
  exact ⟨blk, by rw [hchunk, hs], hb⟩

/-- A chunk written from its first byte on and then filled up. -/
theorem overwrite_padded {chunk bs : List UInt8} (fill : UInt8) (hlen : chunk.length = CHUNK_SZ)
    (h : bs.length ≤ CHUNK_SZ) :
    overwrite (overwrite chunk 0 bs) bs.length (List.replicate (CHUNK_SZ - bs.length) fill) =
      padded fill bs := by
  have hadj := @overwrite_overwrite_adjacent UInt8 chunk 0 bs
    (List.replicate (CHUNK_SZ - bs.length) fill) (by omega)
  rw [Nat.zero_add] at hadj
  rw [hadj]
  exact overwrite_all (by simp only [List.length_append, List.length_replicate]; omega)

/-- The stores of a data block before its checksum: the bytes read, the head of the block and
the CTRL-Z bytes. -/
theorem Blk.store_data (blkNum : UInt8) {bytes : List UInt8} (h : bytes.length ≤ CHUNK_SZ) :
    ∃ b₁ b₂ b₃ b₄ b₅, blkBuf.store DATA_POS bytes = .ok b₁ ∧ b₁.store 0 [SOH] = .ok b₂ ∧
      b₂.store 1 [blkNum] = .ok b₃ ∧ b₃.store 2 [~~~blkNum] = .ok b₄ ∧
      b₄.store (DATA_POS + bytes.length) (List.replicate (CHUNK_SZ - bytes.length) CTRL_Z) = .ok b₅ ∧
      ∃ crc, b₅.val = SOH :: blkNum :: ~~~blkNum :: (padded CTRL_Z bytes ++ crc) ∧
        crc.length = 2 := by
  obtain ⟨a, b, c, chunk, crc, hv, hlen, hcrc⟩ := blkBuf.exists_parts
  have hin : DATA_POS + CHUNK_SZ ≤ BLK_SZ_CRC := by decide
  obtain ⟨b₁, h₁, hv₁⟩ := blkBuf.store_ok DATA_POS bytes (by omega)
  obtain ⟨b₂, h₂, hv₂⟩ := b₁.store_ok 0 [SOH] (show 0 + 1 ≤ BLK_SZ_CRC by decide)
  obtain ⟨b₃, h₃, hv₃⟩ := b₂.store_ok 1 [blkNum] (show 1 + 1 ≤ BLK_SZ_CRC by decide)
  obtain ⟨b₄, h₄, hv₄⟩ := b₃.store_ok 2 [~~~blkNum] (show 2 + 1 ≤ BLK_SZ_CRC by decide)
  obtain ⟨b₅, h₅, hv₅⟩ := b₄.store_ok (DATA_POS + bytes.length)
    (List.replicate (CHUNK_SZ - bytes.length) CTRL_Z)
    (by rw [List.length_replicate]; omega)
  refine ⟨b₁, b₂, b₃, b₄, b₅, h₁, h₂, h₃, h₄, h₅, crc, ?_, hcrc⟩
  have hchunk : overwrite (chunk ++ crc) 0 bytes = overwrite chunk 0 bytes ++ crc :=
    overwrite_append_left _ crc _ (by omega)
  have hlen' : (overwrite chunk 0 bytes).length = CHUNK_SZ := by
    rw [length_overwrite (by omega), hlen]
  have hfill := overwrite_append_left (overwrite chunk 0 bytes) crc (i := bytes.length)
    (List.replicate (CHUNK_SZ - bytes.length) CTRL_Z)
    (by rw [List.length_replicate, hlen']; omega)
  rw [hv₅, hv₄, hv₃, hv₂, hv₁, hv, show DATA_POS = 0 + 1 + 1 + 1 from rfl,
    show 0 + 1 + 1 + 1 + bytes.length = bytes.length + 1 + 1 + 1 by omega]
  simp only [overwrite_cons_succ, overwrite_cons_zero, hchunk, hfill,
    overwrite_padded CTRL_Z hlen h]

/-- A data block: the bytes read, filled up with CTRL-Z. -/
theorem Blk.genBlk_spec (blkNum : UInt8) {bytes : List UInt8} (hne : bytes ≠ [])
    (h : bytes.length ≤ CHUNK_SZ) : ∃ blk, blkBuf.genBlk blkNum bytes = .ok blk ∧
      blk.val = SOH :: restOf blkNum (padded CTRL_Z bytes) := by
  have hpos : bytes.length > 0 := List.length_pos_iff.mpr hne
  have hpad : (UInt8.ofNat (CHUNK_SZ - bytes.length)).toNat = CHUNK_SZ - bytes.length := by
    have hsz : CHUNK_SZ = 128 := rfl
    rw [UInt8.toNat_ofNat']
    omega
  obtain ⟨b₁, b₂, b₃, b₄, b₅, h₁, h₂, h₃, h₄, h₅, crc, hv, hcrc⟩ := blkBuf.store_data blkNum h
  obtain ⟨blk, hs, hb⟩ := b₅.seal hv (length_padded h) hcrc
  refine ⟨blk, ?_, hb⟩
  simp only [Blk.genBlk, h₁, h₂, h₃, h₄, hpad, hpos, if_true, h₅, hs, Bind.bind, Except.bind]

/-- The last part of `genStatBlk`: the rest of the chunk is cleared and the block sealed. -/
private theorem Blk.finish_stat {a : UInt8} {chunk crc : List UInt8} (text : List UInt8) (index : Nat)
    (hv : blkBuf.val = a :: 0 :: ~~~0 :: (overwrite chunk 0 text ++ crc))
    (hlen : chunk.length = CHUNK_SZ) (hcrc : crc.length = 2) (ht : text.length ≤ CHUNK_SZ)
    (hindex : index = DATA_POS + text.length) :
    ∃ blk, (do
      let padSize : UInt8 := UInt8.ofNat (CHUNK_SZ + DATA_POS) - UInt8.ofNat index
      let blkBuf ← blkBuf.store index (List.replicate padSize.toNat 0)
      let blkBuf ← blkBuf.store 0 [SOH]
      blkBuf.store PAST_CHUNK (crc16ns blkBuf.chunk)) = Except.ok blk ∧
      blk.val = SOH :: restOf 0 (padded 0 text) := by
  have hsz : CHUNK_SZ = 128 := rfl
  have hmod : (UInt8.ofNat index).toNat = index := by
    rw [UInt8.toNat_ofNat', hindex]
    simp only [DATA_POS]
    omega
  have hpad : (UInt8.ofNat (CHUNK_SZ + DATA_POS) - UInt8.ofNat index).toNat =
      CHUNK_SZ - text.length := by
    have hle : UInt8.ofNat index ≤ UInt8.ofNat (CHUNK_SZ + DATA_POS) := by
      rw [UInt8.le_iff_toNat_le, hmod, hindex]
      show DATA_POS + text.length ≤ 131
      simp only [DATA_POS]
      omega
    rw [UInt8.toNat_sub_of_le _ _ hle, hmod, hindex]
    show 131 - (DATA_POS + text.length) = _
    simp only [DATA_POS]
    omega
  obtain ⟨b₁, h₁, hv₁⟩ := blkBuf.store_ok (index)
    (List.replicate (CHUNK_SZ - text.length) 0) (by
      rw [List.length_replicate, hindex]
      simp only [BLK_SZ_CRC, REST_BLK_SZ_CRC, DATA_POS]
      omega)
  obtain ⟨b₂, h₂, hv₂⟩ := b₁.store_ok 0 [SOH] (show 0 + 1 ≤ BLK_SZ_CRC by decide)
  have hlen' : (overwrite chunk 0 text).length = CHUNK_SZ := by
    rw [length_overwrite (by omega), hlen]
  have hfill := overwrite_append_left (overwrite chunk 0 text) crc (i := text.length)
    (List.replicate (CHUNK_SZ - text.length) 0)
    (by rw [List.length_replicate, hlen']; omega)
  have hv' : b₂.val = SOH :: 0 :: ~~~0 :: (padded 0 text ++ crc) := by
    rw [hv₂, hv₁, hv, hindex,
      show DATA_POS + text.length = text.length + 1 + 1 + 1 by simp only [DATA_POS]; omega]
    simp only [overwrite_cons_succ, overwrite_cons_zero, hfill, overwrite_padded 0 hlen ht]
  obtain ⟨blk, hs, hb⟩ := b₂.seal hv' (length_padded ht) hcrc
  refine ⟨blk, ?_, hb⟩
  simp only [hpad, h₁, h₂, hs, Bind.bind, Except.bind]

/-- The block number of a stat block and its complement. -/
private theorem Blk.start_stat : ∃ b₁ b₂, blkBuf.store 1 [0] = .ok b₁ ∧ b₁.store 2 [~~~0] = .ok b₂ ∧
    ∃ a chunk crc, b₂.val = a :: 0 :: ~~~0 :: (chunk ++ crc) ∧ chunk.length = CHUNK_SZ ∧
      crc.length = 2 := by
  obtain ⟨a, b, c, chunk, crc, hv, hlen, hcrc⟩ := blkBuf.exists_parts
  obtain ⟨b₁, h₁, hv₁⟩ := blkBuf.store_ok 1 [0] (show 1 + 1 ≤ BLK_SZ_CRC by decide)
  obtain ⟨b₂, h₂, hv₂⟩ := b₁.store_ok 2 [~~~0] (show 2 + 1 ≤ BLK_SZ_CRC by decide)
  refine ⟨b₁, b₂, h₁, h₂, a, chunk, crc, ?_, hlen, hcrc⟩
  rw [hv₂, hv₁, hv]
  simp

/-- The stat block that ends a batch. -/
theorem Blk.genStatBlk_empty (st_size : Nat) : ∃ blk, blkBuf.genStatBlk [] st_size = .ok blk ∧
    blk.val = SOH :: restOf 0 (padded 0 []) := by
  obtain ⟨b₁, b₂, h₁, h₂, a, chunk, crc, hv, hlen, hcrc⟩ := blkBuf.start_stat
  obtain ⟨blk, hs, hb⟩ := b₂.finish_stat [] DATA_POS
    (by rw [hv, overwrite_nil]) hlen hcrc (by simp) rfl
  refine ⟨blk, ?_, hb⟩
  unfold Blk.genStatBlk
  rw [h₁, ok_bind, h₂, ok_bind, if_neg (by simp), ok_bind]
  exact hs

/-- The name and the size of a file fit a block of 128 bytes. -/
def Fits (fileName : List UInt8) (st_size : Nat) : Prop :=
  (filename fileName).length + (decimal st_size).length + 2 ≤ CHUNK_SZ

instance (fileName : List UInt8) (st_size : Nat) : Decidable (Fits fileName st_size) :=
  inferInstanceAs (Decidable (_ ≤ _))

/-- The stat block of a file whose name and size fit. -/
theorem Blk.genStatBlk_named {fileName : List UInt8} {st_size : Nat} (hne : fileName ≠ [])
    (hfits : Fits fileName st_size) : ∃ blk, blkBuf.genStatBlk fileName st_size = .ok blk ∧
      blk.val = SOH :: restOf 0 (statChunk (filename fileName) (decimal st_size ++ [0])) := by
  have hsz : CHUNK_SZ = 128 := rfl
  have hbsz : BLK_SZ_CRC = 133 := rfl
  have hpos : DATA_POS = 3 := rfl
  obtain ⟨b₁, b₂, h₁, h₂, a, chunk, crc, hv, hlen, hcrc⟩ := blkBuf.start_stat
  unfold Blk.genStatBlk
  rw [h₁, ok_bind, h₂, ok_bind, if_pos hne]
  rw [Fits] at hfits
  generalize filename fileName = name at hfits ⊢
  generalize decimal st_size = digits at hfits ⊢
  have hname : (name ++ [0]).length = name.length + 1 := List.length_append
  have hdigits : (digits ++ [0]).length = digits.length + 1 := List.length_append
  obtain ⟨b₃, h₃, hv₃⟩ := b₂.store_ok DATA_POS (name ++ [0]) (by omega)
  obtain ⟨b₄, h₄, hv₄⟩ := b₃.store_ok (DATA_POS + (name.length + 1)) (digits ++ [0])
    (by omega)
  have htake : digits.take (CHUNK_SZ + DATA_POS - (DATA_POS + (name.length + 1)) - 1) = digits :=
    List.take_of_length_le (by omega)
  have htext : ((name ++ [0]) ++ (digits ++ [0])).length = name.length + 1 + (digits.length + 1) := by
    rw [List.length_append, hname, hdigits]
  have hv' : b₄.val = a :: 0 :: ~~~0 ::
      (overwrite chunk 0 ((name ++ [0]) ++ (digits ++ [0])) ++ crc) := by
    have hfirst := overwrite_append_left chunk crc (i := 0) (name ++ [0]) (by omega)
    have hl : (overwrite chunk 0 (name ++ [0])).length = CHUNK_SZ := by
      rw [length_overwrite (by omega), hlen]
    have hsecond := overwrite_append_left (overwrite chunk 0 (name ++ [0])) crc
      (i := name.length + 1) (digits ++ [0]) (by omega)
    have hadj := @overwrite_overwrite_adjacent UInt8 chunk 0 (name ++ [0]) (digits ++ [0]) (by omega)
    rw [Nat.zero_add, hname] at hadj
    rw [hv₄, hv₃, hv, show DATA_POS = 0 + 1 + 1 + 1 from rfl,
      show 0 + 1 + 1 + 1 + (name.length + 1) = name.length + 1 + 1 + 1 + 1 by omega]
    simp only [overwrite_cons_succ, hfirst, hsecond, hadj]
  obtain ⟨blk, hs, hb⟩ := b₄.finish_stat _ (DATA_POS + (name.length + 1) + (digits.length + 1)) hv'
    hlen hcrc (by omega) (by omega)
  refine ⟨blk, ?_, by rw [hb, statChunk]; simp⟩
  rw [if_neg (by omega), h₃, ok_bind]
  simp only [htake]
  rw [h₄, ok_bind, if_neg (by omega), ok_bind]
  exact hs

/-- When they do not fit `genStatBlk` exits, unless the digits end where the chunk ends: then
the pad size wraps and `memset` leaves the block. -/
theorem Blk.genStatBlk_not_fits {fileName : List UInt8} {st_size : Nat} (hne : fileName ≠ [])
    (hfits : ¬ Fits fileName st_size) : blkBuf.genStatBlk fileName st_size =
      .error (if (filename fileName).length + 1 + (decimal st_size).length = CHUNK_SZ then
        .undefinedBehaviour else .exited) := by
  have hsz : CHUNK_SZ = 128 := rfl
  have hbsz : BLK_SZ_CRC = 133 := rfl
  have hpos : DATA_POS = 3 := rfl
  have hdigits : 0 < (decimal st_size).length := List.length_pos_of_ne_nil (decimal_ne_nil st_size)
  rw [Fits] at hfits
  obtain ⟨b₁, b₂, h₁, h₂, -⟩ := blkBuf.start_stat
  unfold Blk.genStatBlk
  rw [h₁, ok_bind, h₂, ok_bind, if_pos hne]
  by_cases hname : (filename fileName).length + 1 + 1 > CHUNK_SZ
  · rw [if_pos hname, error_bind, if_neg (by omega)]
  obtain ⟨b₃, h₃, -⟩ := b₂.store_ok DATA_POS (filename fileName ++ [0]) (by
    simp only [List.length_append, List.length_singleton]
    omega)
  obtain ⟨b₄, h₄, -⟩ := b₃.store_ok (DATA_POS + ((filename fileName).length + 1))
    ((decimal st_size).take (CHUNK_SZ + DATA_POS -
      (DATA_POS + ((filename fileName).length + 1)) - 1) ++ [0]) (by
    simp only [List.length_append, List.length_singleton, List.length_take]
    omega)
  rw [if_neg hname, h₃, ok_bind]
  simp only [h₄, ok_bind]
  by_cases hover : (decimal st_size).length >
      CHUNK_SZ + DATA_POS - (DATA_POS + ((filename fileName).length + 1))
  · rw [if_pos hover, error_bind, if_neg (by omega)]
  have hindex : DATA_POS + ((filename fileName).length + 1) + ((decimal st_size).length + 1) = 132 := by
    omega
  have hlong : ¬ (132 + (List.replicate ((UInt8.ofNat (CHUNK_SZ + DATA_POS) - UInt8.ofNat 132).toNat)
      (0 : UInt8)).length ≤ BLK_SZ_CRC) := by
    rw [List.length_replicate]
    decide
  rw [if_neg hover, if_pos (by omega)]
  simp only [hindex]
  rw [show b₄.store 132 (List.replicate _ 0) = .error .undefinedBehaviour from dif_neg hlong,
    error_bind]

end Blocks

/-! ## The member functions -/

section Members

variable {env : Env} {s s' : SenderY}

/-- The chunk that the read-ahead finds. -/
theorem SenderY.genBlk_spec (i : Fin 2) (hfd : 0 ≤ s.transferringFileD) :
    ∃ blk, s.genBlk i = .ok { s with
        bytesRd := (s.unread.take CHUNK_SZ).length
        unread := s.unread.drop CHUNK_SZ
        blkBufs := Function.update s.blkBufs i blk } ∧
      (s.unread ≠ [] → blk.val = SOH :: restOf s.blkNum (padded CTRL_Z (s.unread.take CHUNK_SZ))) := by
  unfold SenderY.genBlk
  rw [if_neg (by omega)]
  by_cases hne : s.unread = []
  · have hnil : s.unread.take CHUNK_SZ = [] := by rw [hne, List.take_nil]
    obtain ⟨blk, hs, -⟩ := (s.blkBufs i).store_ok DATA_POS []
      (show DATA_POS + 0 ≤ BLK_SZ_CRC by decide)
    refine ⟨blk, ?_, fun h => absurd hne h⟩
    have hg : (s.blkBufs i).genBlk s.blkNum [] = .ok blk := by
      unfold Blk.genBlk
      rw [hs, ok_bind]
      rfl
    simp only [hnil, hg, ok_bind]
    rfl
  · obtain ⟨blk, hg, hv⟩ := @Blk.genBlk_spec (s.blkBufs i) s.blkNum (s.unread.take CHUNK_SZ)
      (by simp [hne]) (List.length_take_le _ _)
    refine ⟨blk, ?_, fun _ => hv⟩
    simp only [hg, ok_bind]
    rfl

/-- The outcomes of `closeTransferredFile`; a failing `myClose` exits the process. -/
theorem SenderY.closeTransferredFile_spec : s.closeTransferredFile env = .ok s' ↔
    (s.transferringFileD ≤ -1 ∧ s' = s) ∨ (-1 < s.transferringFileD ∧ env.close ≠ -1 ∧
      s' = { s with
        transferringFileD := -1
        calls := s.calls ++ [.close s.transferringFileD env.close] }) := by
  unfold SenderY.closeTransferredFile
  by_cases hfd : s.transferringFileD > -1
  · rw [if_pos hfd]
    by_cases hc : env.close = -1
    · rw [if_pos hc]
      simp only [reduceCtorEq, hc, ne_eq, not_true_eq_false, false_and, and_false, or_false, false_iff,
        not_and]
      intro hle
      omega
    · rw [if_neg hc]
      constructor
      · intro h
        cases h
        exact .inr ⟨hfd, hc, rfl⟩
      · rintro (⟨hle, -⟩ | ⟨-, -, rfl⟩)
        · omega
        · rfl
  · rw [if_neg hfd]
    constructor
    · intro h
      cases h
      exact .inl ⟨by omega, rfl⟩
    · rintro (⟨-, rfl⟩ | ⟨hlt, -⟩)
      · rfl
      · omega

/-- The next block goes into the other buffer. -/
theorem bufOf_add_one (n : UInt8) : bufOf (n + 1) ≠ bufOf n := by
  intro h
  have hval := congrArg Fin.val h
  simp only [bufOf, UInt8.toNat_add, UInt8.reduceToNat] at hval
  omega

/-- The block that `sendBlkPrepNext` sends. -/
def SenderY.current (s : SenderY) : List UInt8 := (s.blkBufs (bufOf s.blkNum)).val

/-- The outcomes of `sendBlkPrepNext`, without and with a file to read ahead in. -/
inductive NextSent (s : SenderY) : SenderY → Prop where
  | noFile (hf : s.fileName = none) :
      NextSent s { s with
        blkNum := s.blkNum + 1
        calls := s.calls ++ [.sendBlk true s.current] }
  | readAhead (blk : Blk) (hf : s.fileName ≠ none) (hfd : 0 ≤ s.transferringFileD)
      (hblk : s.unread ≠ [] →
        blk.val = SOH :: restOf (s.blkNum + 1) (padded CTRL_Z (s.unread.take CHUNK_SZ))) :
      NextSent s { s with
        blkNum := s.blkNum + 1
        bytesRd := (s.unread.take CHUNK_SZ).length
        unread := s.unread.drop CHUNK_SZ
        blkBufs := Function.update s.blkBufs (bufOf (s.blkNum + 1)) blk
        calls := s.calls ++ [.sendBlk true s.current] }

theorem SenderY.sendBlkPrepNext_spec (h : s.fileName = none ∨ 0 ≤ s.transferringFileD) :
    ∃ s', s.sendBlkPrepNext = .ok s' ∧ NextSent s s' := by
  unfold SenderY.sendBlkPrepNext
  by_cases hf : s.fileName = none
  · refine ⟨_, ?_, .noFile hf⟩
    rw [if_neg (by simp [hf])]
    rfl
  · have hfd := h.resolve_left hf
    obtain ⟨blk, hs, hv⟩ := @SenderY.genBlk_spec { s with
      blkNum := s.blkNum + 1, calls := s.calls ++ [.sendBlk true s.current] }
      (bufOf (s.blkNum + 1)) hfd
    exact ⟨_, (if_pos (Option.isSome_iff_ne_none.mpr hf)).trans hs, .readAhead blk hf hfd hv⟩

theorem SenderY.genBlk_fault (i : Fin 2) (hfd : s.transferringFileD < 0) :
    s.genBlk i = .error .exited := if_pos hfd

/-- What a `sendBlkPrepNext` that returns has done. -/
theorem SenderY.nextSent (h : s.sendBlkPrepNext = .ok s') : NextSent s s' := by
  by_cases hok : s.fileName = none ∨ 0 ≤ s.transferringFileD
  · obtain ⟨t, ht, hn⟩ := SenderY.sendBlkPrepNext_spec hok
    rw [ht] at h
    cases h
    exact hn
  · obtain ⟨hf, hfd⟩ := not_or.mp hok
    have herr : s.sendBlkPrepNext = .error .exited :=
      (if_pos (Option.isSome_iff_ne_none.mpr hf)).trans
        (SenderY.genBlk_fault _ (show s.transferringFileD < 0 by omega))
    rw [herr] at h
    cases h

/-- The outcomes of `prepStatBlk`: a file that cannot be opened, a file, and no more
files. -/
inductive StatPrepared (env : Env) (s : SenderY) : SenderY → Prop where
  | openError (file : File) (hfile : s.fileNames[s.fileNameIndex]? = some file)
      (hfd : env.opened = -1) :
      StatPrepared env s { s with
        blkNum := 0
        fileName := some file
        fileNameIndex := s.fileNameIndex + 1
        transferringFileD := -1
        unread := file.contents
        calls := s.calls ++ [.openFile file.name s.transferringFileD (-1)] }
  | opened (file : File) (blk : Blk) (hfile : s.fileNames[s.fileNameIndex]? = some file)
      (hfd : env.opened ≠ -1)
      (hblk : (s.blkBufs 0).genStatBlk file.name file.contents.length = .ok blk) :
      StatPrepared env s { s with
        blkNum := 0
        fileName := some file
        fileNameIndex := s.fileNameIndex + 1
        transferringFileD := env.opened
        unread := file.contents
        blkBufs := Function.update s.blkBufs 0 blk
        calls := s.calls ++ [.openFile file.name s.transferringFileD env.opened] }
  | noMore (blk : Blk) (hfile : s.fileNames[s.fileNameIndex]? = none)
      (hblk : blk.val = SOH :: restOf 0 (padded 0 [])) :
      StatPrepared env s { s with
        blkNum := 0
        fileName := none
        transferringFileD := -2
        blkBufs := Function.update s.blkBufs 0 blk }

theorem SenderY.prepStatBlk_noMore (hfile : s.fileNames[s.fileNameIndex]? = none) :
    ∃ s', s.prepStatBlk env = .ok s' ∧ StatPrepared env s s' := by
  obtain ⟨blk, hs, hv⟩ := (s.blkBufs 0).genStatBlk_empty 0
  refine ⟨_, ?_, .noMore blk hfile hv⟩
  simp only [SenderY.prepStatBlk, hfile, SenderY.genStatBlk, hs, ok_bind]
  rfl

theorem SenderY.prepStatBlk_some {file : File}
    (hfile : s.fileNames[s.fileNameIndex]? = some file) (hfd : env.opened ≠ -1) :
    s.prepStatBlk env = (s.blkBufs 0).genStatBlk file.name file.contents.length >>= fun blk =>
      .ok { s with
        blkNum := 0
        fileName := some file
        fileNameIndex := s.fileNameIndex + 1
        transferringFileD := env.opened
        unread := file.contents
        blkBufs := Function.update s.blkBufs 0 blk
        calls := s.calls ++ [.openFile file.name s.transferringFileD env.opened] } := by
  simp only [SenderY.prepStatBlk, hfile]
  exact if_pos hfd

/-- What a `prepStatBlk` that returns has done. -/
theorem SenderY.statPrepared (h : s.prepStatBlk env = .ok s') : StatPrepared env s s' := by
  cases hfile : s.fileNames[s.fileNameIndex]? with
  | none =>
    obtain ⟨t, ht, hp⟩ := @SenderY.prepStatBlk_noMore env s hfile
    rw [ht] at h
    cases h
    exact hp
  | some file =>
    by_cases hfd : env.opened = -1
    · have hopen : s.prepStatBlk env = .ok { s with
          blkNum := 0
          fileName := some file
          fileNameIndex := s.fileNameIndex + 1
          transferringFileD := env.opened
          unread := file.contents
          calls := s.calls ++ [.openFile file.name s.transferringFileD env.opened] } := by
        simp only [SenderY.prepStatBlk, hfile]
        exact if_neg (not_not.mpr hfd)
      rw [hopen] at h
      cases h
      rw [hfd]
      exact .openError file hfile hfd
    · rw [SenderY.prepStatBlk_some hfile hfd] at h
      cases hblk : (s.blkBufs 0).genStatBlk file.name file.contents.length with
      | error f =>
        rw [hblk, error_bind] at h
        cases h
      | ok blk =>
        rw [hblk, ok_bind] at h
        cases h
        exact .opened file blk hfile hfd hblk

end Members

end YModem.Sender
