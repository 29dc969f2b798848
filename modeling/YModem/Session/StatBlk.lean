import YModem.Session.Copy

/-!
# What a stat block says and how it is read

`genStatBlk` compares the digits that `snprintf` needs with the space that includes the
NUL behind them, so digits that end with the chunk pass the check. The receiver reads the
size with `stoi`, which knows no number above an `int`.
-/

namespace YModem.Session

open YModem.Lib YModem.Peer YModem.SmartState YModem.Sender YModem.Receiver

/-- The data field of a stat block: the basename, the size and zeros up to the end. -/
def statData (fileName : List UInt8) (st_size : Nat) : List UInt8 :=
  filename fileName ++ 0 :: (decimal st_size ++ 0 ::
    List.replicate (CHUNK_SZ - ((filename fileName).length + (decimal st_size).length + 2)) 0)

/-- `genStatBlk` runs out of space, or writes only the block and fills its data field. -/
def StatBlkExact (blkBuf : Blk) (fileName : List UInt8) (st_size : Nat) : Prop :=
  blkBuf.genStatBlk fileName st_size = .error .exited ∨
    ∃ blk, blkBuf.genStatBlk fileName st_size = .ok blk ∧ blk.chunk = statData fileName st_size

section

variable {fileName : List UInt8} {st_size : Nat}

theorem statData_eq : statData fileName st_size =
    statChunk (filename fileName) (decimal st_size ++ [0]) := by
  have hlen : (filename fileName).length + (decimal st_size).length + 2 =
      (filename fileName ++ 0 :: (decimal st_size ++ [0])).length := by
    simp only [List.length_append, List.length_cons, List.length_nil]
    omega
  rw [statData, statChunk, padded, hlen]
  simp

theorem length_statData (hfits : Fits fileName st_size) :
    (statData fileName st_size).length = CHUNK_SZ := by
  rw [Fits] at hfits
  simp only [statData, List.length_append, List.length_cons, List.length_replicate]
  omega

theorem ne_nil_of_filename (hname : filename fileName ≠ []) : fileName ≠ [] := by
  rintro rfl
  exact hname rfl

/-- A stat block that fits, byte for byte. -/
theorem genStatBlk_fits (blkBuf : Blk) (hname : filename fileName ≠ []) (hfits : Fits fileName st_size) :
    ∃ blk, blkBuf.genStatBlk fileName st_size = .ok blk ∧
      blk.val = SOH :: restOf 0 (statData fileName st_size) := by
  rw [statData_eq]
  exact blkBuf.genStatBlk_named (ne_nil_of_filename hname) hfits

theorem chunk_of_val {blk : Blk} {num : UInt8} {payload : List UInt8}
    (hv : blk.val = SOH :: restOf num payload) (hlen : payload.length = CHUNK_SZ) :
    blk.chunk = payload := by
  rw [Blk.chunk, hv]
  exact payloadOf_restOf num hlen

/-- **`genStatBlk` keeps to its block exactly when the digits do not end with the chunk.** -/
theorem statBlkExact_iff (blkBuf : Blk) (hname : filename fileName ≠ []) :
    StatBlkExact blkBuf fileName st_size ↔
      (filename fileName).length + 1 + (decimal st_size).length ≠ CHUNK_SZ := by
  have hne := ne_nil_of_filename hname
  by_cases hfits : Fits fileName st_size
  · obtain ⟨blk, hg, hv⟩ := genStatBlk_fits blkBuf hname hfits
    have hexact : StatBlkExact blkBuf fileName st_size :=
      .inr ⟨blk, hg, chunk_of_val hv (length_statData hfits)⟩
    rw [Fits] at hfits
    exact ⟨fun _ => by omega, fun _ => hexact⟩
  · have hg := blkBuf.genStatBlk_not_fits hne hfits
    constructor
    · intro hexact heq
      rw [if_pos heq] at hg
      rcases hexact with h | ⟨blk, h, -⟩ <;> rw [hg] at h <;> cases h
    · intro hover
      rw [if_neg hover] at hg
      exact .inl hg

theorem statBlkExact_iff_small : StatBlkExact .blank [97] 5 ↔
    (filename [97]).length + 1 + (decimal 5).length ≠ CHUNK_SZ :=
  statBlkExact_iff .blank (by decide)

/-- A name of 126 bytes leaves room for the digit of a file of 5 bytes, but not for the NUL
behind it. -/
theorem statBlkExact_fails : ¬ StatBlkExact .blank (List.replicate 126 97) 5 := by
  have hname : filename (List.replicate 126 97) = List.replicate 126 97 :=
    List.rtakeWhile_eq_self_iff.mpr fun b hb => by
      rw [List.eq_of_mem_replicate hb]
      decide
  have hlen : (filename (List.replicate 126 97)).length + 1 + (decimal 5).length = CHUNK_SZ := by
    rw [hname, List.length_replicate]
    decide
  have hfits : ¬ Fits (List.replicate 126 97) 5 := by
    rw [Fits]
    omega
  have hg := Blk.blank.genStatBlk_not_fits (by simp) hfits
  rw [if_pos hlen] at hg
  intro hexact
  rcases hexact with h | ⟨blk, h, -⟩ <;> rw [hg] at h <;> cases h

/-! ## The receiver's side -/

/-- The receiver when it has read the bytes of a block behind its SOH. -/
def received (blk : Blk) (r : ReceiverY) : ReceiverY :=
  { r with rcvBlk := r.rcvBlk.read blk.val.tail (by
      have hl := blk.property
      rw [List.length_tail, hl]
      decide) }

/-- The receiver takes the block for the announcement of exactly this file. -/
def ReadsBack (env : Receiver.Env) (fileName : List UInt8) (st_size : Nat) (r : ReceiverY) : Prop :=
  r.checkForAnotherFile.anotherFile ≠ 0 ∧ ∃ r', r.checkForAnotherFile.openFileForTransfer env = .ok r' ∧
    r'.calls = r.checkForAnotherFile.calls ++
      [.creat (filename fileName) st_size r.transferringFileD env.creat] ∧
    r'.transferringFileD = env.creat ∧ r'.bytesRemaining = st_size

/-- The two texts of a stat block that fits. -/
theorem received_text {blk : Blk} (hv : blk.val = SOH :: restOf 0 (statData fileName st_size))
    (hname : filename fileName ≠ []) (hnul : 0 ∉ filename fileName) (hfits : Fits fileName st_size)
    (r : ReceiverY) :
    (received blk r).rcvBlk.get DATA_POS ≠ 0 ∧
      cString ((received blk r).rcvBlk.val.drop DATA_POS) = some (filename fileName) ∧
      cString ((received blk r).rcvBlk.val.drop (DATA_POS + (filename fileName).length + 1)) =
        some (decimal st_size) := by
  have htail : blk.val.tail = restOf 0 (statData fileName st_size) := by rw [hv]; rfl
  have hp : payloadOf blk.val.tail = statData fileName st_size := by
    rw [htail]
    exact payloadOf_restOf 0 (length_statData hfits)
  have hlen : blk.val.tail.length = REST_BLK_SZ_CRC := by rw [List.length_tail, blk.property]; rfl
  have hbuf : blk.val.tail.length ≤ BUF_SZ - 1 := by rw [hlen]; decide
  refine ⟨?_, r.rcvBlk.cString_read _ hbuf hp hnul (nul_notMem_decimal st_size)⟩
  exact get_dataPos_statChunk r.rcvBlk hbuf hlen (hp.trans statData_eq) hname hnul

/-- What the receiver makes of a stat block that fits. -/
theorem readsBack_iff {blk : Blk} (hv : blk.val = SOH :: restOf 0 (statData fileName st_size))
    (hname : filename fileName ≠ []) (hnul : 0 ∉ filename fileName) (hfits : Fits fileName st_size)
    (env : Receiver.Env) (r : ReceiverY) :
    ReadsBack env fileName st_size (received blk r) ↔ st_size < INT_RANGE := by
  obtain ⟨hfirst, hfile, htext⟩ := received_text hv hname hnul hfits r
  constructor
  · rintro ⟨-, r', ho, -, -, -⟩
    obtain ⟨name, size, ⟨hname', text, htext', hsize⟩, -⟩ := openFileForTransfer_spec.mp ho
    cases hfile.symm.trans hname'
    cases htext.symm.trans htext'
    by_contra hbig
    rw [stoi_decimal_eq, if_neg hbig] at hsize
    cases hsize
  · intro hsmall
    refine ⟨hfirst, _, openFileForTransfer_spec.mpr ⟨filename fileName, st_size,
      ⟨hfile, decimal st_size, htext, stoi_decimal hsmall⟩, rfl⟩, rfl, rfl, rfl⟩

/-- **The receiver reads a stat block back exactly when the size fits an `int`.** -/
theorem stat_blk_agreement_iff (hname : filename fileName ≠ []) (hnul : 0 ∉ filename fileName)
    (hfits : Fits fileName st_size) (blkBuf : Blk) :
    ∃ blk, blkBuf.genStatBlk fileName st_size = .ok blk ∧ ∀ env r,
      (ReadsBack env fileName st_size (received blk r) ↔ st_size < INT_RANGE) := by
  obtain ⟨blk, hg, hv⟩ := genStatBlk_fits blkBuf hname hfits
  exact ⟨blk, hg, readsBack_iff hv hname hnul hfits⟩

theorem stat_blk_agreement_small : ∃ blk, Blk.blank.genStatBlk [97] 5 = .ok blk ∧ ∀ env r,
    (ReadsBack env [97] 5 (received blk r) ↔ 5 < INT_RANGE) :=
  stat_blk_agreement_iff (by decide) (by decide) (by decide) .blank

/-- The stat block of a file of 2 GiB is built and cannot be read. -/
theorem stat_blk_of_2GiB_unreadable : ∃ blk, Blk.blank.genStatBlk [97] INT_RANGE = .ok blk ∧
    ∀ env r, ¬ ReadsBack env [97] INT_RANGE (received blk r) := by
  obtain ⟨blk, hg, hv⟩ := @genStatBlk_fits [97] INT_RANGE .blank (by decide) (by decide)
  refine ⟨blk, hg, fun env r h => ?_⟩
  exact absurd ((readsBack_iff hv (by decide) (by decide) (by decide) env r).mp h) (Nat.lt_irrefl _)

end

end YModem.Session
