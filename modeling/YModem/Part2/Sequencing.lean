import YModem.Part2.Written

/-!
# The block numbers that the receiver of Part 2 accepts

`getRestBlk` compares the number of a block, a `uint8_t`, with `m_numLastGoodBlk + 1`, an `int`,
so that 0 is never the number behind 255. It has no case for a block that comes again, and it
leaves `m_goodBlk1st` set for a damaged one.
-/

namespace YModem.Part2

open YModem.Lib YModem.Peer YModem.SmartState
open YModem.Sender (Blk)

/-- In some run of `receiveFiles` the bytes behind an SOH are read in the state `r`, and
`getRestBlk` leaves the state `g`. -/
structure ReceivedBlk (r : ReceiverY) (rest : List UInt8) (g : ReceiverY) : Prop where
  reached : ∃ m_rcvBlk reads, (ReceiverY.start m_rcvBlk).receiveFiles reads = .ok r
  wait : r.wait = .restOfStat ∨ r.wait = .restOfBlk
  getRestBlk : r.getRestBlk rest = .ok g

/-- The number of the block that follows the last good one. -/
def IsNext (r : ReceiverY) (rest : List UInt8) : Prop :=
  (blkNumOf rest).toNat = (r.m_numLastGoodBlk.toNat + 1) % 256

/-- Block numbers count modulo 256. -/
structure Sequenced (r : ReceiverY) (rest : List UInt8) (g : ReceiverY) : Prop where
  fileStart : r.wait = .restOfStat → r.m_numLastGoodBlk = 255
  goodBlk1st : g.m_goodBlk1st = true ↔ Intact rest ∧ IsNext r rest
  numLastGoodBlk : g.m_goodBlk1st = true → g.m_numLastGoodBlk = blkNumOf rest
  syncLoss : g.m_syncLoss = true ↔
    Intact rest ∧ ¬ IsNext r rest ∧ blkNumOf rest ≠ r.m_numLastGoodBlk

/-- The block is undamaged, it does not repeat the last good one, its number is not 0 behind
255, and `m_numLastGoodBlk` has been set back when it is block 0 of a file. -/
structure InSequence (r : ReceiverY) (rest : List UInt8) : Prop where
  fileStart : r.wait = .restOfStat → r.m_numLastGoodBlk = 255
  intact : Intact rest
  notRepeated : blkNumOf rest ≠ r.m_numLastGoodBlk
  notWrapped : ¬ (r.m_numLastGoodBlk = 255 ∧ blkNumOf rest = 0)

section

variable {r g : ReceiverY} {rest : List UInt8}

/-- What `getRestBlk` leaves, whatever the block held before. -/
theorem getRestBlk_flags (h : r.getRestBlk rest = .ok g) :
    (Intact rest → (blkNumOf rest).toNat = r.m_numLastGoodBlk.toNat + 1 →
      g.m_goodBlk1st = true ∧ g.m_syncLoss = false ∧ g.m_numLastGoodBlk = blkNumOf rest) ∧
    (Intact rest → (blkNumOf rest).toNat ≠ r.m_numLastGoodBlk.toNat + 1 →
      g.m_goodBlk1st = false ∧ g.m_syncLoss = true) ∧
    (¬ Intact rest → g.m_goodBlk1st = true) := by
  have hlen : rest.length = REST_BLK_SZ_CRC := by
    by_contra hne
    rw [ReceiverY.getRestBlk, if_pos hne] at h
    cases h
  obtain ⟨c, b, d, chunk, crc, hb, -⟩ := r.m_rcvBlk.exists_parts
  obtain ⟨blk, hv, hread⟩ := getRestBlk_eq hb hlen
  rw [hread, judgeBlk_eq (r := { r with m_rcvBlk := blk }) hv hlen] at h
  cases h
  by_cases hi : Intact rest
  · by_cases hn : (blkNumOf rest).toNat = r.m_numLastGoodBlk.toNat + 1 <;> simp [hi, hn]
  · simp [hi]

/-- Without the wrap, the `int` comparison is the one modulo 256. -/
theorem isNext_iff : IsNext r rest ↔
    (blkNumOf rest).toNat = r.m_numLastGoodBlk.toNat + 1 ∨
      (r.m_numLastGoodBlk = 255 ∧ blkNumOf rest = 0) := by
  have hlast := r.m_numLastGoodBlk.toNat_lt
  have hnum := (blkNumOf rest).toNat_lt
  rw [IsNext, ← UInt8.toNat_inj, ← UInt8.toNat_inj]
  simp only [UInt8.reduceToNat]
  omega

/-- **Which blocks are numbered modulo 256**, in any run over any number of files. -/
theorem block_sequencing_iff (h : ReceivedBlk r rest g) :
    Sequenced r rest g ↔ InSequence r rest := by
  obtain ⟨hfirst, hother, hbad⟩ := getRestBlk_flags h.getRestBlk
  constructor
  · rintro ⟨hstart, h1st, -, hloss⟩
    have hi : Intact rest := by
      by_contra hni
      exact hni (h1st.mp (hbad hni)).1
    by_cases hn : (blkNumOf rest).toNat = r.m_numLastGoodBlk.toNat + 1
    · refine ⟨hstart, hi, fun hsame => ?_, fun hwrap => ?_⟩
      · rw [hsame] at hn
        omega
      · rw [hwrap.1, hwrap.2] at hn
        exact absurd hn (by decide)
    · obtain ⟨hset, hlost⟩ := hother hi hn
      obtain ⟨-, hnext, hrep⟩ := hloss.mp hlost
      exact ⟨hstart, hi, hrep, fun hwrap => hnext (isNext_iff.mpr (.inr hwrap))⟩
  · rintro ⟨hstart, hi, hrep, hwrap⟩
    have hiff : IsNext r rest ↔ (blkNumOf rest).toNat = r.m_numLastGoodBlk.toNat + 1 := by
      rw [isNext_iff, or_iff_left hwrap]
    by_cases hn : (blkNumOf rest).toNat = r.m_numLastGoodBlk.toNat + 1
    · obtain ⟨hset, hkept, hnum⟩ := hfirst hi hn
      exact ⟨hstart, by simp [hset, hi, hiff, hn], fun _ => hnum, by simp [hkept, hiff, hn]⟩
    · obtain ⟨hset, hlost⟩ := hother hi hn
      exact ⟨hstart, by simp [hset, hiff, hn], by simp [hset], by simp [hlost, hi, hiff, hn, hrep]⟩

end

/-- Block 0 of a file and the SOH of its first data block. -/
def firstBlkReads : List (Env × List UInt8) :=
  [(⟨3, 0⟩, [SOH]), (⟨3, 0⟩, statOfA), (⟨3, 0⟩, [SOH])]

/-- The block that these reads lead to, with what a check on both states shows. -/
private theorem receivedBlk_of_check {reads : List (Env × List UInt8)} {rest : List UInt8}
    {check : ReceiverY → ReceiverY → Bool}
    (h : ((ReceiverY.start .blank).receiveFiles reads).toOption.any (fun r =>
      decide (r.wait = .restOfBlk) && (r.getRestBlk rest).toOption.any (check r)) = true) :
    ∃ r g, ReceivedBlk r rest g ∧ check r g = true := by
  cases hr : (ReceiverY.start .blank).receiveFiles reads with
  | error f => simp [hr, Except.toOption] at h
  | ok r =>
    simp only [hr, Except.toOption, Option.any_some, Bool.and_eq_true, decide_eq_true_eq] at h
    obtain ⟨hwait, hcheck⟩ := h
    cases hg : r.getRestBlk rest with
    | error f => simp [hg] at hcheck
    | ok g =>
      simp only [hg, Option.any_some] at hcheck
      exact ⟨r, g, ⟨⟨_, _, hr⟩, .inr hwait, hg⟩, hcheck⟩

set_option maxRecDepth 8000 in
/-- The first data block. -/
theorem block_sequencing_first : ∃ r g, r.m_numLastGoodBlk = 0 ∧
    (Sequenced r (restOf 1 chunkOfB) g ↔ InSequence r (restOf 1 chunkOfB)) := by
  have hreads : ((ReceiverY.start .blank).receiveFiles firstBlkReads).toOption.any (fun r =>
      decide (r.wait = .restOfBlk) && (r.getRestBlk (restOf 1 chunkOfB)).toOption.any
        fun _ => decide (r.m_numLastGoodBlk = 0)) = true := by decide +kernel
  obtain ⟨r, g, h, hcheck⟩ := @receivedBlk_of_check _ _
    (fun r _ => decide (r.m_numLastGoodBlk = 0)) hreads
  exact ⟨r, g, of_decide_eq_true hcheck, block_sequencing_iff h⟩

set_option maxRecDepth 8000 in
/-- The same block once more is taken for a loss of synchronization. -/
theorem repeated_block_loses_sync : ∃ r g, ReceivedBlk r (restOf 1 chunkOfB) g ∧
    blkNumOf (restOf 1 chunkOfB) = r.m_numLastGoodBlk ∧ g.m_syncLoss = true ∧
    ¬ Sequenced r (restOf 1 chunkOfB) g := by
  have hreads : ((ReceiverY.start .blank).receiveFiles
      (firstBlkReads ++ [(⟨3, 0⟩, restOf 1 chunkOfB), (⟨3, 0⟩, [SOH])])).toOption.any (fun r =>
      decide (r.wait = .restOfBlk) && (r.getRestBlk (restOf 1 chunkOfB)).toOption.any
        fun g => decide (r.m_numLastGoodBlk = 1 ∧ g.m_syncLoss = true)) = true := by
    decide +kernel
  obtain ⟨r, g, h, hcheck⟩ := @receivedBlk_of_check _ _
    (fun r g => decide (r.m_numLastGoodBlk = 1 ∧ g.m_syncLoss = true)) hreads
  obtain ⟨hlast, hloss⟩ := of_decide_eq_true hcheck
  refine ⟨r, g, h, hlast.symm, hloss, fun hseq => ?_⟩
  exact (hseq.syncLoss.mp hloss).2.2 hlast.symm

end YModem.Part2
