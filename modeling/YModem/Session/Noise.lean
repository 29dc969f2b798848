import YModem.Peer.Damage
import YModem.Receiver.Context
import YModem.Sender.Blocks

/-!
# Noise on the line

A block that `genBlk` has built and the line has damaged is not accepted, whatever the
receiver expects.
-/

namespace YModem.Session

open YModem.Lib YModem.Peer

/-- What `genBlk` builds from a full chunk. -/
theorem genBlk_full {blkBuf blk : Sender.Blk} {blkNum : UInt8} {payload : List UInt8}
    (hlen : payload.length = CHUNK_SZ) (hgen : blkBuf.genBlk blkNum payload = .ok blk) :
    blk.val = SOH :: restOf blkNum payload := by
  have hne : payload ≠ [] := by
    rintro rfl
    contradiction
  obtain ⟨built, hbuilt, hval⟩ := blkBuf.genBlk_spec blkNum hne hlen.le
  have hpad : padded CTRL_Z payload = payload := by simp [padded, hlen]
  cases hgen.symm.trans hbuilt
  rw [hval, hpad]

/-- Damaged blocks are not accepted and leave the number that is expected next as it is. -/
theorem damaged_blk_rejected {blkBuf blk : Sender.Blk} {blkNum : UInt8} {payload : List UInt8}
    (hlen : payload.length = CHUNK_SZ) (hgen : blkBuf.genBlk blkNum payload = .ok blk)
    (env : Receiver.Env) (r : Receiver.ReceiverY) (hdam : Damaged blk.val.tail env.rest) :
    (r.getRestBlk env).goodBlk = false ∧ (r.getRestBlk env).goodBlk1st = false ∧
      (r.getRestBlk env).numLastGoodBlk = r.numLastGoodBlk := by
  have hblk := genBlk_full hlen hgen
  have hsent : Intact blk.val.tail := by
    rw [hblk]
    exact restOf_intact blkNum hlen
  have hbad := hdam.not_intact hsent
  have hspec := Receiver.getRestBlk_spec env r
  generalize r.getRestBlk env = r' at hspec ⊢
  cases hspec with
  | bad purged hp hbad => exact ⟨rfl, rfl, rfl⟩
  | lost hnum hlost => exact ⟨rfl, rfl, rfl⟩
  | resent hi hfd hnum => exact absurd hi hbad
  | first hi hnum => exact absurd hi hbad

/-- The number of a block of zeros is changed on the way. -/
theorem damaged_blk_rejected_number :
    ((Receiver.ReceiverY.init .blank).getRestBlk
      (.calm (255 :: (restOf 1 (List.replicate CHUNK_SZ 0)).tail))).goodBlk = false := by
  have hlen : (List.replicate CHUNK_SZ (0 : UInt8)).length = CHUNK_SZ := List.length_replicate
  generalize List.replicate CHUNK_SZ (0 : UInt8) = payload at hlen ⊢
  have hne : payload ≠ [] := by
    rintro rfl
    contradiction
  obtain ⟨blk, hgen, -⟩ := Sender.Blk.blank.genBlk_spec 1 hne hlen.le
  have hrest : (Receiver.Env.calm (255 :: (restOf 1 payload).tail)).rest =
      255 :: (restOf 1 payload).tail := by
    apply List.take_of_length_le
    simp only [restOf, List.tail_cons, List.length_cons, List.length_append, hlen, crc16ns_length]
    decide
  refine (damaged_blk_rejected hlen hgen _ _ ?_).1
  rw [genBlk_full hlen hgen, hrest]
  refine ⟨rfl, fun h => absurd (List.cons.inj h).1 (by decide), .inl ⟨0, fun j hj => ?_⟩⟩
  obtain ⟨k, rfl⟩ := Nat.exists_eq_succ_of_ne_zero hj
  rfl

end YModem.Session
