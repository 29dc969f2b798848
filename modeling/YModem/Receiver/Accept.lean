import YModem.Receiver.Runtime

/-!
# Blocks that are accepted

What the machine does with an intact block that has the number it expects.
-/

namespace YModem.Receiver

open YModem.Lib YModem.Peer YModem.SmartState

/-- The members after a stat block has been accepted and its file created. -/
structure Opened (env : Env) (fileName : List UInt8) (size : Int) (r r' : ReceiverY) : Prop where
  transferringFileD : r'.transferringFileD = env.creat
  bytesRemaining : r'.bytesRemaining = size
  numLastGoodBlk : r'.numLastGoodBlk = blkNumOf env.rest
  kbCan : r'.kbCan = false
  syncLoss : r'.syncLoss = false
  errCnt : r'.errCnt ≤ r.errCnt
  anotherFile : r'.anotherFile ≠ 0
  calls : r'.calls = r.calls ++ [.getRestBlk env.rest true true,
    .checkForAnotherFile r'.anotherFile, .creat fileName size r.transferringFileD env.creat,
    .sendByte ACK, .sendByte NCG]

/-- An intact block with the next number, read where a stat block is due, opens the file
its text names. -/
theorem opens_file {m : Machine} {env : Env} {fileName : List UInt8} {size : Int}
    (hm : Settled m) (hl : m.active = [.firstByteStat]) (hk : m.ctx.kbCan = false)
    (hs : m.ctx.syncLoss = false) (he : m.ctx.errCnt < errB) (hi : Intact env.rest)
    (hnum : blkNumOf env.rest = m.ctx.numLastGoodBlk + 1)
    (htext : StatText (m.ctx.rcvBlk.read env.rest env.rest_le) fileName size)
    (hname : (m.ctx.rcvBlk.read env.rest env.rest_le).get DATA_POS ≠ 0) (hfd : env.creat ≠ -1) :
    ∃ m', yReceiverSS.Step m (env, .ser SOH) m' ∧ Settled m' ∧ m'.active = [.firstByteData] ∧
      m'.history .nonCan = m.history .nonCan ∧ Opened env fileName size m.ctx m'.ctx := by
  have hr : statBlkRead env m.ctx = _ := statBlkRead_eq env m.ctx
  rw [getRestBlk_first hi hnum] at hr
  have herr : (if m.ctx.closeProb = 0 then 0 else m.ctx.errCnt) ≤ m.ctx.errCnt := by
    split_ifs <;> omega
  have hblk := @StatBlk.opened env (statBlkRead env m.ctx) _
    (by rw [hr]; exact hs) (by rw [hr]; exact lt_of_le_of_lt herr he) (by rw [hr])
    (by rw [hr]; exact hname)
    (openFileForTransfer_spec.mpr ⟨fileName, size, by rw [hr]; exact htext, rfl⟩) hfd
  obtain ⟨m', hstep, hc⟩ := Trans.step hm (config_of_active hl ▸ Trans.statBlk hk hblk)
  have hm' := (step_trans hm hstep).1
  refine ⟨m', hstep, hm', by rw [hm'.active_eq, hc]; rfl, congrArg Config.back hc, ?_⟩
  have hctx : m'.ctx = _ := congrArg Config.ctx hc
  rw [hr] at hctx
  rw [hctx]
  constructor
  case errCnt => exact herr
  case anotherFile => exact hname
  case kbCan => exact hk
  case syncLoss => exact hs
  case calls => simp [ReceiverY.checkForAnotherFile]
  all_goals rfl

/-- The members after the empty stat block has been accepted. -/
structure Ended (env : Env) (r r' : ReceiverY) : Prop where
  transferringFileD : r'.transferringFileD = r.transferringFileD
  numLastGoodBlk : r'.numLastGoodBlk = blkNumOf env.rest
  kbCan : r'.kbCan = false
  syncLoss : r'.syncLoss = false
  errCnt : r'.errCnt ≤ r.errCnt
  calls : r'.calls = r.calls ++ [.getRestBlk env.rest true true, .checkForAnotherFile 0,
    .sendByte ACK]

/-- The empty stat block ends the batch. -/
theorem ends_batch {m : Machine} {env : Env} (hm : Settled m) (hl : m.active = [.firstByteStat])
    (hk : m.ctx.kbCan = false) (hs : m.ctx.syncLoss = false) (he : m.ctx.errCnt < errB)
    (hi : Intact env.rest) (hnum : blkNumOf env.rest = m.ctx.numLastGoodBlk + 1)
    (h0 : (payloadOf env.rest).getD 0 0 = 0) :
    ∃ m', yReceiverSS.Step m (env, .ser SOH) m' ∧ Settled m' ∧ m'.active = [.areWeDone] ∧
      Ended env m.ctx m'.ctx := by
  have hr : statBlkRead env m.ctx = _ := statBlkRead_eq env m.ctx
  rw [getRestBlk_first hi hnum] at hr
  have herr : (if m.ctx.closeProb = 0 then 0 else m.ctx.errCnt) ≤ m.ctx.errCnt := by
    split_ifs <;> omega
  have hbyte := m.ctx.rcvBlk.get_dataPos env.rest_le hi.length_eq
  rw [h0] at hbyte
  have hblk := @StatBlk.noFile env (statBlkRead env m.ctx)
    (by rw [hr]; exact hs) (by rw [hr]; exact lt_of_le_of_lt herr he) (by rw [hr])
    (by rw [hr]; exact hbyte)
  obtain ⟨m', hstep, hc⟩ := Trans.step hm (config_of_active hl ▸ Trans.statBlk hk hblk)
  have hm' := (step_trans hm hstep).1
  have hctx : m'.ctx = _ := congrArg Config.ctx hc
  rw [hr] at hctx
  refine ⟨m', hstep, hm', by rw [hm'.active_eq, hc]; rfl, ?_⟩
  rw [hctx]
  constructor
  case errCnt => exact herr
  case kbCan => exact hk
  case syncLoss => exact hs
  case calls => simp [ReceiverY.checkForAnotherFile, hbyte]
  all_goals rfl

/-- What the receiver reads from a stat block that names a file. -/
theorem statText_statChunk (blk : RcvBlk) {rest fileName text : List UInt8} {size : Int}
    (h : rest.length ≤ BUF_SZ - 1) (hp : payloadOf rest = statChunk fileName text)
    (hlen : fileName.length + text.length + 2 ≤ CHUNK_SZ) (hname : 0 ∉ fileName)
    (htext : 0 ∉ text) (hsize : stoi text = some size) :
    StatText (blk.read rest h) fileName size := by
  refine blk.statText_read
    (List.replicate (CHUNK_SZ - (fileName.length + text.length + 2)) 0) h ?_ hname htext hsize
  have hpad : CHUNK_SZ - (fileName ++ 0 :: text).length =
      CHUNK_SZ - (fileName.length + text.length + 2) + 1 := by
    simp only [List.length_append, List.length_cons]
    omega
  rw [hp, statChunk, padded, hpad, List.replicate_succ]
  simp

theorem get_dataPos_statChunk (blk : RcvBlk) {rest fileName text : List UInt8}
    (h : rest.length ≤ BUF_SZ - 1) (hlen : rest.length = REST_BLK_SZ_CRC)
    (hp : payloadOf rest = statChunk fileName text) (hne : fileName ≠ []) (hname : 0 ∉ fileName) :
    (blk.read rest h).get DATA_POS ≠ 0 := by
  obtain ⟨b, bs, rfl⟩ := List.exists_cons_of_ne_nil hne
  rw [blk.get_dataPos h hlen, hp]
  intro h0
  have hb : b = 0 := by simpa [statChunk, padded] using h0
  simp [hb] at hname

/-- The same step with a stat block built for the purpose. -/
theorem opens_named_file {m : Machine} (fileName text : List UInt8) {size : Int}
    (hm : Settled m) (hl : m.active = [.firstByteStat]) (hk : m.ctx.kbCan = false)
    (hs : m.ctx.syncLoss = false) (he : m.ctx.errCnt < errB)
    (hlen : fileName.length + text.length + 2 ≤ CHUNK_SZ) (hne : fileName ≠ [])
    (hname : 0 ∉ fileName) (htext : 0 ∉ text) (hsize : stoi text = some size) :
    ∃ m', yReceiverSS.Step m
        (.calm (restOf (m.ctx.numLastGoodBlk + 1) (statChunk fileName text)), .ser SOH) m' ∧
      Settled m' ∧ m'.active = [.firstByteData] ∧ m'.history .nonCan = m.history .nonCan ∧
      m'.ctx.numLastGoodBlk = m.ctx.numLastGoodBlk + 1 ∧
      Opened (.calm (restOf (m.ctx.numLastGoodBlk + 1) (statChunk fileName text))) fileName size
        m.ctx m'.ctx := by
  have hchunk : (statChunk fileName text).length = CHUNK_SZ := length_statChunk (by omega)
  have hrest := calm_rest (m.ctx.numLastGoodBlk + 1) hchunk
  have hi := restOf_intact (m.ctx.numLastGoodBlk + 1) hchunk
  have hp : payloadOf (Env.calm (restOf (m.ctx.numLastGoodBlk + 1)
      (statChunk fileName text))).rest = statChunk fileName text := by
    rw [hrest, payloadOf_restOf _ hchunk]
  obtain ⟨m', hstep, hm', hl', hback, ho⟩ := opens_file hm hl hk hs he (by rw [hrest]; exact hi)
    (by rw [hrest, blkNumOf_restOf]) (statText_statChunk _ _ hp hlen hname htext hsize)
    (get_dataPos_statChunk _ _ (by rw [hrest]; exact hi.length_eq) hp hne hname)
    (show (3 : Int) ≠ -1 by decide)
  exact ⟨m', hstep, hm', hl', hback, by rw [ho.numLastGoodBlk, hrest, blkNumOf_restOf], ho⟩

/-- A receiver that has just been started on a calm system. -/
def startedMachine : Machine :=
  Config.machine ⟨some .firstByteStat, none, startedCtx (.calm []) .blank⟩ []

theorem started_startedMachine : Started startedMachine := ⟨.calm [], .blank, start_eq _ _⟩

/-- A batch without files, received by a receiver that has just been started. -/
theorem ends_empty_batch : ∃ m, yReceiverSS.Step startedMachine
      (.calm (restOf 0 (padded 0 [])), .ser SOH) m ∧ Settled m ∧ m.active = [.areWeDone] ∧
    Ended (.calm (restOf 0 (padded 0 []))) startedMachine.ctx m.ctx := by
  have hlen : (padded 0 []).length = CHUNK_SZ := length_padded (by simp)
  have hrest := calm_rest 0 hlen
  apply ends_batch started_startedMachine.settled rfl rfl rfl (by decide)
  · rw [hrest]
    exact restOf_intact 0 hlen
  · rw [hrest]
    rfl
  · rw [hrest, payloadOf_restOf 0 hlen]
    rfl

end YModem.Receiver
