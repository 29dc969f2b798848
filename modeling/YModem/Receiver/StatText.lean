import YModem.Receiver.Accept

/-!
# Stat blocks with any text

The checksum admits every chunk. `openFileForTransfer` looks for the NUL behind the name
and hands the text behind it to `stoi`; neither is checked, and no state of the chart
catches what `stoi` throws.
-/

namespace YModem.Receiver

open YModem.Lib YModem.Peer YModem.SmartState

/-- Inside `rcvBlk` a NUL ends the name, another one ends the text behind it, and that text
starts with a number that fits an `int`. -/
def Readable (blk : RcvBlk) : Prop := ∃ fileName size, StatText blk fileName size

/-- The errors for which `CondlTransientStat` gives up before it looks at the block. -/
def GivesUpFirst (m : Machine) : Prop :=
  m.ctx.syncLoss = true ∨
    (m.active = [.firstByteStat] ∧ m.ctx.closeProb ≠ 0 ∧ errB ≤ m.ctx.errCnt) ∨
    (m.active = [.areWeDone] ∧ errB ≤ (m.ctx.errCnt + 1) % UINT_RANGE)

/-- The results with which a good stat block that names a file can end the session. -/
def statErrors : List String :=
  ["CreatError", "LossOfSync at Stat Blk", "ExcessiveErrors at Stat"]

/-- The event returns, and the machine waits for data or has stopped with an error. -/
def Handled (m : Machine) (env : Env) : Prop :=
  ∃ m', yReceiverSS.Step m (env, .ser SOH) m' ∧
    (m'.active = [.firstByteData] ∨ (m'.active = [] ∧ m'.running = false ∧
      ∃ text ∈ statErrors, m'.ctx.result = m.ctx.result ++ text))

section

variable {env : Env} {r r' : ReceiverY} {leaf : Option RState}

theorem openFileForTransfer_returns_iff :
    (∃ r', r.openFileForTransfer env = .ok r') ↔ Readable r.rcvBlk := by
  constructor
  · rintro ⟨r', h⟩
    obtain ⟨fileName, size, htext, -⟩ := openFileForTransfer_spec.mp h
    exact ⟨fileName, size, htext⟩
  · rintro ⟨fileName, size, htext⟩
    exact ⟨_, openFileForTransfer_spec.mpr ⟨fileName, size, htext, rfl⟩⟩

/-- What is handed to `CondlTransientStat`: a good block that names a file. -/
structure NamesFile (r r' : ReceiverY) (blk : RcvBlk) : Prop where
  good : r'.goodBlk = true
  named : r'.rcvBlk.get DATA_POS ≠ 0
  rcvBlk : r'.rcvBlk = blk
  syncLoss : r'.syncLoss = r.syncLoss
  result : r'.result = r.result

/-- A good block is no loss of synchronisation. -/
theorem getRestBlk_good (hg : (r.getRestBlk env).goodBlk = true) :
    Intact env.rest ∧ (r.getRestBlk env).syncLoss = r.syncLoss ∧
      (r.getRestBlk env).result = r.result := by
  have h := getRestBlk_spec env r
  generalize r.getRestBlk env = g at h hg ⊢
  cases h with
  | bad | lost => cases hg
  | resent hi | first hi => exact ⟨hi, rfl, rfl⟩

/-- The blocks that `FirstByteStat` and `AreWeDone` hand on. -/
theorem namesFile_read (hg : (r.getRestBlk env).goodBlk = true)
    (hname : (payloadOf env.rest).getD 0 0 ≠ 0) :
    NamesFile r (statBlkRead env r) (r.rcvBlk.read env.rest env.rest_le) ∧
      NamesFile r ((r.getRestBlk env).peer (·.incErrCnt)) (r.rcvBlk.read env.rest env.rest_le) := by
  obtain ⟨hi, hsync, hres⟩ := getRestBlk_good hg
  have hblk := r.getRestBlk_rcvBlk env
  have hnamed : (r.getRestBlk env).rcvBlk.get DATA_POS ≠ 0 := by
    rwa [hblk, r.rcvBlk.get_dataPos env.rest_le hi.length_eq]
  rw [statBlkRead_eq]
  exact ⟨⟨hg, hnamed, hblk, hsync, hres⟩, ⟨hg, hnamed, hblk, hsync, hres⟩⟩

/-- Such a block makes no trouble when the chart gives up or can read it. -/
theorem NamesFile.fault_or {blk : RcvBlk} (h : NamesFile r r' blk) (env : Env) :
    StatFault env r' ↔ ¬ ((r'.syncLoss = true ∨ errB ≤ r'.errCnt) ∨ Readable blk) := by
  have hopen : (∃ f, r'.checkForAnotherFile.openFileForTransfer env = .error f) ↔ ¬ Readable blk := by
    rw [← h.rcvBlk]
    show _ ↔ ¬ Readable r'.checkForAnotherFile.rcvBlk
    rw [← @openFileForTransfer_returns_iff env]
    cases r'.checkForAnotherFile.openFileForTransfer env <;> simp
  constructor
  · rintro hf (hgive | hread)
    · rcases hgive with hs | he
      · simp [hf.inSync] at hs
      · exact absurd hf.bound (Nat.not_lt.mpr he)
    · exact hopen.mp hf.fault hread
  · intro hn
    rw [not_or, not_or, Bool.not_eq_true, Nat.not_le] at hn
    exact ⟨hn.1.1, hn.1.2, h.good, h.named, hopen.mpr hn.2⟩

theorem NamesFile.ends {blk : RcvBlk} {r'' : ReceiverY} (h : NamesFile r r' blk)
    (hs : StatBlk env r' leaf r'') : leaf = some .firstByteData ∨
      (leaf = none ∧ ∃ text ∈ statErrors, r''.result = r.result ++ text) := by
  cases hs with
  | again _ _ hg => simp [h.good] at hg
  | noFile _ _ _ ha => exact absurd ha h.named
  | opened => exact .inl rfl
  | creatError r₁ _ _ _ _ ho _ =>
    obtain ⟨_, _, _, rfl⟩ := openFileForTransfer_spec.mp ho
    exact .inr ⟨rfl, "CreatError", by simp [statErrors], by simp [ReceiverY.checkForAnotherFile, h.result]⟩
  | gaveUp _ =>
    refine .inr ⟨rfl, ?_⟩
    split_ifs
    · exact ⟨"LossOfSync at Stat Blk", by simp [statErrors], by simp [h.result]⟩
    · exact ⟨"ExcessiveErrors at Stat", by simp [statErrors], by simp [h.result]⟩

/-- The event, when `CondlTransientStat` is handed such a block. -/
theorem NamesFile.handled_iff {blk : RcvBlk} {m : Machine} (h : NamesFile m.ctx r' blk)
    (hm : Settled m)
    (htrans : ∀ {leaf r''}, StatBlk env r' leaf r'' →
      Trans env (.ser SOH) (configOf m) ⟨leaf, (configOf m).back, r''⟩)
    (hfault : StatFault env r' → Faults env (.ser SOH) (configOf m)) :
    Handled m env ↔ (r'.syncLoss = true ∨ errB ≤ r'.errCnt) ∨ Readable blk := by
  by_cases hf : StatFault env r'
  · have hnot := (h.fault_or env).mp hf
    refine ⟨fun ⟨m', hstep, _⟩ => ?_, fun hok => absurd hok hnot⟩
    obtain ⟨f, hp⟩ := (hfault hf).postEvent m.posted
    rw [← hm.shape] at hp
    exact absurd (hstep.symm.trans hp) (by simp)
  · have hok : (r'.syncLoss = true ∨ errB ≤ r'.errCnt) ∨ Readable blk := by
      by_contra hnot
      exact hf ((h.fault_or env).mpr hnot)
    refine ⟨fun _ => hok, fun _ => ?_⟩
    obtain ⟨leaf, r'', hs⟩ := (StatBlk.total env r').resolve_right hf
    obtain ⟨m', hstep, hc⟩ := (htrans hs).step hm
    have hm' := (step_trans hm hstep).1
    have hctx : m'.ctx = r'' := congrArg Config.ctx hc
    refine ⟨m', hstep, ?_⟩
    rw [hm'.active_eq, hm'.running_eq, hctx, hc]
    rcases h.ends hs with rfl | ⟨rfl, herr⟩
    · exact .inl rfl
    · exact .inr ⟨rfl, rfl, herr⟩

end

/-- **A good stat block is handled without a crash exactly when its text can be read**, or
the chart gives up before it looks at the block. -/
theorem stat_blk_handled_iff {m : Machine} {env : Env} (h : Reachable m)
    (hl : m.active = [.firstByteStat] ∨ m.active = [.areWeDone]) (hk : m.ctx.kbCan = false)
    (hg : (m.ctx.getRestBlk env).goodBlk = true) (hname : (payloadOf env.rest).getD 0 0 ≠ 0) :
    (∀ r : ReceiverY, (∃ r', r.openFileForTransfer env = .ok r') ↔ Readable r.rcvBlk) ∧
    (Handled m env ↔ GivesUpFirst m ∨ Readable (m.ctx.rcvBlk.read env.rest env.rest_le)) := by
  refine ⟨fun r => openFileForTransfer_returns_iff, ?_⟩
  have hm := h.settled
  obtain ⟨hstat, hdone⟩ := namesFile_read hg hname
  have hsync : (m.ctx.getRestBlk env).syncLoss = m.ctx.syncLoss := (getRestBlk_good hg).2.1
  rcases hl with hl | hl
  · have hc := config_of_active hl
    rw [hstat.handled_iff hm (fun hs => by rw [hc]; exact .statBlk hk hs)
      (fun hf => by rw [hc]; exact .statBlk hk hf)]
    refine or_congr_left ?_
    rw [GivesUpFirst, statBlkRead_eq, hl]
    simp only [hsync]
    split_ifs with hcp <;> simp [hcp]
  · have hc := config_of_active hl
    rw [hdone.handled_iff hm (fun hs => by rw [hc]; exact .blkWhenDone hk hs)
      (fun hf => by rw [hc]; exact .blkWhenDone hk hf)]
    refine or_congr_left ?_
    rw [GivesUpFirst, hl]
    simp [hsync]

/-- A stat block for the file `a` whose size is the given text. -/
def sizeText (text : List UInt8) : Env := .calm (restOf 0 (statChunk [97] text))

set_option maxRecDepth 4000 in
theorem stat_blk_handled_small :
    (∀ r : ReceiverY, (∃ r', r.openFileForTransfer (sizeText [53]) = .ok r') ↔ Readable r.rcvBlk) ∧
    (Handled startedMachine (sizeText [53]) ↔ GivesUpFirst startedMachine ∨
      Readable (startedMachine.ctx.rcvBlk.read (sizeText [53]).rest (sizeText [53]).rest_le)) :=
  stat_blk_handled_iff ⟨_, [], started_startedMachine, .refl⟩ (.inl rfl) rfl
    (by decide +kernel) (by decide +kernel)

set_option maxRecDepth 4000 in
/-- A size that is no number: the block is good and what `stoi` throws leaves `postEvent`. -/
theorem stat_blk_crashes : (startedMachine.ctx.getRestBlk (sizeText [120])).goodBlk = true ∧
    blkNumOf (sizeText [120]).rest = 0 ∧ (payloadOf (sizeText [120]).rest).getD 0 0 ≠ 0 ∧
    yReceiverSS.postEvent (sizeText [120]) (.ser SOH) startedMachine = .error .unexpected ∧
    ¬ Handled startedMachine (sizeText [120]) := by
  have hcheck : (match yReceiverSS.postEvent (sizeText [120]) (.ser SOH) startedMachine with
      | .error f => decide (f = .unexpected)
      | .ok _ => false) = true := by decide +kernel
  have hp : yReceiverSS.postEvent (sizeText [120]) (.ser SOH) startedMachine =
      .error .unexpected := by
    split at hcheck
    · rename_i f heq
      rw [heq, of_decide_eq_true hcheck]
    · cases hcheck
  refine ⟨by decide +kernel, by decide +kernel, by decide +kernel, hp, ?_⟩
  rintro ⟨m', hstep, -⟩
  exact absurd (hstep.symm.trans hp) (by simp)

end YModem.Receiver
