import YModem.Receiver.StatText

/-!
# The bytes that end a session of the receiver

Apart from the leaf and the counters it is the block behind an SOH that decides, and what
`myCreat` answers.
-/

namespace YModem.Receiver

open YModem.Lib YModem.Peer YModem.SmartState

/-- The continue events from `CondlTransientStat` on lead to `FinalState`: the chart gives
up, or the file that a good block names cannot be created. -/
def EndsStat (env : Env) (r : ReceiverY) : Prop :=
  (r.syncLoss = true ∨ errB ≤ r.errCnt) ∨
    (r.goodBlk = true ∧ r.rcvBlk.get DATA_POS ≠ 0 ∧ Readable r.rcvBlk ∧ env.creat = -1)

/-- The byte `c` leads the chart to `FinalState`. -/
inductive EndsOn (env : Env) : UInt8 → Config → Prop where
  | kbCancelDelayed {leaf back r c} (hl : leaf.waits = true ∨ leaf = .can) (hk : r.kbCan = true)
      (hcan : c ≠ CAN) (heot : c = EOT → leaf ≠ .eot ∧ (leaf = .firstByteStat → r.closeProb ≠ 0)) :
      EndsOn env c ⟨some leaf, back, r⟩
  | closeError {back r} (hc : (r.closeTransferredFile env).closeProb ≠ 0) :
      EndsOn env EOT ⟨some .eot, back, r⟩
  | excessiveEOTs {back r} (hc : r.closeProb = 0) (he : errB ≤ r.errCnt) :
      EndsOn env EOT ⟨some .firstByteStat, back, r⟩
  | statBlk {back r} (hk : r.kbCan = false) (h : EndsStat env (statBlkRead env r)) :
      EndsOn env SOH ⟨some .firstByteStat, back, r⟩
  | blkWhenDone {back r} (hk : r.kbCan = false)
      (h : EndsStat env ((r.getRestBlk env).peer (·.incErrCnt))) :
      EndsOn env SOH ⟨some .areWeDone, back, r⟩
  | sndCancelled {back r} : EndsOn env CAN ⟨some .can, back, r⟩

section

variable {env : Env} {c : UInt8} {v v' : Config} {r : ReceiverY}

theorem endsStat_iff : EndsStat env r ↔ ∃ r', StatBlk env r none r' := by
  constructor
  · rintro (h | ⟨hg, hname, ⟨fileName, size, htext⟩, hfd⟩)
    · exact ⟨_, .gaveUp h⟩
    · by_cases h : r.syncLoss = true ∨ errB ≤ r.errCnt
      · exact ⟨_, .gaveUp h⟩
      rw [not_or, Bool.not_eq_true, Nat.not_le] at h
      exact ⟨_, .creatError _ h.1 h.2 hg hname
        (openFileForTransfer_spec.mpr ⟨fileName, size, htext, rfl⟩) hfd⟩
  · rintro ⟨r', h⟩
    cases h with
    | creatError r₁ _ _ hg ha ho hfd =>
      obtain ⟨fileName, size, htext, rfl⟩ := openFileForTransfer_spec.mp ho
      exact .inr ⟨hg, ha, ⟨fileName, size, htext⟩, hfd⟩
    | gaveUp h => exact .inl h

/-- The transitions to `FinalState`. -/
theorem Trans.endsOn (h : Trans env (.ser c) v v') (hend : v'.leaf = none) : EndsOn env c v := by
  cases h with
  | kbCancelDelayed hl hk hcan heot => exact .kbCancelDelayed hl hk hcan heot
  | closeError hc => exact .closeError hc
  | excessiveEOTs hc he => exact .excessiveEOTs hc he
  | statBlk hk h =>
    cases hend
    exact .statBlk hk (endsStat_iff.mpr ⟨_, h⟩)
  | blkWhenDone hk h =>
    cases hend
    exact .blkWhenDone hk (endsStat_iff.mpr ⟨_, h⟩)
  | sndCancelled => exact .sndCancelled
  | _ => cases hend

/-- Such a byte has a transition to `FinalState`. -/
theorem EndsOn.trans (h : EndsOn env c v) : ∃ r', Trans env (.ser c) v ⟨none, v.back, r'⟩ := by
  cases h with
  | kbCancelDelayed hl hk hcan heot => exact ⟨_, .kbCancelDelayed hl hk hcan heot⟩
  | closeError hc => exact ⟨_, .closeError hc⟩
  | excessiveEOTs hc he => exact ⟨_, .excessiveEOTs hc he⟩
  | statBlk hk h =>
    obtain ⟨r', hs⟩ := endsStat_iff.mp h
    exact ⟨r', .statBlk hk hs⟩
  | blkWhenDone hk h =>
    obtain ⟨r', hs⟩ := endsStat_iff.mp h
    exact ⟨r', .blkWhenDone hk hs⟩
  | sndCancelled => exact ⟨_, .sndCancelled⟩

/-- **The bytes that stop the machine.** -/
theorem endsOn_iff {m : Machine} (hm : Settled m) : EndsOn env c (configOf m) ↔
    ∃ m', yReceiverSS.Step m (env, .ser c) m' ∧ m'.running = false := by
  constructor
  · intro h
    obtain ⟨r', ht⟩ := h.trans
    obtain ⟨m', hstep, hc⟩ := ht.step hm
    refine ⟨m', hstep, ?_⟩
    rw [(step_trans hm hstep).1.running_eq, hc]
    rfl
  · rintro ⟨m', hstep, hend⟩
    obtain ⟨hm', ht⟩ := step_trans hm hstep
    rw [hm'.running_eq, Option.isSome_eq_false_iff, Option.isNone_iff_eq_none] at hend
    exact ht.endsOn hend

end

end YModem.Receiver
