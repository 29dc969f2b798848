import YModem.Receiver.GivesUp

/-!
# Good blocks and the error count

Three states of the chart call `getRestBlk`. The states below `DataCancelable` reset `errCnt`
when the block is good for the first time; `FirstByteStat` resets it only for the first block
behind a file that was closed, and `AreWeDone` counts every block as an error.
-/

namespace YModem.Receiver

open YModem.Lib YModem.Peer YModem.SmartState

/-- The calls made since. -/
def newCalls (r r' : ReceiverY) : List Call := r'.calls.drop r.calls.length

/-- `getRestBlk` was called and has set `goodBlk1st`. -/
def SetsFirst (r r' : ReceiverY) : Prop :=
  ∃ rest goodBlk, Call.getRestBlk rest goodBlk true ∈ newCalls r r'

/-- What is appended to `result` when the session is ended for excessive errors. -/
def excessive : List String := ["ExcessiveErrors", "ExcessiveErrors at Stat", "ExcessiveEOTs"]

/-- The event has ended the session for excessive errors. -/
def EndsForErrors (m m' : Machine) : Prop :=
  m'.running = false ∧ ∃ text ∈ excessive, Call.result text ∈ newCalls m.ctx m'.ctx

/-- The states in which a block that is good for the first time leaves no error counted. -/
def ResetsErrCnt (m : Machine) : Prop :=
  (∃ leaf, m.active = [leaf] ∧ leaf.dataLeaf = true) ∨
    m.active = [.firstByteStat] ∧ (m.ctx.errCnt = 0 ∨ m.ctx.closeProb = 0)

section

variable {env : Env} {r r' r'' : ReceiverY} {next back : Option RState}

theorem newCalls_eq {new : List Call} (h : r'.calls = r.calls ++ new) : newCalls r r' = new := by
  rw [newCalls, h, List.drop_left]

/-- A step that calls no `getRestBlk`. -/
theorem not_setsFirst {new : List Call} (h : r'.calls = r.calls ++ new)
    (hnone : ∀ rest g, Call.getRestBlk rest g true ∉ new) : ¬ SetsFirst r r' := by
  rintro ⟨rest, g, hmem⟩
  rw [newCalls_eq h] at hmem
  exact hnone rest g hmem

/-- What `getRestBlk` appends. -/
theorem getRestBlk_new (env : Env) (r : ReceiverY) : ∃ purged,
    (r.getRestBlk env).calls = r.calls ++ (purged ++
      [.getRestBlk env.rest (r.getRestBlk env).goodBlk (r.getRestBlk env).goodBlk1st]) ∧
    (purged = [] ∨ purged = [.purge]) := by
  have h := getRestBlk_spec env r
  generalize r.getRestBlk env = g at h
  cases h with
  | bad purged hp _ => exact ⟨purged, rfl, hp⟩
  | lost _ _ => exact ⟨[.purge], rfl, .inr rfl⟩
  | resent _ _ _ => exact ⟨[], rfl, .inl rfl⟩
  | first _ _ => exact ⟨[], rfl, .inl rfl⟩

/-- A block that is good for the first time is good. -/
theorem goodBlk_of_goodBlk1st (h : (r.getRestBlk env).goodBlk1st = true) :
    (r.getRestBlk env).goodBlk = true := by
  have hspec := getRestBlk_spec env r
  generalize r.getRestBlk env = g at h hspec
  cases hspec with
  | first _ _ => rfl
  | _ => cases h

/-- From `CondlTransientStat` on a good block changes `errCnt` no more, and the session is ended
for excessive errors only if some are counted. -/
theorem StatBlk.keeps_errCnt (h : StatBlk env r next r') :
    (r.goodBlk = true → r'.errCnt = r.errCnt) ∧ ∃ new, r'.calls = r.calls ++ new ∧
      (∀ rest g, Call.getRestBlk rest g true ∉ new) ∧
      (r.errCnt = 0 → ∀ text ∈ excessive, Call.result text ∉ new) := by
  cases h with
  | again _ _ hbad =>
    refine ⟨fun hg => ?_, [.sendByte NAK], rfl, by simp, by simp⟩
    rw [hg] at hbad
    cases hbad
  | noFile _ _ _ _ =>
    refine ⟨fun _ => rfl, [.checkForAnotherFile (r.rcvBlk.get DATA_POS), .sendByte ACK], ?_, by simp, by simp⟩
    simp [ReceiverY.checkForAnotherFile]
  | opened r₁ _ _ _ _ ho _ =>
    obtain ⟨fileName, size, _, rfl⟩ := openFileForTransfer_spec.mp ho
    refine ⟨fun _ => rfl, [.checkForAnotherFile (r.rcvBlk.get DATA_POS),
      .creat fileName size r.transferringFileD env.creat, .sendByte ACK, .sendByte NCG], ?_,
      by simp, by simp⟩
    simp [ReceiverY.checkForAnotherFile]
  | creatError r₁ _ _ _ _ ho _ =>
    obtain ⟨fileName, size, _, rfl⟩ := openFileForTransfer_spec.mp ho
    refine ⟨fun _ => rfl, [.checkForAnotherFile (r.rcvBlk.get DATA_POS),
      .creat fileName size r.transferringFileD env.creat, .cans, .result "CreatError"], ?_,
      by simp, by simp [excessive]⟩
    simp [ReceiverY.checkForAnotherFile]
  | gaveUp hgave =>
    by_cases hs : r.syncLoss = true
    · rw [if_pos hs]
      refine ⟨fun _ => rfl, [.cans, .result "LossOfSync at Stat Blk"], by simp, by simp, by simp [excessive]⟩
    · rw [if_neg hs]
      refine ⟨fun _ => rfl, [.cans, .result "ExcessiveErrors at Stat"], by simp, by simp, fun h0 => ?_⟩
      have hmany := hgave.resolve_left hs
      rw [h0] at hmany
      exact absurd hmany (by decide)

/-- What becomes of a block that a state has handed to `CondlTransientStat`. -/
theorem StatBlk.resets (h : StatBlk env r' next r'') (hcalls : r'.calls = (r.getRestBlk env).calls)
    (hgood : r'.goodBlk = (r.getRestBlk env).goodBlk) (hg : SetsFirst r r'') :
    r''.errCnt = r'.errCnt ∧
      (r'.errCnt = 0 → ∀ text ∈ excessive, Call.result text ∉ newCalls r r'') := by
  obtain ⟨purged, hread, hp⟩ := getRestBlk_new env r
  obtain ⟨herr, new, hnew, hnone, hclean⟩ := h.keeps_errCnt
  rw [hcalls, hread, List.append_assoc] at hnew
  have h1st : (r.getRestBlk env).goodBlk1st = true := by
    by_contra hne
    rw [Bool.not_eq_true] at hne
    refine not_setsFirst hnew ?_ hg
    rcases hp with rfl | rfl <;> simp [hne, hnone]
  refine ⟨herr (hgood.trans (goodBlk_of_goodBlk1st h1st)), fun h0 text htext => ?_⟩
  rw [newCalls_eq hnew]
  rcases hp with rfl | rfl <;> simpa using hclean h0 text htext

/-- A block read below `DataCancelable` is good for the first time, and the count is reset. -/
theorem dataBlkRead_resets (hg : SetsFirst r (dataBlkRead env r)) :
    (dataBlkRead env r).errCnt = 0 := by
  obtain ⟨purged, hread, hp⟩ := getRestBlk_new env r
  rw [dataBlkRead_eq] at hg ⊢
  have h1st : (r.getRestBlk env).goodBlk1st = true := by
    by_contra hne
    rw [Bool.not_eq_true] at hne
    refine not_setsFirst hread ?_ hg
    rcases hp with rfl | rfl <;> simp [hne]
  exact if_pos h1st

/-- The event has left no error counted and has not ended the session for errors. -/
def Cleared (v v' : Config) : Prop :=
  v'.ctx.errCnt = 0 ∧
    ¬ (v'.leaf = none ∧ ∃ text ∈ excessive, Call.result text ∈ newCalls v.ctx v'.ctx)

theorem StatBlk.cleared_iff {leaf : RState} (h : StatBlk env r' next r'')
    (hcalls : r'.calls = (r.getRestBlk env).calls)
    (hgood : r'.goodBlk = (r.getRestBlk env).goodBlk) (hg : SetsFirst r r'') :
    Cleared ⟨some leaf, back, r⟩ ⟨next, back, r''⟩ ↔ r'.errCnt = 0 := by
  obtain ⟨herr, hclean⟩ := h.resets hcalls hgood hg
  refine ⟨fun hc => herr.symm.trans hc.1, fun h0 => ⟨herr.trans h0, ?_⟩⟩
  rintro ⟨-, text, htext, hmem⟩
  exact hclean h0 text htext hmem

/-- One SOH in which `getRestBlk` sets `goodBlk1st`. -/
theorem Trans.cleared_iff {v v' : Config} (h : Trans env (.ser SOH) v v') (hb : ErrBound v)
    (hg : SetsFirst v.ctx v'.ctx) : Cleared v v' ↔
      (∃ leaf, v.leaf = some leaf ∧ leaf.dataLeaf = true) ∨
        v.leaf = some .firstByteStat ∧ (v.ctx.errCnt = 0 ∨ v.ctx.closeProb = 0) := by
  have none_read {r r' : ReceiverY} (new : List Call) (hcalls : r'.calls = r.calls ++ new)
      (hnew : ∀ call ∈ new, call = .purge ∨ call = .cans ∨ ∃ text, call = .result text)
      (hg : SetsFirst r r') : False := by
    refine not_setsFirst hcalls (fun rest g hmem => ?_) hg
    rcases hnew _ hmem with h | h | ⟨text, h⟩ <;> cases h
  cases h with
  | purged _ _ _ hsoh _ => exact absurd rfl hsoh
  | @purgedData _ r => exact (none_read [.purge] rfl (by simp) hg).elim
  | @kbCancelDelayed _ _ r =>
    exact (@none_read r _ [.purge, .cans, .result "KbCancelled (delayed)"]
      (by simp) (by simp) hg).elim
  | @resumedSER _ r => exact (none_read [.purge] rfl (by simp) hg).elim
  | @dataBlk leaf back r hl _ =>
    refine iff_of_true ⟨dataBlkRead_resets hg, fun hend => ?_⟩ (.inl ⟨leaf, rfl, hl⟩)
    cases hend.1
  | @statBlk back r next r' hk hblk =>
    rw [hblk.cleared_iff (by rw [statBlkRead_eq]) (by rw [statBlkRead_eq]) hg, statBlkRead_eq]
    show (if r.closeProb = 0 then 0 else r.errCnt) = 0 ↔ _
    split_ifs with hc <;> simp [hc, RState.dataLeaf]
  | @blkWhenDone back r next r' hk hblk =>
    rw [hblk.cleared_iff rfl rfl hg]
    have hcount : ((r.getRestBlk env).peer (·.incErrCnt)).errCnt = r.errCnt + 1 := by
      have hle : r.errCnt ≤ errB + 2 := hb.le
      simpa using wrapped hle
    rw [hcount]
    simp [RState.dataLeaf]

end

/-- **When a good block resets the error count.** -/
theorem good_block_resets_iff {m m' : Machine} {env : Env} (h : Reachable m)
    (hs : yReceiverSS.Step m (env, .ser SOH) m') (hg : SetsFirst m.ctx m'.ctx) :
    (m'.ctx.errCnt = 0 ∧ ¬ EndsForErrors m m') ↔ ResetsErrCnt m := by
  have hb := h.bounded
  obtain ⟨hm', ht⟩ := step_trans hb.settled hs
  have hactive (leaf : RState) : m.active = [leaf] ↔ (configOf m).leaf = some leaf := by
    rw [hb.settled.active_eq, Option.toList_eq_singleton_iff]
  have hstop : m'.running = false ↔ (configOf m').leaf = none := by
    rw [hm'.running_eq, Option.isSome_eq_false_iff, Option.isNone_iff_eq_none]
  simp only [ResetsErrCnt, EndsForErrors, hactive, hstop]
  exact ht.cleared_iff hb.errBound hg

/-- The stat block of a file `a` of five bytes. -/
def goodStatBlk : Env := .calm (restOf 0 (statChunk [97] [53]))

set_option maxRecDepth 8000 in
/-- A receiver that times out before the first block comes, and then gets a good one. -/
theorem reads_block_after_timeout : ∃ m m', Reachable m ∧ m.ctx.errCnt = 1 ∧
    yReceiverSS.Step m (goodStatBlk, .ser SOH) m' ∧ SetsFirst m.ctx m'.ctx ∧
    m'.ctx.errCnt = 1 := by
  have hwaits : (yReceiverSS.session (.calm []) (.init .blank) [(.calm [], .tm)]).toOption.any
      (fun m => decide (m.ctx.errCnt = 1 ∧ m.ctx.calls.length = 2)) = true := by
    decide +kernel
  have hreads : (yReceiverSS.session (.calm []) (.init .blank)
      ([(.calm [], .tm)] ++ [(goodStatBlk, .ser SOH)])).toOption.any
      (fun m => decide (m.ctx.errCnt = 1 ∧
        Call.getRestBlk goodStatBlk.rest true true ∈ m.ctx.calls.drop 2)) = true := by
    decide +kernel
  obtain ⟨m₀, m, m', hstart, hr, hc, hnext, hc'⟩ := Chart.run_of_sessions hwaits hreads
  obtain ⟨he, hlen⟩ := of_decide_eq_true hc
  obtain ⟨he', hmem⟩ := of_decide_eq_true hc'
  obtain ⟨_, hs, hnil⟩ := hnext.cons_inv
  cases hnil.nil_inv rfl
  refine ⟨m, m', ⟨m₀, _, ⟨_, _, hstart⟩, hr⟩, he, hs, ⟨goodStatBlk.rest, true, ?_⟩, he'⟩
  rw [newCalls, hlen]
  exact hmem

/-- The count of that timeout stays. -/
theorem timeout_not_reset : ∃ m m', Reachable m ∧ yReceiverSS.Step m (goodStatBlk, .ser SOH) m' ∧
    SetsFirst m.ctx m'.ctx ∧ ¬ (m'.ctx.errCnt = 0 ∧ ¬ EndsForErrors m m') := by
  obtain ⟨m, m', h, -, hs, hg, he⟩ := reads_block_after_timeout
  exact ⟨m, m', h, hs, hg, fun hc => by simp [he] at hc⟩

theorem good_block_resets_after_timeout : ∃ m m', Reachable m ∧ m.ctx.errCnt = 1 ∧
    ((m'.ctx.errCnt = 0 ∧ ¬ EndsForErrors m m') ↔ ResetsErrCnt m) := by
  obtain ⟨m, m', h, he, hs, hg, -⟩ := reads_block_after_timeout
  exact ⟨m, m', h, he, good_block_resets_iff h hs hg⟩

end YModem.Receiver
