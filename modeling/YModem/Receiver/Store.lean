import YModem.Receiver.Accept
import YModem.Receiver.Output

/-!
# The output files of a receiver that reads no CAN byte

Without CAN bytes the machine never leaves `NON_CAN`, so that a file is open exactly
while one of the leaves of a transfer is active, and every file is complete as far as
its data blocks have been accepted.
-/

namespace YModem.Receiver

open YModem.Lib YModem.Peer YModem.SmartState

/-- A file is created when no other one is open, and right after a block has been accepted
as good for the first time. -/
def Created (before : List Call) : Call → Prop
  | .creat _ _ held _ => held = -1 ∧ ∃ earlier rest anotherFile,
      before = earlier ++ [.getRestBlk rest true true, .checkForAnotherFile anotherFile] ∧
        (outputs before).lastNum = blkNumOf rest
  | _ => True

/-- The numbers of the data blocks follow the one of the stat block, and the first bytes of
their payloads, as many as the size announces, have been written. -/
def OutFile.Complete (f : OutFile) : Prop :=
  f.Numbered ∧ f.data = f.firstBytes f.blocks.length

/-- What holds of a running receiver whose active leaf is `leaf`. -/
structure Running (leaf : RState) (r : ReceiverY) : Prop where
  notCan : leaf ≠ .can
  closed : leaf.transfers = false →
    r.transferringFileD = -1 ∧ (outputs r.calls).current = none
  complete : ∀ f ∈ (outputs r.calls).earlier, f.Complete

structure Stored (v : Config) : Prop where
  kept : Kept v
  created : AtEach Created v.ctx.calls
  running : ∀ leaf ∈ v.leaf, Running leaf v.ctx

section Steps

variable {env : Env} {mesg : Mesg} {leaf leaf' : RState} {next back back' : Option RState}
  {r r' : ReceiverY} {v v' : Config}

theorem Running.same (h : Running leaf r) (hs : SameFile r r') (hcan : leaf' ≠ .can)
    (ht : leaf'.transfers = leaf.transfers) : Running leaf' r' where
  notCan := hcan
  closed := by
    rw [hs.transferringFileD, hs.outputs, ht]
    exact h.closed
  complete := by
    rw [hs.outputs]
    exact h.complete

theorem created_getRestBlk (h : AtEach Created r.calls) (env : Env) :
    AtEach Created (r.getRestBlk env).calls := by
  have hspec := getRestBlk_spec env r
  generalize r.getRestBlk env = g at hspec ⊢
  cases hspec with
  | bad purged hp _ => rcases hp with rfl | rfl <;> simp [h, Created]
  | _ => simp [h, Created]

theorem earlier_getRestBlk (env : Env) (r : ReceiverY) :
    (outputs (r.getRestBlk env).calls).earlier = (outputs r.calls).earlier := by
  rw [outputs_getRestBlk]
  split_ifs <;> rfl

theorem created_closeTransferredFile (h : AtEach Created r.calls) (env : Env) :
    AtEach Created (r.closeTransferredFile env).calls := by
  have hspec := closeTransferredFile_spec env r
  generalize r.closeTransferredFile env = g at hspec ⊢
  cases hspec <;> simp [h, Created]

/-- The context in which a stat block has been read while no file is open. -/
structure BlkRead (r : ReceiverY) : Prop where
  notOpen : r.transferringFileD = -1
  current : (outputs r.calls).current = none
  complete : ∀ f ∈ (outputs r.calls).earlier, f.Complete
  created : AtEach Created r.calls
  first : r.goodBlk = true → ∃ earlier rest, r.calls = earlier ++ [.getRestBlk rest true true]

theorem blkRead_getRestBlk (hrun : Running leaf r) (hl : leaf.transfers = false)
    (hc : AtEach Created r.calls) (env : Env) : BlkRead (r.getRestBlk env) := by
  obtain ⟨hfd, hcur⟩ := hrun.closed hl
  refine ⟨by simpa using hfd, ?_, by rw [earlier_getRestBlk]; exact hrun.complete,
    created_getRestBlk hc env, ?_⟩
  · rw [outputs_getRestBlk]
    split_ifs
    · simp [Outputs.accept, hcur]
    · exact hcur
  · have hspec := getRestBlk_spec env r
    generalize r.getRestBlk env = g at hspec ⊢
    cases hspec with
    | resent _ hne _ => exact absurd hfd hne
    | first _ _ => exact fun _ => ⟨_, _, rfl⟩
    | _ => simp

theorem BlkRead.congr (h : BlkRead r) (hfd : r'.transferringFileD = r.transferringFileD)
    (hcalls : r'.calls = r.calls) (hgood : r'.goodBlk = r.goodBlk) : BlkRead r' :=
  ⟨hfd ▸ h.notOpen, hcalls ▸ h.current, hcalls ▸ h.complete, hcalls ▸ h.created,
    hcalls ▸ hgood ▸ h.first⟩

theorem BlkRead.statBlk (h : BlkRead r) (hb : StatBlk env r next r') :
    AtEach Created r'.calls ∧ ∀ leaf ∈ next, Running leaf r' := by
  obtain ⟨hfd, hcur, hcomp, hc, hfirst⟩ := h
  have opened {r' : ReceiverY} (hg : r.goodBlk = true)
      (ho : r.checkForAnotherFile.openFileForTransfer env = .ok r') :
      AtEach Created r'.calls ∧ ∀ f ∈ (outputs r'.calls).earlier, f.Complete := by
    obtain ⟨fileName, size, _, rfl⟩ := openFileForTransfer_spec.mp ho
    obtain ⟨earlier, rest, hcalls⟩ := hfirst hg
    constructor
    · have hbefore : r.checkForAnotherFile.calls = earlier ++ [.getRestBlk rest true true,
          .checkForAnotherFile (r.rcvBlk.get DATA_POS)] := by
        simp [ReceiverY.checkForAnotherFile, hcalls]
      refine atEach_append.mpr ⟨by simpa [ReceiverY.checkForAnotherFile, Created] using hc, ?_, trivial⟩
      exact ⟨hfd, earlier, rest, _, hbefore, by simp [Outputs.lastNum, hbefore]⟩
    · simpa [ReceiverY.checkForAnotherFile, Outputs.add, hcur] using hcomp
  cases hb with
  | again _ _ _ =>
    refine ⟨by simp [countAndWait, hc, Created], ?_⟩
    rintro _ ⟨⟩
    exact ⟨by simp, fun _ => ⟨hfd, by simpa [countAndWait] using hcur⟩,
      by simpa [countAndWait] using hcomp⟩
  | noFile _ _ _ _ =>
    refine ⟨by simp [ReceiverY.checkForAnotherFile, hc, Created], ?_⟩
    rintro _ ⟨⟩
    exact ⟨by simp, fun _ => ⟨hfd, by simpa [ReceiverY.checkForAnotherFile] using hcur⟩,
      by simpa [ReceiverY.checkForAnotherFile] using hcomp⟩
  | opened r₁ _ _ hg _ ho _ =>
    obtain ⟨hcr, hcomp'⟩ := opened hg ho
    refine ⟨by simp [hcr, Created], ?_⟩
    rintro _ ⟨⟩
    exact ⟨by simp, by simp [RState.transfers], by simpa using hcomp'⟩
  | creatError r₁ _ _ hg _ ho _ =>
    obtain ⟨hcr, -⟩ := opened hg ho
    exact ⟨by simp [hcr, Created], by simp⟩
  | gaveUp _ => exact ⟨by split_ifs <;> simp [hc, Created], by simp⟩

/-- The file of a transfer in `EOT` is complete when it is closed. -/
theorem Running.secondEOT (h : Running .eot r) (ht : Transferring .eot r)
    (hc : (r.closeTransferredFile env).closeProb = 0) :
    Running .firstByteStat (acknowledgeEOT env (r.closeTransferredFile env)) := by
  obtain ⟨hopen, f, hcur, hf⟩ := ht
  rw [if_neg (by simp)] at hf
  have hcomp : f.Complete :=
    ⟨hf.numbered, by rw [OutFile.firstBytes_eq (Nat.le_refl _) hf.length_payload]; exact hf.data⟩
  have hspec := closeTransferredFile_spec env r
  generalize r.closeTransferredFile env = g at hspec hc ⊢
  cases hspec with
  | notOpen hfd => omega
  | failed _ hne => exact absurd hc hne
  | closed _ _ =>
    have hadd := Outputs.add_close_current hcur
    rw [hf.fd] at hadd
    refine ⟨by simp, fun _ => ⟨rfl, ?_⟩, ?_⟩
    · simp [acknowledgeEOT, hadd]
    · intro g hg
      simp only [acknowledgeEOT, ReceiverY.peer_toPeerY, PeerY.tm_calls, PeerY.addResult_calls,
        PeerY.sendByte_calls, List.append_assoc, outputs_append, List.foldl_append, List.foldl_cons,
        List.foldl_nil, hadd, Outputs.add_sendByte, Outputs.add_result, List.mem_append,
        List.mem_singleton] at hg
      rcases hg with hg | rfl
      · exact h.complete g hg
      · exact hcomp

/-- The machine stays in the phase it is in and touches no file. -/
theorem Stored.same (h : Stored ⟨some leaf, back, r⟩) (hk : Kept ⟨some leaf', back', r'⟩)
    (hs : SameFile r r') (hc : AtEach Created r'.calls) (hcan : leaf' ≠ .can)
    (ht : leaf'.transfers = leaf.transfers) : Stored ⟨some leaf', back', r'⟩ := by
  refine ⟨hk, hc, ?_⟩
  rintro _ ⟨⟩
  exact (h.running leaf rfl).same hs hcan ht

theorem Stored.stop (hk : Kept ⟨none, back', r'⟩) (hc : AtEach Created r'.calls) :
    Stored ⟨none, back', r'⟩ := ⟨hk, hc, by simp⟩

theorem Trans.stored (h : Trans env mesg v v') (hw : v.WellFormed) (hcan : mesg ≠ .ser CAN)
    (hs : Stored v) : Stored v' := by
  have hk := h.kept hw hs.kept
  have hc := hs.created
  have hrun := hs.running
  cases h with
  | ignored _ => exact hs
  | @kbCancel leaf _ _ _ _ =>
    exact hs.same hk ⟨rfl, rfl, rfl, rfl, rfl, rfl⟩ hc (hrun leaf rfl).notCan rfl
  | kbCancelImmediate => exact .stop hk (by simpa [Created] using hc)
  | @purged leaf _ _ _ _ _ _ _ _ =>
    exact hs.same hk ⟨rfl, rfl, rfl, rfl, rfl, by simp⟩ (by simpa [Created] using hc)
      (hrun leaf rfl).notCan rfl
  | purgedData =>
    exact hs.same hk ⟨rfl, rfl, rfl, rfl, rfl, by simp⟩ (by simpa [Created] using hc) (by simp) rfl
  | interrupted _ => exact absurd rfl hcan
  | kbCancelDelayed _ _ _ _ => exact .stop hk (by simpa [Created] using hc)
  | @dataBlk leaf _ r _ _ =>
    refine ⟨hk, ?_, ?_⟩
    · rw [dataBlkRead_eq]
      exact created_getRestBlk hc env
    · rintro _ ⟨⟩
      refine ⟨by simp, by simp [RState.transfers], ?_⟩
      rw [dataBlkRead_eq]
      show ∀ f ∈ (outputs (r.getRestBlk env).calls).earlier, f.Complete
      rw [earlier_getRestBlk]
      exact (hrun leaf rfl).complete
  | firstEOT _ =>
    exact hs.same hk ⟨rfl, rfl, rfl, rfl, rfl, by simp [countAndWait]⟩
      (by simpa [Created, countAndWait] using hc) (by simp) rfl
  | secondEOT hcp =>
    refine ⟨hk, ?_, ?_⟩
    · simpa [Created, acknowledgeEOT] using created_closeTransferredFile hc env
    · rintro _ ⟨⟩
      exact (hrun .eot rfl).secondEOT (hs.kept.transferring .eot rfl rfl) hcp
  | closeError _ =>
    exact .stop hk (by simpa [Created] using created_closeTransferredFile hc env)
  | excessiveEOTs _ _ => exact .stop hk (by simpa [Created] using hc)
  | eotAgain _ _ =>
    exact hs.same hk ⟨rfl, rfl, rfl, rfl, rfl, by simp [countAndWait]⟩
      (by simpa [Created, countAndWait] using hc) (by simp) rfl
  | @statBlk _ r _ _ _ hb =>
    have hread : BlkRead (statBlkRead env r) :=
      (blkRead_getRestBlk (hrun .firstByteStat rfl) rfl hc env).congr
        (by rw [statBlkRead_eq]) (by rw [statBlkRead_eq]) (by rw [statBlkRead_eq])
    exact ⟨hk, (hread.statBlk hb).1, (hread.statBlk hb).2⟩
  | @blkWhenDone _ r _ _ _ hb =>
    have hread : BlkRead ((r.getRestBlk env).peer (·.incErrCnt)) :=
      (blkRead_getRestBlk (hrun .areWeDone rfl) rfl hc env).congr rfl rfl rfl
    exact ⟨hk, (hread.statBlk hb).1, (hread.statBlk hb).2⟩
  | @retry leaf _ _ _ _ _ =>
    refine hs.same hk ?_ ?_ (hrun leaf rfl).notCan rfl
    · split_ifs <;> exact ⟨rfl, rfl, rfl, rfl, rfl, by simp [countAndWait]⟩
    · split_ifs <;> simpa [countAndWait, Created] using hc
  | gaveUp _ _ => exact .stop hk (by split_ifs <;> simpa [Created] using hc)
  | @answered _ r _ _ =>
    refine ⟨hk, ?_, ?_⟩
    · rw [answerDataBlk_eq]
      split_ifs <;> simpa [Created] using hc
    · rintro _ ⟨⟩
      refine ⟨by simp, by simp [RState.transfers], ?_⟩
      rw [outputs_answerDataBlk]
      split_ifs <;> exact (hrun .condTransientData rfl).complete
  | @abandoned _ r _ =>
    have hcans : AtEach Created r.cans.calls := by simpa [Created] using hc
    have hclose := created_closeTransferredFile hcans env
    exact .stop hk (by split_ifs <;> simpa [Created] using hclose)
  | endOfSession => exact .stop hk (by simpa [Created] using hc)
  | resumedSER _ _ => exact absurd rfl (hrun .can rfl).notCan
  | resumedTM _ => exact absurd rfl (hrun .can rfl).notCan
  | sndCancelled => exact absurd rfl (hrun .can rfl).notCan

end Steps

/-- What holds between two events of a receiver that has not read a CAN byte. -/
structure StoreInvariant (m : Machine) : Prop where
  isOpen : m.ctx.transferringFileD ≠ -1 ↔
    m.active = [.firstByteData] ∨ m.active = [.eot] ∨ m.active = [.condTransientData]
  created : AtEach Created m.ctx.calls
  current : m.ctx.transferringFileD ≠ -1 ↔ ∃ f, (outputs m.ctx.calls).current = some f
  /-- The current file, of which the chunk of the last data block may not be written yet
  while that block waits for its answer. -/
  file : ∀ f, (outputs m.ctx.calls).current = some f →
    f.fd = m.ctx.transferringFileD ∧ f.Numbered ∧
      m.ctx.numLastGoodBlk = f.statNum + UInt8.ofNat f.blocks.length ∧
      ∃ written, f.data = f.firstBytes written ∧ (written = f.blocks.length ∨
        (m.active = [.condTransientData] ∧ written + 1 = f.blocks.length))
  earlier : ∀ f ∈ (outputs m.ctx.calls).earlier, f.Complete

theorem stored_started (env : Env) (rcvBlk : RcvBlk) :
    Stored ⟨some .firstByteStat, none, startedCtx env rcvBlk⟩ where
  kept := kept_started env rcvBlk
  created := atEach_iff_appends.mpr ⟨trivial, trivial⟩
  running := by
    rintro _ ⟨⟩
    exact ⟨by simp, fun _ => ⟨rfl, rfl⟩,
      by simp [startedCtx, ReceiverY.init, PeerY.init, outputs]⟩

theorem Transferring.current {leaf : RState} {r : ReceiverY} (h : Transferring leaf r) :
    ∃ f, (outputs r.calls).current = some f ∧ f.fd = r.transferringFileD ∧ f.Numbered ∧
      r.numLastGoodBlk = f.statNum + UInt8.ofNat f.blocks.length ∧
      ∃ written, f.data = f.firstBytes written ∧ (written = f.blocks.length ∨
        (leaf = .condTransientData ∧ written + 1 = f.blocks.length)) := by
  obtain ⟨-, f, hcur, hf⟩ := h
  split_ifs at hf with hc
  · obtain ⟨w, hlen, -, hinv⟩ := hf
    refine ⟨f, hcur, hinv.fd, hinv.numbered, hinv.lastNum, w, ?_, .inr ⟨hc.1, hlen.symm⟩⟩
    rw [OutFile.firstBytes_eq (by omega) hinv.length_payload]
    exact hinv.data
  · refine ⟨f, hcur, hf.fd, hf.numbered, hf.lastNum, f.blocks.length, ?_, .inl rfl⟩
    rw [OutFile.firstBytes_eq (Nat.le_refl _) hf.length_payload]
    exact hf.data

/-- **The store invariant of the receiver.** -/
theorem store_invariant {m₀ m : Machine} {es : List (Env × Mesg)} (h₀ : Started m₀)
    (hcan : ∀ e ∈ es, e.2 ≠ .ser CAN) (hr : Run yReceiverSS.Step m₀ es m)
    (hrun : m.running = true) : StoreInvariant m := by
  obtain ⟨env, rcvBlk, hstart⟩ := h₀.config
  obtain ⟨hm, hs⟩ := run_invariant (I := Stored) (P := fun e => e.2 ≠ .ser CAN)
    (fun hP hw hs ht => ht.stored hw hP hs) h₀.settled (hstart ▸ stored_started env rcvBlk) hcan hr
  obtain ⟨leaf, hl⟩ := hm.active_of_running hrun
  rw [config_of_active hl] at hs
  have hcl := (hs.running leaf rfl).closed
  have hearlier := (hs.running leaf rfl).complete
  cases ht : leaf.transfers with
  | false =>
    have hfd : m.ctx.transferringFileD = -1 := (hcl ht).1
    have hcur : (outputs m.ctx.calls).current = none := (hcl ht).2
    constructor
    case isOpen =>
      rw [hl]
      cases leaf <;> simp_all [RState.transfers]
    case created => exact hs.created
    case current => simp [hfd, hcur]
    case file => simp [hcur]
    case earlier => exact hearlier
  | true =>
    have htr := hs.kept.transferring leaf rfl ht
    have hopen : m.ctx.transferringFileD ≠ -1 := by
      have : -1 < m.ctx.transferringFileD := htr.isOpen
      omega
    obtain ⟨f, hcur, hf⟩ := htr.current
    constructor
    case isOpen =>
      rw [hl]
      cases leaf <;> simp_all [RState.transfers]
    case created => exact hs.created
    case current => exact ⟨fun _ => ⟨f, hcur⟩, fun _ => hopen⟩
    case file =>
      intro g hg
      cases hcur.symm.trans hg
      simpa [hl] using hf
    case earlier => exact hearlier

/-- A file of 200 bytes is announced, and comes in two blocks, the second of which comes twice. -/
def blkMoves : List (Env × Mesg) :=
  [(.calm (restOf 0 (statChunk [97] [50, 48, 48])), .ser SOH),
    (.calm (restOf 1 (List.replicate CHUNK_SZ 98)), .ser SOH), (.calm [], .tm),
    (.calm (restOf 2 (List.replicate CHUNK_SZ 99)), .ser SOH), (.calm [], .tm),
    (.calm (restOf 2 (List.replicate CHUNK_SZ 99)), .ser SOH), (.calm [], .tm)]

def eotMoves : List (Env × Mesg) := [(.calm [], .ser EOT), (.calm [], .ser EOT)]

set_option maxRecDepth 4000 in
theorem fileMoves_run : ∃ m₀ m m', Started m₀ ∧ Run yReceiverSS.Step m₀ blkMoves m ∧
    m.active = [.firstByteData] ∧ (outputs m.ctx.calls).current.map (·.data.length) = some 200 ∧
    Run yReceiverSS.Step m₀ (blkMoves ++ eotMoves) m' ∧ m'.active = [.firstByteStat] ∧
      (outputs m'.ctx.calls).earlier.map (·.data.length) = [200] := by
  have hblks : (yReceiverSS.session (.calm []) (.init .blank) blkMoves).toOption.any (fun m =>
      decide (m.active = [RState.firstByteData] ∧
        (outputs m.ctx.calls).current.map (·.data.length) = some 200)) = true := by decide +kernel
  have heots : (yReceiverSS.session (.calm []) (.init .blank) (blkMoves ++ eotMoves)).toOption.any
      (fun m => decide (m.active = [RState.firstByteStat] ∧
        (outputs m.ctx.calls).earlier.map (·.data.length) = [200])) = true := by decide +kernel
  obtain ⟨m₀, m, m', hstart, hr, hc, hr', hc'⟩ := Chart.run_of_sessions hblks heots
  obtain ⟨hdata, hopen⟩ := of_decide_eq_true hc
  obtain ⟨hstat, hclosed⟩ := of_decide_eq_true hc'
  exact ⟨m₀, m, m', ⟨_, _, hstart⟩, hr, hdata, hopen, hr.append hr', hstat, hclosed⟩

theorem store_invariant_file : ∃ m m',
    (outputs m.ctx.calls).current.map (·.data.length) = some 200 ∧ StoreInvariant m ∧
    (outputs m'.ctx.calls).earlier.map (·.data.length) = [200] ∧ StoreInvariant m' := by
  obtain ⟨m₀, m, m', h₀, hr, hdata, hopen, hr', hstat, hclosed⟩ := fileMoves_run
  have hcan : ∀ e ∈ blkMoves ++ eotMoves, e.2 ≠ .ser CAN := by
    intro e hmem
    simp only [blkMoves, eotMoves, List.cons_append, List.nil_append, List.mem_cons,
      List.not_mem_nil, or_false] at hmem
    rcases hmem with rfl | rfl | rfl | rfl | rfl | rfl | rfl | rfl | rfl <;> decide
  have hblks : ∀ e ∈ blkMoves, e.2 ≠ .ser CAN := fun e hmem => hcan e (List.mem_append_left _ hmem)
  have hm : Settled m := Reachable.settled ⟨m₀, _, h₀, hr⟩
  have hm' : Settled m' := Reachable.settled ⟨m₀, _, h₀, hr'⟩
  exact ⟨m, m', hopen, store_invariant h₀ hblks hr (hm.running_of_active hdata), hclosed,
    store_invariant h₀ hcan hr' (hm'.running_of_active hstat)⟩

end YModem.Receiver
