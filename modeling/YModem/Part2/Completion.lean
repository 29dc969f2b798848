import YModem.Part2.Stages

/-!
# A session of Part 2 comes to its end

From the last stat block on the responses do not matter any more. The stages and what comes behind
them make up a whole session: it is finished after a bounded number of moves, and what it has
written is known.
-/

namespace YModem.Part2

open YModem.Lib YModem.Peer YModem.SmartState
open YModem.Sender (Blk File filename lastStatBlk)
open YModem.Session (Sendable payload payloads)
open SenderY ReceiverY

section Moves

variable {files : List (File × Int)} {y y' : Sys} {k n : Nat} {f : File}

/-! ## Behind the last stat block -/

/-- The receiver takes the last stat block. -/
theorem last_read {env : Env} (hrcv : Announced files files.length y.rcv) (hsent : LastSent y)
    (hmv : y.Step (.read env) y') : y'.snd = y.snd ∧
      y'.rcv.wait = .returned ∧ y'.rcv.result = ((doneText files.length).dropEnd 2).copy ∧
      HasFiles files files.length (outputs y'.rcv.calls) ∧ y'.toM = [] ∧ y'.toR = [] ∧
      y'.fromR = y.fromR ++ [ACK] := by
  cases hsent with
  | sent hM hR hc => simp [Sys.Step, Sys.exec, hR] at hmv
  | @there got hM hR hlen hname =>
    have hreads : (Item.blk (SOH :: got)).reads env = [(env, [SOH]), (env, got)] := rfl
    obtain ⟨rcv, hrun, ⟨⟨hwait, hresult⟩, houts⟩, hresponses⟩ :=
      @Waiting.last env y.rcv files.length got hrcv.waiting hlen hname
    rw [Sys.Step, Sys.exec, hR] at hmv
    simp only at hmv
    split_ifs at hmv
    rw [hreads, hrun] at hmv
    cases hmv
    refine ⟨rfl, hwait, hresult, ?_, hM, rfl, ?_⟩
    · show HasFiles files files.length (outputs rcv.calls)
      rw [houts]
      exact hrcv.files
    · show y.fromR ++ (responses rcv.calls).drop (responses y.rcv.calls).length = _
      rw [hresponses, List.drop_left]

/-- The medium or the receiver can take the last stat block. -/
theorem last_can_move (hrcv : Announced files files.length y.rcv) (hsent : LastSent y) :
    (∃ mv y', y.KindStep mv y') ∨ y.Spoilt := by
  cases hsent with
  | sent hM hR hc => exact can_forward hM
  | @there got hM hR hlen hname =>
    obtain ⟨rcv, hrun, -⟩ := @Waiting.last ⟨3, 0⟩ y.rcv files.length got hrcv.waiting hlen hname
    refine .inl ⟨.read ⟨3, 0⟩, y.reads rcv [], Sys.Step.kind ?_ nofun⟩
    rw [Sys.Step, Sys.exec, hR]
    refine (if_pos ⟨by decide, rfl⟩).trans ?_
    rw [show (Item.blk (SOH :: got)).reads ⟨3, 0⟩ = [(⟨3, 0⟩, [SOH]), (⟨3, 0⟩, got)] from rfl, hrun]
    rfl

theorem cString_lastStatBlk : cString (lastStatBlk.tail.drop 2) = some [] := by decide

/-- The medium takes the last stat block. -/
theorem last_forward {whole : Bool} (hsent : LastSent y) (hdata : ¬ y.AtData)
    (hmv : y.KindStep (.forward whole) y') : y'.snd = y.snd ∧ y'.rcv = y.rcv ∧ LastSent y' ∧
      y'.toM.length < y.toM.length ∧ y'.fromR = y.fromR := by
  have hspares := hmv.spares whole rfl hdata
  have hstep := hmv.step
  cases hsent with
  | @sent n acks hM hR hc =>
    obtain ⟨htakes, m, -, harrives, rfl⟩ := forward_inv hc hM hstep
    obtain ⟨got, harrived, hlen, -⟩ := arrived_blk Session.intact_lastStatBlk htakes n
    have hthere : (y.forwards m (.blk lastStatBlk) []).toR = [.blk (SOH :: got)] := by
      show y.toR ++ [y.arrives m _] = _
      rw [hR, harrives]
      exact congrArg ([·]) harrived
    rw [hthere, hR, hM] at hspares
    have hname : cString (got.drop 2) = some [] :=
      (List.cons.inj hspares).1.trans cString_lastStatBlk
    exact ⟨rfl, rfl, .there rfl hthere hlen hname, by simp [Sys.forwards, hM], rfl⟩
  | there hM hR hlen hname => simp [Sys.Step, Sys.exec, hM] at hstep

/-- Nothing but responses is read. -/
theorem LastSent.of_same (h : LastSent y) (hmedium : y'.medium = y.medium) (hM' : y'.toM = y.toM)
    (hR' : y'.toR = y.toR) : LastSent y' := by
  cases h with
  | sent hM hR hc => exact .sent (hM'.trans hM) (hR'.trans hR) (hmedium ▸ hc)
  | there hM hR hlen hname => exact .there (hM'.trans hM) (hR'.trans hR) hlen hname

theorem LastSent.passes (h : LastSent y)
    (hmedium : ∃ first rest, y'.medium = y.medium.MsgFromTerm1 first rest) (hM' : y'.toM = y.toM)
    (hR' : y'.toR = y.toR) : LastSent y' := by
  obtain ⟨first, rest, hmedium⟩ := hmedium
  cases h with
  | sent hM hR hc =>
    obtain ⟨hc', -⟩ := term1_passes hc first rest
    exact .sent (hM'.trans hM) (hR'.trans hR) (hmedium ▸ hc')
  | there hM hR hlen hname => exact .there (hM'.trans hM) (hR'.trans hR) hlen hname

/-- The sender takes its last response. -/
theorem last_answer (hsnd : AtLast files y.snd) (hmv : y.Step .answer y') : y'.rcv = y.rcv ∧
    y'.medium = y.medium ∧ y'.toM = y.toM ∧ y'.toR = y.toR ∧ y'.fromR = y.fromR ∧
      y'.snd.wait = .returned ∧ y'.snd.result = ((doneText files.length).dropEnd 2).copy := by
  cases htoS : y.toS with
  | nil => simp [Sys.Step, Sys.exec, htoS] at hmv
  | cons c toS =>
    obtain ⟨s', hs, ⟨hwait, hresult⟩, hitems⟩ := hsnd.goes c
    rw [Sys.Step, Sys.exec, htoS] at hmv
    replace hmv : (y.snd.proceed c).toOption.map (y.sends · toS) = some y' := hmv
    rw [hs] at hmv
    cases hmv
    refine ⟨rfl, rfl, ?_, rfl, rfl, hwait, hresult⟩
    show y.toM ++ (itemsSent s'.trace).drop (itemsSent y.snd.trace).length = _
    rw [hitems, List.drop_left, List.append_nil]

theorem can_answer_last (hsnd : AtLast files y.snd) (hback : y.toS ++ y.fromR ≠ []) :
    ∃ mv y', y.KindStep mv y' := by
  cases htoS : y.toS with
  | nil =>
    rw [htoS, List.nil_append] at hback
    exact can_pass hback
  | cons c toS =>
    obtain ⟨s', hs, -⟩ := hsnd.goes c
    refine ⟨.answer, y.sends s' toS, Sys.Step.kind ?_ nofun⟩
    rw [Sys.Step, Sys.exec, htoS]
    show (y.snd.proceed c).toOption.map (y.sends · toS) = _
    rw [hs]
    rfl

theorem returned_no_answer (hsnd : y.snd.wait = .returned) : ¬ y.Step .answer y' := by
  intro hmv
  cases htoS : y.toS with
  | nil => simp [Sys.Step, Sys.exec, htoS] at hmv
  | cons c toS =>
    have hw : (y.snd.log (.read c)).wait = .returned := hsnd
    have herr : y.snd.proceed c = .error .notRunning := by rw [SenderY.proceed, hw]
    rw [Sys.Step, Sys.exec, htoS] at hmv
    replace hmv : (y.snd.proceed c).toOption.map (y.sends · toS) = some y' := hmv
    rw [herr] at hmv
    cases hmv

/-- Behind the last stat block every move leads to the end. -/
theorem Ending.step (h : Ending files y n) {mv : Move} (hmv : y.KindStep mv y') :
    ∃ k < n, Ending files y' k := by
  have hstep := hmv.step
  cases h with
  | last hsnd hrcv hsent =>
    cases mv with
    | answer =>
      obtain ⟨hrcv', hmedium, hM', hR', hfrom, hwait, hresult⟩ := last_answer hsnd hstep
      have hsent' := hsent.of_same hmedium hM' hR'
      refine ⟨_, ?_, .sndDone hwait hresult (hrcv' ▸ hrcv) hsent'⟩
      rw [hM', hfrom]
      omega
    | pass numOfByte =>
      obtain ⟨hsnd', hrcv', hM', hR', hmedium, hlt, -⟩ := pass_inv hstep
      have hsent' := hsent.passes hmedium hM' hR'
      refine ⟨_, ?_, .last (hsnd' ▸ hsnd) (hrcv' ▸ hrcv) hsent'⟩
      rw [hM']
      omega
    | forward whole =>
      obtain ⟨hsnd', hrcv', hsent', hlt, hfrom⟩ :=
        last_forward hsent (not_atData hsnd.wait nofun) hmv
      refine ⟨_, ?_, .last (hsnd' ▸ hsnd) (hrcv' ▸ hrcv) hsent'⟩
      rw [hfrom]
      omega
    | read env =>
      obtain ⟨hsnd', hwait, hresult, hfiles, hM', hR', hfrom⟩ := last_read hrcv hsent hstep
      refine ⟨_, ?_, .rcvDone (hsnd' ▸ hsnd) hwait hresult hfiles hM' hR' (by simp [hfrom])⟩
      rw [hfrom, List.length_append, List.length_singleton]
      omega
  | sndDone hsnd hres hrcv hsent =>
    cases mv with
    | answer => exact absurd hstep (returned_no_answer hsnd)
    | pass numOfByte =>
      obtain ⟨hsnd', hrcv', hM', hR', hmedium, hlt, -⟩ := pass_inv hstep
      have hsent' := hsent.passes hmedium hM' hR'
      refine ⟨_, ?_, .sndDone (hsnd' ▸ hsnd) (hsnd' ▸ hres) (hrcv' ▸ hrcv) hsent'⟩
      rw [hM']
      omega
    | forward whole =>
      obtain ⟨hsnd', hrcv', hsent', hlt, hfrom⟩ := last_forward hsent (not_atData hsnd nofun) hmv
      refine ⟨_, ?_, .sndDone (hsnd' ▸ hsnd) (hsnd' ▸ hres) (hrcv' ▸ hrcv) hsent'⟩
      rw [hfrom]
      omega
    | read env =>
      obtain ⟨hsnd', hwait, hresult, hfiles, hM', hR', hfrom⟩ := last_read hrcv hsent hstep
      refine ⟨_, ?_, .finished ⟨hsnd' ▸ hsnd, hwait, hsnd' ▸ hres, hresult, hfiles⟩ hM' hR'⟩
      rw [hfrom, List.length_append, List.length_singleton]
      omega
  | rcvDone hsnd hrcv hres hfiles hM hR hback =>
    cases mv with
    | answer =>
      obtain ⟨hrcv', -, hM', hR', hfrom, hwait, hresult⟩ := last_answer hsnd hstep
      refine ⟨_, ?_, .finished ⟨hwait, hrcv' ▸ hrcv, hresult, hrcv' ▸ hres, hrcv' ▸ hfiles⟩
        (hM'.trans hM) (hR'.trans hR)⟩
      rw [hfrom]
      omega
    | pass numOfByte =>
      obtain ⟨hsnd', hrcv', hM', hR', -, hlt, htoS⟩ := pass_inv hstep
      exact ⟨_, by omega, .rcvDone (hsnd' ▸ hsnd) (hrcv' ▸ hrcv) (hrcv' ▸ hres) (hrcv' ▸ hfiles)
        (hM'.trans hM) (hR'.trans hR) (List.append_ne_nil_of_left_ne_nil htoS _)⟩
    | forward whole => simp [Sys.Step, Sys.exec, hM] at hstep
    | read env => simp [Sys.Step, Sys.exec, hR] at hstep
  | finished hfin hM hR =>
    cases mv with
    | answer => exact absurd hstep (returned_no_answer hfin.snd)
    | pass numOfByte =>
      obtain ⟨hsnd', hrcv', hM', hR', -, hlt, -⟩ := pass_inv hstep
      exact ⟨_, hlt, .finished ⟨hsnd' ▸ hfin.snd, hrcv' ▸ hfin.rcv, hsnd' ▸ hfin.sndResult,
        hrcv' ▸ hfin.rcvResult, hrcv' ▸ hfin.files⟩ (hM'.trans hM) (hR'.trans hR)⟩
    | forward whole => simp [Sys.Step, Sys.exec, hM] at hstep
    | read env => simp [Sys.Step, Sys.exec, hR] at hstep

/-- There is a move until the session is finished, if the medium does not spoil it. -/
theorem Ending.can_move (h : Ending files y n) :
    ((∃ mv y', y.KindStep mv y') ∨ y.Spoilt) ∨ Finished files y := by
  cases h with
  | last _ hrcv hsent => exact .inl (last_can_move hrcv hsent)
  | sndDone _ _ hrcv hsent => exact .inl (last_can_move hrcv hsent)
  | rcvDone hsnd _ _ _ _ _ hback => exact .inl (.inl (can_answer_last hsnd hback))
  | finished hfin _ _ => exact .inr hfin

theorem OnTrack.step (hopens : Opens files) (h : OnTrack files y n) {mv : Move}
    (hmv : y.KindStep mv y') : ∃ k < n, OnTrack files y' k := by
  cases h with
  | stage hp hat => exact (hp.advances hopens hat).every mv y' hmv
  | ending hend =>
    obtain ⟨k, hk, hend'⟩ := hend.step hmv
    exact ⟨k, hk, .ending hend'⟩

theorem OnTrack.can_move (hopens : Opens files) (h : OnTrack files y n) :
    ((∃ mv y', y.KindStep mv y') ∨ y.Spoilt) ∨ Finished files y := by
  cases h with
  | stage hp hat => exact .inl (hp.advances hopens hat).move
  | ending hend => exact hend.can_move

/-- The receiver returns with all the files. -/
theorem OnTrack.of_returned (h : OnTrack files y n) (hrcv : y.rcv.wait = .returned) :
    HasFiles files files.length (outputs y.rcv.calls) := by
  cases h with
  | stage hp hat => exact absurd hrcv (hp.running hat.rcv)
  | ending hend =>
    cases hend with
    | last _ hann _ => exact absurd hrcv hann.running
    | sndDone _ _ hann _ => exact absurd hrcv hann.running
    | rcvDone _ _ _ hfiles _ _ _ => exact hfiles
    | finished hfin _ _ => exact hfin.files

/-! ## Whole sessions -/

theorem onTrack_init {snd : SenderY} {blkBuf sentBuf rcvBlk : Blk} (hopens : Opens files)
    (hs : SenderY.start files blkBuf sentBuf = .ok snd) :
    OnTrack files (.init snd (ReceiverY.start rcvBlk)) (sessionLeft (files.map Prod.fst) + 1) := by
  obtain ⟨s, hs', hstart⟩ := SenderY.start_spec hopens blkBuf sentBuf
  obtain rfl : s = snd := Except.ok.inj (hs'.symm.trans hs)
  have hrcv : Announced files 0 (ReceiverY.start rcvBlk) := ⟨⟨rfl, rfl, rfl⟩, rfl⟩
  rcases hstart with ⟨f, hf, hat, hitems⟩ | ⟨rfl, hat, hitems⟩
  · have hleft : sessionLeft (files.map Prod.fst) = blkLeft files 0 f 0 + 7 := by
      rw [← IsFile.fileLeft hf, fileLeft, List.drop_zero]
    have hsum : ([NCG].map ackOf).sum = 0 := by decide
    have hback : Back (.init s (ReceiverY.start rcvBlk)) 0 0 [NCG] :=
      ⟨⟨0, counts_init, hsum.symm, rfl⟩, List.not_mem_nil⟩
    have hinit : At ⟨AtStat files 0 f, 0, acksBefore files 0, [NCG], Announced files 0, [], []⟩
        (.init s (ReceiverY.start rcvBlk)) := ⟨hat, hrcv, hback, hitems, rfl⟩
    rw [hleft]
    exact .stage (.called hf) hinit
  · have hsent : LastSent (.init s (ReceiverY.start rcvBlk)) := .sent hitems rfl counts_init
    have hM : (itemsSent s.trace).length = 1 := congrArg List.length hitems
    have hend := Ending.last hat hrcv hsent
    simp only [Sys.init, hM] at hend
    exact .ending hend

/-- Every session is on track, and each kind move has brought it nearer to its end. -/
theorem onTrack_of_run {snd : SenderY} {blkBuf sentBuf rcvBlk : Blk} {moves : List Move}
    (hopens : Opens files) (hs : SenderY.start files blkBuf sentBuf = .ok snd)
    (h : Run Sys.KindStep (.init snd (ReceiverY.start rcvBlk)) moves y) :
    ∃ k, OnTrack files y k ∧ moves.length + k ≤ sessionLeft (files.map Prod.fst) + 1 :=
  @Run.length_add_le _ _ Sys.KindStep (OnTrack files) _ _ _ _ h
    (fun hon hmv => hon.step hopens hmv) (onTrack_init hopens hs)

/-- **Every session of Part 2 comes to its end, if its medium does not spoil it, and this is what it
has written.** However the sender, the medium and the receiver take turns and whichever data blocks
the medium damages, the moves are bounded; when none is left both ends have returned, and the files
hold every block once, or twice where the first ACK for it was a tenth one. -/
theorem part2_session_writes {snd : SenderY} {blkBuf sentBuf rcvBlk : Blk} {moves : List Move}
    (hopens : Opens files) (hs : SenderY.start files blkBuf sentBuf = .ok snd)
    (h : Run Sys.KindStep (.init snd (ReceiverY.start rcvBlk)) moves y) :
    moves.length ≤ sessionLeft (files.map Prod.fst) + 1 ∧
      ((∃ mv y', y.KindStep mv y') ∨ y.Spoilt ∨ Finished files y) := by
  obtain ⟨k, hon, hle⟩ := onTrack_of_run hopens hs h
  exact ⟨by omega, or_assoc.mp (hon.can_move hopens)⟩

theorem opens_singleton {fd : Int} (hf : Sendable f) (hfd : 0 ≤ fd) : Opens [(f, fd)] := by
  intro g hg
  obtain rfl := List.mem_singleton.mp hg
  exact ⟨hf, hfd⟩

/-- The kind moves. -/
def Sys.execKind (y : Sys) (mv : Move) : Option Sys :=
  match mv with
  | .forward whole => (y.exec (.forward whole)).filter fun y' => decide (y.Spares y')
  | mv => y.exec mv

theorem execKind_kind {mv : Move} (h : y.execKind mv = some y') : y.KindStep mv y' := by
  cases mv with
  | forward whole =>
    obtain ⟨hstep, hspares⟩ := Option.filter_eq_some_iff.mp h
    exact ⟨hstep, fun _ _ => of_decide_eq_true hspares⟩
  | answer => exact Sys.Step.kind h nofun
  | pass numOfByte => exact Sys.Step.kind h nofun
  | read env => exact Sys.Step.kind h nofun

/-- A file of ten blocks. -/
def tenBlks : File := fileA (List.replicate 1280 98)

theorem length_tenBlks : tenBlks.contents.length = 1280 := List.length_replicate

theorem sendable_tenBlks : Sendable tenBlks where
  named := by decide
  fits := by
    rw [length_tenBlks]
    decide
  size := by
    rw [length_tenBlks]
    decide

/-- Five blocks are damaged, and the block number 9 is sent twice. The medium damages the last stat
block too, but not the name in it. -/
def tenMoves : List Move :=
  let env : Env := ⟨3, 0⟩
  [.pass 1, .answer, .forward true, .read env, .pass 2, .answer, .answer] ++
  (List.replicate 8 [.forward true, .read env, .pass 1, .answer,
    .forward false, .read env, .pass 1, .answer]).flatten ++
  [.forward true, .read env, .pass 1, .answer, .forward true, .read env, .pass 2, .answer,
    .forward true, .read env, .pass 1, .answer]

set_option maxRecDepth 8000 in
/-- This session, and where it ends. -/
theorem tenMoves_run : ∃ snd y, SenderY.start [(tenBlks, 3)] .blank .blank = .ok snd ∧
    Run Sys.KindStep (.init snd (ReceiverY.start .blank)) tenMoves y ∧ y.rcv.wait = .returned := by
  have hrun : ((SenderY.start [(tenBlks, 3)] .blank .blank).toOption.bind fun snd =>
      (tenMoves.foldlM Sys.execKind (.init snd (ReceiverY.start .blank))).map fun y => y.rcv.wait) =
        some .returned := by decide +kernel
  obtain ⟨snd, hsnd, hrun⟩ := Option.bind_eq_some_iff.mp hrun
  obtain ⟨y, hy, hrcv⟩ := Option.map_eq_some_iff.mp hrun
  exact ⟨snd, y, toOption_eq_some.mp hsnd, (Run.foldlM_iff.mp hy).mono execKind_kind, hrcv⟩

theorem part2_session_writes_ten : ∃ snd y, SenderY.start [(tenBlks, 3)] .blank .blank = .ok snd ∧
    Run Sys.KindStep (.init snd (ReceiverY.start .blank)) tenMoves y ∧
    tenMoves.length ≤ sessionLeft ([(tenBlks, (3 : Int))].map Prod.fst) + 1 ∧
    ((∃ mv y', y.KindStep mv y') ∨ y.Spoilt ∨ Finished [(tenBlks, 3)] y) := by
  obtain ⟨snd, y, hs, hrun, -⟩ := tenMoves_run
  exact ⟨snd, y, hs, hrun,
    part2_session_writes (opens_singleton sendable_tenBlks (by decide)) hs hrun⟩

/-! ## One file -/

/-- The ACKs behind `k` blocks of the first file: every ninth block is acknowledged twice. -/
theorem acksBehind_one (k : Nat) : acksBehind 1 k = 1 + k + k / 9 := by
  induction k with
  | zero => rfl
  | succ k ih =>
    rw [acksBehind, ih, copiesAt]
    split_ifs <;> omega

theorem copiesAt_first (k : Nat) : copiesAt (acksBehind 1 k) = if 9 ∣ k + 1 then 2 else 1 := by
  rw [acksBehind_one, copiesAt]
  have hiff : 10 ∣ 1 + k + k / 9 + 1 ↔ 9 ∣ k + 1 := by omega
  simp only [hiff]

/-- The blocks of a file in order, every ninth one twice. -/
def ninthTwice (f : File) (k : Nat) : List UInt8 :=
  (List.range k).flatMap fun j =>
    if 9 ∣ j + 1 then payload f (j + 1) ++ payload f (j + 1) else payload f (j + 1)

theorem blksWritten_one (f : File) (k : Nat) : blksWritten 1 f k = ninthTwice f k := by
  induction k with
  | zero => rfl
  | succ k ih =>
    rw [blksWritten, ih, ninthTwice, ninthTwice, List.range_succ, List.flatMap_append,
      copiesAt_first, List.flatMap_singleton]
    split_ifs <;> simp [List.replicate_succ]

/-- Up to eight blocks there is no second copy. -/
theorem ninthTwice_of_le (hk : k ≤ 8) : ninthTwice f k = (payloads f k).flatten := by
  rw [ninthTwice, payloads, List.flatten_eq_flatMap, List.flatMap_map]
  refine List.flatMap_congr fun j hj => ?_
  rw [List.mem_range] at hj
  rw [if_neg (by omega)]
  rfl

/-- More blocks take more bytes than they have. -/
theorem length_ninthTwice (hf : Sendable f) (k : Nat) :
    (ninthTwice f k).length = CHUNK_SZ * (k + k / 9) := by
  induction k with
  | zero => rfl
  | succ k ih =>
    have hpay := Session.length_payload hf (k + 1)
    have hsz : CHUNK_SZ = 128 := rfl
    rw [ninthTwice, List.range_succ, List.flatMap_append, List.length_append, List.flatMap_singleton]
    rw [ninthTwice] at ih
    rw [ih]
    split_ifs with hnine
    · rw [List.length_append, hpay, hsz]
      omega
    · rw [hpay, hsz]
      omega

theorem length_payloads_flatten (hf : Sendable f) (k : Nat) :
    (payloads f k).flatten.length = CHUNK_SZ * k := by
  rw [length_flatten_of_forall (n := CHUNK_SZ), Session.length_payloads]
  intro bytes hmem
  obtain ⟨j, -, rfl⟩ := List.mem_map.mp hmem
  exact Session.length_payload hf (j + 1)

/-- Without padding the payloads are the file. -/
theorem payloads_eq_contents (hf : Sendable f) (hdvd : CHUNK_SZ ∣ f.contents.length) :
    (payloads f f.numChunks).flatten = f.contents := by
  have hlen : (payloads f f.numChunks).flatten.length = f.contents.length := by
    have hsz : CHUNK_SZ = 128 := rfl
    rw [length_payloads_flatten hf, File.numChunks, hsz]
    rw [hsz] at hdvd
    omega
  have htake := Session.flatten_payloads f (Nat.le_refl f.numChunks)
  rw [Session.take_numChunks, ← hlen, List.take_length] at htake
  exact htake

/-- **Every ninth block of a single file is written twice**, whatever the medium damages on the way
and however the threads take turns, so that the copy is exact when there are at most eight blocks and
the last one is full, and only then. -/
theorem ninth_block_twice {fd : Int} {snd : SenderY} {blkBuf sentBuf rcvBlk : Blk} {moves : List Move}
    (hf : Sendable f) (hfd : 0 ≤ fd) (hs : SenderY.start [(f, fd)] blkBuf sentBuf = .ok snd)
    (h : Run Sys.KindStep (.init snd (ReceiverY.start rcvBlk)) moves y)
    (hend : y.rcv.wait = .returned) :
    ∃ o, outputs y.rcv.calls = [o] ∧ o.name = filename f.name ∧
      o.data = ninthTwice f f.numChunks ∧
      (o.data = f.contents ↔ f.numChunks ≤ 8 ∧ CHUNK_SZ ∣ f.contents.length) := by
  obtain ⟨k, hon, -⟩ := onTrack_of_run (opens_singleton hf hfd) hs h
  have hfiles : (outputs y.rcv.calls).reverse.map (fun o => (o.name, o.data)) =
      [(filename f.name, ninthTwice f f.numChunks)] := by
    rw [← blksWritten_one]
    exact hon.of_returned hend
  obtain ⟨o, hout, heq⟩ := List.map_eq_singleton_iff.mp hfiles
  obtain ⟨hname, hdata⟩ := Prod.mk.inj heq
  refine ⟨o, List.reverse_eq_iff.mp hout, hname, hdata, ?_⟩
  rw [hdata]
  constructor
  · intro hexact
    have hlen := congrArg List.length hexact
    have hsz : CHUNK_SZ = 128 := rfl
    rw [length_ninthTwice hf, File.numChunks, hsz] at hlen
    rw [File.numChunks, hsz]
    omega
  · rintro ⟨hk, hdvd⟩
    rw [ninthTwice_of_le hk, payloads_eq_contents hf hdvd]

theorem ninth_block_twice_ten : ∃ snd y o, SenderY.start [(tenBlks, 3)] .blank .blank = .ok snd ∧
    Run Sys.KindStep (.init snd (ReceiverY.start .blank)) tenMoves y ∧ y.rcv.wait = .returned ∧
    outputs y.rcv.calls = [o] ∧ o.name = filename tenBlks.name ∧ o.data = ninthTwice tenBlks 10 ∧
    o.data ≠ tenBlks.contents := by
  obtain ⟨snd, y, hs, hrun, hrcv⟩ := tenMoves_run
  have hten : tenBlks.numChunks = 10 := by
    rw [File.numChunks, length_tenBlks]
    rfl
  obtain ⟨o, hout, hname, hdata, hiff⟩ :=
    ninth_block_twice sendable_tenBlks (by decide) hs hrun hrcv
  rw [hten] at hdata hiff
  exact ⟨snd, y, o, hs, hrun, hrcv, hout, hname, hdata,
    fun hexact => absurd (hiff.mp hexact).1 (by decide)⟩

end Moves

end YModem.Part2
