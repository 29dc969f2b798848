import YModem.Session.ReceiverInStep

/-!
# The exchange comes to its end

The timers are longer than the lines: a timeout happens when nothing travels any more. The line
to the receiver may damage, spoil or lose messages, but fewer than `errB` of them until a data
block or the end of a file has come through; the line back is reliable and every system call
succeeds. Then every schedule of the moves is finite, and when no move is left both machines
have stopped with "EndOfSession" and every file has been copied.
-/

namespace YModem.Session

open YModem.Lib YModem.Peer YModem.SmartState YModem.Sender YModem.Receiver StopAndWait

/-! ## Timely moves -/

/-- A system and the number of the messages damaged or lost since a data block or the end of a
file has come through. -/
structure Timely where
  sys : Sys
  faults : Nat

/-- What comes next is a data block or the EOT that closes a file. -/
def Sys.renews (y : Sys) : Bool :=
  match y.toR with
  | .blk _ :: _ => y.rcv.ctx.transferringFileD ≠ -1
  | .eot :: _ => y.rcv.active = [.eot]
  | [] => false

/-- The bytes of a block that comes next can arrive as `env.rest`. -/
def Sys.damages (y : Sys) (env : Receiver.Env) : Bool :=
  match y.toR with
  | .blk blk :: _ => Damaged blk env.rest
  | _ => false

namespace Timely

/-- A move that counts as a fault. -/
def fault (t : Timely) (mv : Move) : Option Timely :=
  if t.faults + 1 < errB then (t.sys.exec mv).map (⟨·, t.faults + 1⟩) else none

def exec (t : Timely) : Move → Option Timely
  | .answer env =>
    if env.opened ≠ -1 ∧ env.close ≠ -1 then (t.sys.exec (.answer env)).map (⟨·, t.faults⟩)
    else none
  | .read env =>
    if env.creat ≠ -1 ∧ env.close = 0 then
      (t.sys.exec (.read env)).map (⟨·, if t.sys.renews then 0 else t.faults⟩)
    else none
  | .rcvTM env =>
    if t.sys.toR = [] ∧ t.sys.toS = [] then (t.sys.exec (.rcvTM env)).map (⟨·, t.faults⟩) else none
  | .readDamaged env => if t.sys.damages env then t.fault (.readDamaged env) else none
  | .readNoise env c => t.fault (.readNoise env c)
  | .lose => t.fault .lose
  | .sndTM _ | .drop _ | .nak _ => none

def Step (t : Timely) (mv : Move) (t' : Timely) : Prop := t.exec mv = some t'

end Timely

/-! ## What travels in a session on track -/

/-- The two ends at their places, with what is under way. -/
structure Ends (files : List File) (y : Sys) (p : SPlace) (es : Nat) (q : RPlace) (leaf : RState)
    (er : Nat) (draining : Bool) (toR : List Msg) (toS : List UInt8) : Prop where
  sndSettled : Sender.Settled y.snd
  rcvSettled : Receiver.Settled y.rcv
  snd : SndFit files p es (Sender.configOf y.snd)
  rcv : RcvFit files q leaf er (Receiver.configOf y.rcv)
  draining : y.draining = draining
  toR : y.toR = toR.map (itemOfMsg files)
  toS : y.toS = toS

/-- Both machines have stopped, and the receiver has a copy of every file. -/
structure Finished (files : List File) (y : Sys) : Prop where
  sndStopped : y.snd.running = false
  rcvStopped : y.rcv.running = false
  sndResult : y.snd.ctx.result = doneText files.length ++ "EndOfSession"
  rcvResult : y.rcv.ctx.result = doneText files.length ++ "EndOfSession"
  received : (created y.rcv.ctx.calls).map (fun o => (o.fileName, o.data)) =
    files.map fun f => (filename f.name, f.contents)

section Ends

variable {files : List File} {y : Sys} {p p' : SPlace} {es es' er er' : Nat} {q q' : RPlace}
  {leaf leaf' : RState} {d : Bool} {toR msgs : List Msg} {toS out : List UInt8} {c : UInt8}
  {msg : Msg}

/-- The sender takes the next response. -/
theorem Ends.answers {senv : Sender.Env} {snd : Sender.Machine}
    (h : Ends files y p es q leaf er false toR (c :: toS))
    (hgo : SndGoes files senv c y.snd msgs p' es') (hs : ySenderSS.Step y.snd (senv, .ser c) snd) :
    Ends files (y.sends snd toS) p' es' q leaf er (msgs.any Msg.isBlk) (toR ++ msgs) toS := by
  obtain ⟨m', hs', hset, hfit, hsent⟩ := hgo
  obtain rfl : m' = snd := Except.ok.inj (hs'.symm.trans hs)
  rw [Sys.sends_eq hsent]
  exact ⟨hset, h.rcvSettled, hfit, h.rcv, by rw [h.draining, Bool.false_or],
    by rw [h.toR, List.map_append], rfl⟩

/-- The receiver reads the only message under way. -/
theorem Ends.reads {renv : Receiver.Env} {mesg : Mesg} {rcv : Receiver.Machine}
    (h : Ends files y p es q leaf er msg.isBlk [msg] [])
    (hgo : RcvGoes files renv mesg y.rcv out q' leaf' er') (hs : yReceiverSS.Step y.rcv (renv, mesg) rcv) :
    Ends files (y.reads (itemOfMsg files msg) [] rcv) p es q' leaf' er' false [] out := by
  obtain ⟨m', hs', hset, hfit, hsent⟩ := hgo
  obtain rfl : m' = rcv := Except.ok.inj (hs'.symm.trans hs)
  have hout := Sys.responses_eq hsent
  rw [Sys.reads, isBlock_itemOfMsg, hout]
  cases hb : msg.isBlk with
  | true => exact ⟨h.sndSettled, hset, h.snd, hfit, rfl, rfl, rfl⟩
  | false =>
    refine ⟨h.sndSettled, hset, h.snd, hfit, ?_, rfl, ?_⟩
    · show y.draining = false
      exact h.draining.trans hb
    · show y.toS ++ out = out
      rw [h.toS, List.nil_append]

/-- The only message under way is lost. -/
theorem Ends.loses (h : Ends files y p es q leaf er msg.isBlk [msg] []) :
    Ends files (y.reads (itemOfMsg files msg) [] y.rcv) p es q leaf er false [] [] := by
  have hout : y.responses y.rcv = [] := List.drop_length
  rw [Sys.reads, isBlock_itemOfMsg, hout]
  cases hb : msg.isBlk with
  | true => exact ⟨h.sndSettled, h.rcvSettled, h.snd, h.rcv, rfl, rfl, rfl⟩
  | false =>
    refine ⟨h.sndSettled, h.rcvSettled, h.snd, h.rcv, ?_, rfl, ?_⟩
    · show y.draining = false
      exact h.draining.trans hb
    · show y.toS ++ [] = []
      rw [h.toS, List.nil_append]

/-- A timeout of the receiver when nothing travels. -/
theorem Ends.timesOut {renv : Receiver.Env} {rcv : Receiver.Machine}
    (h : Ends files y p es q leaf er false [] [])
    (hgo : RcvGoes files renv .tm y.rcv out q' leaf' er') (hs : yReceiverSS.Step y.rcv (renv, .tm) rcv) :
    Ends files { y with rcv, toS := y.toS ++ y.responses rcv } p es q' leaf' er' false [] out := by
  obtain ⟨m', hs', hset, hfit, hsent⟩ := hgo
  obtain rfl : m' = rcv := Except.ok.inj (hs'.symm.trans hs)
  refine ⟨h.sndSettled, hset, h.snd, hfit, h.draining, h.toR, ?_⟩
  show y.toS ++ y.responses m' = out
  rw [Sys.responses_eq hsent, h.toS, List.nil_append]

end Ends

/-! ## How many moves are left -/

/-- The moves of a session without a fault, and nine faults for each data block and each end of a
file. -/
def sessionMoves : List File → Nat
  | [] => 4
  | f :: files => 30 * f.numChunks + 35 + sessionMoves files

/-- The moves that are left when the file number `i` begins. -/
def fileLeft (files : List File) (i : Nat) : Nat := sessionMoves (files.drop i)

/-- The moves that are left when the first EOT of the file is under way. -/
def eotLeft (files : List File) (i : Nat) : Nat := fileLeft files (i + 1) + 31

/-- The moves that are left when the block behind the first `k` data blocks is under way. -/
def blkLeft (files : List File) (i k : Nat) : Nat :=
  eotLeft files i + 30 * (chunksOf files i - k)

theorem fileLeft_of_lt {files : List File} {i : Nat} (hi : i < files.length) :
    fileLeft files i = blkLeft files i 0 + 4 := by
  have hchunks : chunksOf files i = files[i].numChunks :=
    chunksOf_eq (List.getElem?_eq_getElem hi)
  rw [fileLeft, List.drop_eq_getElem_cons hi, sessionMoves, blkLeft, eotLeft, fileLeft, hchunks]
  omega

theorem fileLeft_length (files : List File) : fileLeft files files.length = 4 := by
  rw [fileLeft, List.drop_length]
  rfl

theorem blkLeft_next {files : List File} {i k : Nat} (hk : k < chunksOf files i) :
    blkLeft files i k = blkLeft files i (k + 1) + 30 := by
  simp only [blkLeft]
  omega

theorem blkLeft_end (files : List File) (i : Nat) :
    blkLeft files i (chunksOf files i) = eotLeft files i := by
  simp [blkLeft]

/-- The stages of a session, with the faults that have been counted and the moves that are left. -/
inductive OnTrack (files : List File) (y : Sys) (n : Nat) : Nat → Prop where
  | called {i es er} (hi : i ≤ files.length) (her : er ≤ n)
      (h : Ends files y (.statC i) es (.waiting i) .firstByteStat er false [] [NCG]) :
      OnTrack files y n (fileLeft files i)
  | stat {i es er} (hi : i ≤ files.length) (her : er ≤ n)
      (h : Ends files y (.answer i 0) es (.waiting i) .firstByteStat er true [.blk i 0] []) :
      OnTrack files y n (fileLeft files i - 1)
  | statLost {i es er} (hi : i ≤ files.length) (her : er + 1 ≤ n)
      (h : Ends files y (.answer i 0) es (.waiting i) .firstByteStat er false [] []) :
      OnTrack files y n (fileLeft files i + 1)
  | statAsked {i es er c} (hi : i ≤ files.length) (her : er ≤ n) (hc : c = NAK ∨ c = NCG)
      (h : Ends files y (.answer i 0) es (.waiting i) .firstByteStat er false [] [c]) :
      OnTrack files y n (fileLeft files i)
  | statAcked {i es er} (hi : i < files.length) (her : er ≤ n)
      (h : Ends files y (.answer i 0) es (.receiving i 0) .firstByteData er false [] [ACK, NCG]) :
      OnTrack files y n (blkLeft files i 0 + 2)
  | asked {i es er} (hi : i < files.length) (her : er ≤ n)
      (h : Ends files y (.one i) es (.receiving i 0) .firstByteData er false [] [NCG]) :
      OnTrack files y n (blkLeft files i 0 + 1)
  | blk {i k es er} (hi : i < files.length) (hk : k < chunksOf files i) (her : er ≤ n) (hes : es ≤ n)
      (h : Ends files y (.answer i (k + 1)) es (.receiving i k) .firstByteData er true
        [.blk i (k + 1)] []) :
      OnTrack files y n (blkLeft files i k)
  | blkLost {i k es er} (hi : i < files.length) (hk : k < chunksOf files i) (her : er + 1 ≤ n)
      (hes : es + 1 ≤ n)
      (h : Ends files y (.answer i (k + 1)) es (.receiving i k) .firstByteData er false [] []) :
      OnTrack files y n (blkLeft files i k + 2)
  | blkBad {i k es er} (hi : i < files.length) (hk : k < chunksOf files i) (her : er ≤ n)
      (hes : es + 1 ≤ n)
      (h : Ends files y (.answer i (k + 1)) es (.pending i k false) .condTransientData er false [] []) :
      OnTrack files y n (blkLeft files i k + 2)
  | blkNaked {i k es er} (hi : i < files.length) (hk : k < chunksOf files i) (her : er ≤ n)
      (hes : es + 1 ≤ n)
      (h : Ends files y (.answer i (k + 1)) es (.receiving i k) .firstByteData er false [] [NAK]) :
      OnTrack files y n (blkLeft files i k + 1)
  | blkRead {i k es er} (hi : i < files.length) (hk : k < chunksOf files i) (her : er ≤ n)
      (h : Ends files y (.answer i (k + 1)) es (.pending i (k + 1) true) .condTransientData er false
        [] []) :
      OnTrack files y n (blkLeft files i (k + 1) + 2)
  | blkAcked {i k es er} (hi : i < files.length) (hk : k < chunksOf files i) (her : er ≤ n)
      (h : Ends files y (.answer i (k + 1)) es (.receiving i (k + 1)) .firstByteData er false []
        [ACK]) :
      OnTrack files y n (blkLeft files i (k + 1) + 1)
  | eot {i naked es er} (hi : i < files.length) (her : er ≤ n) (hes : naked = true → es + 1 ≤ n)
      (h : Ends files y (.eot i naked) es (.receiving i (chunksOf files i)) .firstByteData er false
        [.eot] []) :
      OnTrack files y n (eotLeft files i)
  | eotLost {i naked es er} (hi : i < files.length) (her : er + 1 ≤ n)
      (hes : naked = true → es + 2 ≤ n)
      (h : Ends files y (.eot i naked) es (.receiving i (chunksOf files i)) .firstByteData er false
        [] []) :
      OnTrack files y n (eotLeft files i + 2)
  | eotAsked {i naked es er} (hi : i < files.length) (her : er ≤ n) (hn : 1 ≤ n)
      (hes : naked = true → es + 2 ≤ n)
      (h : Ends files y (.eot i naked) es (.receiving i (chunksOf files i)) .firstByteData er false
        [] [NAK]) :
      OnTrack files y n (eotLeft files i + 1)
  | eotNaked {i naked es er} (hi : i < files.length) (her : er ≤ n + 1)
      (hes : naked = true → es + 1 ≤ n)
      (h : Ends files y (.eot i naked) es (.receiving i (chunksOf files i)) .eot er false [] [NAK]) :
      OnTrack files y n (fileLeft files (i + 1) + 30)
  | secondEot {i es er} (hi : i < files.length) (her : er ≤ n + 1) (hes : es ≤ n)
      (h : Ends files y (.eot i true) es (.receiving i (chunksOf files i)) .eot er false [.eot] []) :
      OnTrack files y n (fileLeft files (i + 1) + 29)
  | secondEotLost {i es er} (hi : i < files.length) (her : er ≤ n) (hes : es + 1 ≤ n)
      (h : Ends files y (.eot i true) es (.receiving i (chunksOf files i)) .eot er false [] []) :
      OnTrack files y n (fileLeft files (i + 1) + 31)
  | eotAcked {i es er} (hi : i < files.length) (her : er ≤ n)
      (h : Ends files y (.eot i true) es (.waiting (i + 1)) .firstByteStat er false [] [ACK, NCG]) :
      OnTrack files y n (fileLeft files (i + 1) + 1)
  | lastAcked {es er}
      (h : Ends files y (.answer files.length 0) es (.ended files.length true) .areWeDone er false []
        [ACK]) :
      OnTrack files y n 2
  | sndStopped {er} (hstop : y.snd.running = false)
      (hresult : y.snd.ctx.result = doneText files.length ++ "EndOfSession")
      (hset : Receiver.Settled y.rcv)
      (hrcv : RcvFit files (.ended files.length true) .areWeDone er (Receiver.configOf y.rcv))
      (hR : y.toR = []) (hS : y.toS = []) :
      OnTrack files y n 1
  | finished (h : Finished files y) (hR : y.toR = []) (hS : y.toS = []) : OnTrack files y n 0

/-- What is left when faults may still happen: each costs at most three moves. -/
def movesLeft (base n : Nat) : Nat := base + 3 * (errB - 1 - n)

/-- The session is on track with `left` moves left. -/
def Left (files : List File) (t : Timely) (left : Nat) : Prop :=
  ∃ base, OnTrack files t.sys t.faults base ∧ t.faults < errB ∧ left = movesLeft base t.faults

/-- There is a move, and every move keeps the session on track with fewer moves left. -/
structure Advances (files : List File) (t : Timely) (left : Nat) : Prop where
  move : ∃ mv t', t.Step mv t'
  every : ∀ mv t', t.Step mv t' → ∃ k < left, Left files t' k

section Moves

variable {files : List File} {y : Sys} {n : Nat} {p p' : SPlace} {es es' er er' : Nat} {q q' : RPlace}
  {leaf leaf' : RState} {d : Bool} {msgs : List Msg} {toS out : List UInt8} {c : UInt8} {msg : Msg}
  {base base' : Nat} {mv : Move} {t' : Timely}

/-- Only a response can be taken. -/
theorem answer_inv (hd : y.draining = false) (hR : y.toR = []) (hS : y.toS = c :: toS)
    (h : Timely.Step ⟨y, n⟩ mv t') :
    ∃ senv snd, mv = .answer senv ∧ (senv.opened ≠ -1 ∧ senv.close ≠ -1) ∧
      ySenderSS.Step y.snd (senv, .ser c) snd ∧ t' = ⟨y.sends snd toS, n⟩ := by
  cases mv with
  | answer env =>
    simp only [Timely.Step, Timely.exec, Sys.exec, hd, hS, Option.map_map] at h
    split_ifs at h with henv
    obtain ⟨snd, hpost, rfl⟩ := toOption_map_inv h
    exact ⟨env, snd, rfl, henv, hpost, rfl⟩
  | rcvTM env => simp [Timely.Step, Timely.exec, hS] at h
  | read env => simp [Timely.Step, Timely.exec, Sys.exec, hR] at h
  | readDamaged env => simp [Timely.Step, Timely.exec, Sys.damages, hR] at h
  | readNoise env b => simp [Timely.Step, Timely.exec, Timely.fault, Sys.exec, hR] at h
  | lose => simp [Timely.Step, Timely.exec, Timely.fault, Sys.exec, hR] at h
  | sndTM env => cases h
  | drop i => cases h
  | nak i => cases h

/-- Only the receiver's timer can run out. -/
theorem quiet_inv (hR : y.toR = []) (hS : y.toS = []) (h : Timely.Step ⟨y, n⟩ mv t') :
    ∃ renv rcv, mv = .rcvTM renv ∧ yReceiverSS.Step y.rcv (renv, .tm) rcv ∧
      t' = ⟨{ y with rcv, toS := y.toS ++ y.responses rcv }, n⟩ := by
  cases mv with
  | answer env =>
    cases hd : y.draining <;> simp [Timely.Step, Timely.exec, Sys.exec, hd, hS] at h
  | rcvTM env =>
    replace h : (y.exec (.rcvTM env)).map (Timely.mk · n) = some t' :=
      (if_pos ⟨hR, hS⟩).symm.trans h
    rw [Sys.exec, Option.map_map] at h
    obtain ⟨rcv, hpost, rfl⟩ := toOption_map_inv h
    exact ⟨env, rcv, rfl, hpost, rfl⟩
  | read env => simp [Timely.Step, Timely.exec, Sys.exec, hR] at h
  | readDamaged env => simp [Timely.Step, Timely.exec, Sys.damages, hR] at h
  | readNoise env b => simp [Timely.Step, Timely.exec, Timely.fault, Sys.exec, hR] at h
  | lose => simp [Timely.Step, Timely.exec, Timely.fault, Sys.exec, hR] at h
  | sndTM env => cases h
  | drop i => cases h
  | nak i => cases h

/-- The only message under way is read, or it is damaged or lost. -/
inductive ReadsOnly (files : List File) (y : Sys) (n : Nat) (msg : Msg) : Move → Timely → Prop where
  | read {renv rcv} (hcreat : renv.creat ≠ -1) (hclose : renv.close = 0)
      (hs : yReceiverSS.Step y.rcv (arriving renv (itemOfMsg files msg),
        .ser (firstByte (itemOfMsg files msg))) rcv) :
      ReadsOnly files y n msg (.read renv)
        ⟨y.reads (itemOfMsg files msg) [] rcv, if y.renews then 0 else n⟩
  | damaged {renv rcv} (hn : n + 1 < errB) (hd : y.damages renv = true)
      (hs : yReceiverSS.Step y.rcv (renv, .ser SOH) rcv) :
      ReadsOnly files y n msg (.readDamaged renv) ⟨y.reads (itemOfMsg files msg) [] rcv, n + 1⟩
  | noise {renv rcv c} (hn : n + 1 < errB) (hc : isNoise c = true)
      (hs : yReceiverSS.Step y.rcv (renv, .ser c) rcv) :
      ReadsOnly files y n msg (.readNoise renv c) ⟨y.reads (itemOfMsg files msg) [] rcv, n + 1⟩
  | lost (hn : n + 1 < errB) :
      ReadsOnly files y n msg .lose ⟨y.reads (itemOfMsg files msg) [] y.rcv, n + 1⟩

theorem fault_inv (h : (Timely.mk y n).fault mv = some t') :
    n + 1 < errB ∧ ∃ y', y.exec mv = some y' ∧ t' = ⟨y', n + 1⟩ := by
  simp only [Timely.fault] at h
  split_ifs at h with hn
  obtain ⟨y', hy, rfl⟩ := Option.map_eq_some_iff.mp h
  exact ⟨hn, y', hy, rfl⟩

theorem read_inv (hR : y.toR = [itemOfMsg files msg]) (hS : y.toS = [])
    (h : Timely.Step ⟨y, n⟩ mv t') : ReadsOnly files y n msg mv t' := by
  cases mv with
  | answer env =>
    cases hd : y.draining <;> simp [Timely.Step, Timely.exec, Sys.exec, hd, hS] at h
  | rcvTM env => simp [Timely.Step, Timely.exec, hR] at h
  | read env =>
    by_cases henv : env.creat ≠ -1 ∧ env.close = 0
    · replace h : (y.exec (.read env)).map (Timely.mk · (if y.renews then 0 else n)) = some t' :=
        (if_pos henv).symm.trans h
      simp only [Sys.exec, hR, Option.map_map] at h
      obtain ⟨rcv, hpost, rfl⟩ := toOption_map_inv h
      exact .read henv.1 henv.2 hpost
    · cases (if_neg henv).symm.trans h
  | readDamaged env =>
    simp only [Timely.Step, Timely.exec] at h
    split_ifs at h with hd
    obtain ⟨hn, y', hy, rfl⟩ := fault_inv h
    simp only [Sys.exec, hR] at hy
    split_ifs at hy with hg
    obtain ⟨rcv, hpost, rfl⟩ := toOption_map_inv hy
    exact .damaged hn hd hpost
  | readNoise env b =>
    obtain ⟨hn, y', hy, rfl⟩ := fault_inv h
    simp only [Sys.exec, hR] at hy
    split_ifs at hy with hb
    obtain ⟨rcv, hpost, rfl⟩ := toOption_map_inv hy
    refine .noise hn ?_ hpost
    simpa [isNoise, not_or, and_assoc] using hb
  | lose =>
    obtain ⟨hn, y', hy, rfl⟩ := fault_inv h
    simp only [Sys.exec, hR, Option.some.injEq] at hy
    subst hy
    exact .lost hn
  | sndTM env => cases h
  | drop i => cases h
  | nak i => cases h

theorem left_of {y' : Sys} (h : OnTrack files y' n base) (hn : n < errB) :
    Left files ⟨y', n⟩ (movesLeft base n) := ⟨base, h, hn, rfl⟩

/-- A response is under way: it is taken. -/
theorem advances_answer (hn : n < errB)
    (h : Ends files y p es q leaf er false [] (c :: toS))
    (hgo : ∀ senv : Sender.Env, senv.opened ≠ -1 → senv.close ≠ -1 →
      SndGoes files senv c y.snd msgs p' es')
    (hnext : ∀ y', Ends files y' p' es' q leaf er (msgs.any Msg.isBlk) msgs toS →
      OnTrack files y' n base') (hlt : base' < base) : Advances files ⟨y, n⟩ (movesLeft base n) := by
  constructor
  · obtain ⟨m', hs, -⟩ := hgo .calm (by decide) (by decide)
    refine ⟨.answer .calm, ⟨y.sends m' toS, n⟩, ?_⟩
    simp only [Timely.Step, Timely.exec, Sys.exec, h.draining, h.toS]
    rw [show ySenderSS.postEvent .calm (.ser c) y.snd = .ok m' from hs]
    rfl
  · intro mv t' hmv
    obtain ⟨senv, snd, -, ⟨hopen, hclose⟩, hs, rfl⟩ := answer_inv h.draining h.toR h.toS hmv
    refine ⟨_, ?_, left_of (hnext _ (h.answers (hgo senv hopen hclose) hs)) hn⟩
    simp only [movesLeft]
    omega

/-- Nothing travels: the receiver's timer runs out. -/
theorem advances_tm (hn : n < errB) (h : Ends files y p es q leaf er false [] [])
    (hgo : ∀ renv, RcvGoes files renv .tm y.rcv out q' leaf' er')
    (hnext : ∀ y', Ends files y' p es q' leaf' er' false [] out → OnTrack files y' n base')
    (hlt : base' < base) : Advances files ⟨y, n⟩ (movesLeft base n) := by
  constructor
  · obtain ⟨m', hs, -⟩ := hgo (.calm [])
    refine ⟨.rcvTM (.calm []), ⟨{ y with rcv := m', toS := y.toS ++ y.responses m' }, n⟩, ?_⟩
    have hR : y.toR = [] := h.toR
    refine (if_pos ⟨hR, h.toS⟩).trans ?_
    rw [Sys.exec, show yReceiverSS.postEvent (.calm []) .tm y.rcv = .ok m' from hs]
    rfl
  · intro mv t' hmv
    obtain ⟨renv, rcv, -, hs, rfl⟩ := quiet_inv h.toR h.toS hmv
    refine ⟨_, ?_, left_of (hnext _ (h.timesOut (hgo renv) hs)) hn⟩
    simp only [movesLeft]
    omega

/-- A message is under way: it arrives, or it is damaged or lost. -/
theorem advances_read (msg : Msg) {n' : Nat} (hn : n < errB)
    (h : Ends files y p es q leaf er msg.isBlk [msg] [])
    (hl : leaf.waits = true)
    (hgo : ∀ renv : Receiver.Env, renv.creat ≠ -1 → renv.close = 0 →
      RcvGoes files (arriving renv (itemOfMsg files msg)) (.ser (firstByte (itemOfMsg files msg)))
        y.rcv out q' leaf' er')
    (hrenews : (if y.renews then 0 else n) = n')
    (hnext : ∀ y', Ends files y' p es q' leaf' er' false [] out → OnTrack files y' n' base')
    (hlt : movesLeft base' n' < movesLeft base n)
    (hdamaged : ∀ renv rcv, y.damages renv = true → yReceiverSS.Step y.rcv (renv, .ser SOH) rcv →
      ∃ b < base + 3, OnTrack files (y.reads (itemOfMsg files msg) [] rcv) (n + 1) b)
    (hlost : ∀ y', Ends files y' p es q leaf er false [] [] →
      ∃ b < base + 3, OnTrack files y' (n + 1) b) : Advances files ⟨y, n⟩ (movesLeft base n) := by
  have hn' : n' < errB := by
    rw [← hrenews]
    split_ifs
    · decide
    · exact hn
  have hfault {y' : Sys} (hlow : n + 1 < errB) (hb : ∃ b < base + 3, OnTrack files y' (n + 1) b) :
      ∃ k < movesLeft base n, Left files ⟨y', n + 1⟩ k := by
    obtain ⟨b, hb, htrack⟩ := hb
    refine ⟨_, ?_, left_of htrack hlow⟩
    simp only [movesLeft]
    omega
  constructor
  · obtain ⟨m', hs, -⟩ := hgo (.calm []) (by decide) rfl
    have hok : (Receiver.Env.calm []).creat ≠ -1 ∧ (Receiver.Env.calm []).close = 0 := by decide
    refine ⟨.read (.calm []), ⟨y.reads (itemOfMsg files msg) [] m', if y.renews then 0 else n⟩, ?_⟩
    simp only [Timely.Step, Timely.exec]
    rw [if_pos hok]
    simp only [Sys.exec, h.toR, List.map_cons, List.map_nil]
    rw [show yReceiverSS.postEvent _ _ y.rcv = .ok m' from hs]
    rfl
  · intro mv t' hmv
    cases read_inv h.toR h.toS hmv with
    | read hcreat hclose hs =>
      rw [hrenews]
      exact ⟨_, hlt, left_of (hnext _ (h.reads (hgo _ hcreat hclose) hs)) hn'⟩
    | damaged hlow hd hs => exact hfault hlow (hdamaged _ _ hd hs)
    | noise hlow hc hs => exact hfault hlow (hlost _ (h.reads (h.rcv.noise h.rcvSettled hl hc) hs))
    | lost hlow => exact hfault hlow (hlost _ h.loses)

/-! ## Every stage -/

theorem damaged_of_damages {i k : Nat} {renv : Receiver.Env}
    (h : Ends files y p es q leaf er d [.blk i k] toS) (hd : y.damages renv = true) :
    Damaged (blkOf files i k) renv.rest := by
  have hR : y.toR = [.blk (blkOf files i k)] := h.toR
  simpa [Sys.damages, hR] using hd

theorem renews_stat {i j k : Nat} (h : Ends files y p es (.waiting i) leaf er d [.blk j k] toS) :
    y.renews = false := by
  have hR : y.toR = [.blk (blkOf files j k)] := h.toR
  have hclosed : y.rcv.ctx.transferringFileD = -1 := by
    cases h.rcv.holds with
    | waiting hidle _ => exact hidle.closed
  simp [Sys.renews, hR, hclosed]

theorem renews_data {i j k k' : Nat}
    (h : Ends files y p es (.receiving i k') leaf er d [.blk j k] toS) : y.renews = true := by
  have hR : y.toR = [.blk (blkOf files j k)] := h.toR
  obtain ⟨-, -, ht⟩ := h.rcv.filling
  have hopen : y.rcv.ctx.transferringFileD ≠ -1 := by
    have := ht.isOpen
    omega
  simp [Sys.renews, hR, hopen]

theorem renews_eot (h : Ends files y p es q leaf er d [.eot] toS) :
    y.renews = decide (leaf = .eot) := by
  have hR : y.toR = [.eot] := h.toR
  have hact : y.rcv.active = [leaf] := by
    rw [h.rcvSettled.active_eq, h.rcv.leaf]
    rfl
  simp [Sys.renews, hR, hact]

/-- The first data block, or the EOT of an empty file. -/
theorem advances_asked {i : Nat} (hf : ∀ f ∈ files, Sendable f) (hn : n < errB)
    (hi : i < files.length) (her : er ≤ n)
    (h : Ends files y (.one i) es (.receiving i 0) .firstByteData er false [] [NCG]) :
    Advances files ⟨y, n⟩ (movesLeft (blkLeft files i 0 + 1) n) := by
  rcases Nat.eq_zero_or_pos (chunksOf files i) with hz | hpos
  · have hnext (y' : Sys) (h' : Ends files y' (.eot i false) 0 (.receiving i 0) .firstByteData er
        false [.eot] []) : OnTrack files y' n (eotLeft files i) := by
      rw [← hz] at h'
      exact .eot hi her (fun hx => Bool.noConfusion hx) h'
    refine advances_answer hn h (fun senv _ hclose => h.snd.noBlk hf h.sndSettled hi hclose hz)
      hnext ?_
    rw [← blkLeft_end, hz]
    exact Nat.lt_succ_self _
  · exact advances_answer hn h (fun senv _ _ => h.snd.firstBlk hf h.sndSettled hi hpos)
      (fun y' h' => .blk hi hpos her (Nat.zero_le _) h') (Nat.lt_succ_self _)

/-- The next data block, or the EOT behind the last one. -/
theorem advances_blkAcked {i k : Nat} (hf : ∀ f ∈ files, Sendable f) (hn : n < errB)
    (hi : i < files.length) (hk : k < chunksOf files i) (her : er ≤ n)
    (h : Ends files y (.answer i (k + 1)) es (.receiving i (k + 1)) .firstByteData er false []
      [ACK]) : Advances files ⟨y, n⟩ (movesLeft (blkLeft files i (k + 1) + 1) n) := by
  rcases Nat.lt_or_eq_of_le (Nat.succ_le_of_lt hk) with hmore | hlast
  · exact advances_answer hn h (fun senv _ _ => h.snd.nextBlk hf h.sndSettled hi hmore)
      (fun y' h' => .blk hi hmore her (Nat.zero_le _) h') (Nat.lt_succ_self _)
  · have hnext (y' : Sys) (h' : Ends files y' (.eot i false) 0 (.receiving i (k + 1)) .firstByteData
        er false [.eot] []) : OnTrack files y' n (eotLeft files i) := by
      rw [show k + 1 = chunksOf files i from hlast] at h'
      exact .eot hi her (fun hx => Bool.noConfusion hx) h'
    refine advances_answer hn h
      (fun senv _ hclose => h.snd.lastBlk hf h.sndSettled hi hclose hlast.symm) hnext ?_
    rw [← blkLeft_end, ← hlast]
    exact Nat.lt_succ_self _

/-- A stat block, of a file or the last one. -/
theorem advances_stat {i : Nat} (hf : ∀ f ∈ files, Sendable f) (hn : n < errB)
    (hi : i ≤ files.length) (her : er ≤ n)
    (h : Ends files y (.answer i 0) es (.waiting i) .firstByteStat er true [.blk i 0] []) :
    Advances files ⟨y, n⟩ (movesLeft (fileLeft files i - 1) n) := by
  have herr : er < errB := Nat.lt_of_le_of_lt her hn
  have hrenews : (if y.renews then 0 else n) = n := by
    rw [renews_stat h]
    rfl
  have hdamaged (renv : Receiver.Env) (rcv : Receiver.Machine) (hd : y.damages renv = true)
      (hs : yReceiverSS.Step y.rcv (renv, .ser SOH) rcv) :
      ∃ b < fileLeft files i - 1 + 3, OnTrack files (y.reads (itemOfMsg files (.blk i 0)) [] rcv)
        (n + 1) b :=
    ⟨_, by omega, .statAsked hi (Nat.succ_le_succ her) (.inl rfl)
      (h.reads (h.rcv.badStatBlk h.rcvSettled herr (damaged_of_damages h hd)) hs)⟩
  have hlost (y' : Sys)
      (h' : Ends files y' (.answer i 0) es (.waiting i) .firstByteStat er false [] []) :
      ∃ b < fileLeft files i - 1 + 3, OnTrack files y' (n + 1) b :=
    ⟨_, by omega, .statLost hi (Nat.succ_le_succ her) h'⟩
  rcases Nat.lt_or_eq_of_le hi with hlt | rfl
  · refine advances_read (.blk i 0) hn h rfl (fun renv hcreat _ => by
        rw [firstByte_blk]
        exact h.rcv.statBlk hf h.rcvSettled hlt herr hcreat) hrenews
      (fun y' h' => .statAcked hlt her h') ?_ hdamaged hlost
    rw [fileLeft_of_lt hlt]
    simp only [movesLeft]
    omega
  · refine advances_read (.blk files.length 0) hn h rfl (fun renv _ _ => by
        rw [firstByte_blk]
        exact h.rcv.lastStatBlk h.rcvSettled herr) hrenews
      (fun y' h' => .lastAcked h') ?_ hdamaged hlost
    rw [fileLeft_length]
    simp only [movesLeft]
    omega

/-- A data block. -/
theorem advances_blk {i k : Nat} (hf : ∀ f ∈ files, Sendable f) (hn : n < errB)
    (hi : i < files.length) (hk : k < chunksOf files i) (her : er ≤ n) (hes : es ≤ n)
    (h : Ends files y (.answer i (k + 1)) es (.receiving i k) .firstByteData er true
      [.blk i (k + 1)] []) : Advances files ⟨y, n⟩ (movesLeft (blkLeft files i k) n) := by
  have hrenews : (if y.renews then 0 else n) = 0 := by
    rw [renews_data h]
    rfl
  refine advances_read (.blk i (k + 1)) hn h rfl (fun renv _ _ => by
      rw [firstByte_blk]
      exact h.rcv.dataBlk hf h.rcvSettled hi hk) hrenews
    (fun y' h' => .blkRead hi hk (Nat.le_refl 0) h') ?_ (fun renv rcv hd hs => ?_) fun y' h' => ?_
  · have hb : errB = 10 := rfl
    rw [blkLeft_next hk]
    simp only [movesLeft]
    omega
  · exact ⟨_, by omega, .blkBad hi hk (Nat.succ_le_succ her) (Nat.succ_le_succ hes)
      (h.reads (h.rcv.badDataBlk h.rcvSettled hi (damaged_of_damages h hd)) hs)⟩
  · exact ⟨_, by omega, .blkLost hi hk (Nat.succ_le_succ her) (Nat.succ_le_succ hes) h'⟩

/-- The EOT that the receiver answers by a NAK. -/
theorem advances_eot {i : Nat} {naked : Bool} (hn : n < errB) (hi : i < files.length) (her : er ≤ n)
    (hes : naked = true → es + 1 ≤ n)
    (h : Ends files y (.eot i naked) es (.receiving i (chunksOf files i)) .firstByteData er false
      [.eot] []) : Advances files ⟨y, n⟩ (movesLeft (eotLeft files i) n) := by
  have hrenews : (if y.renews then 0 else n) = n := by
    rw [renews_eot h]
    rfl
  have hR : y.toR = [.eot] := h.toR
  refine advances_read .eot hn h rfl (fun renv _ _ => h.rcv.firstEot h.rcvSettled) hrenews
    (fun y' h' => .eotNaked hi (Nat.succ_le_succ her) hes h') ?_ (fun renv rcv hd _ => ?_)
    fun y' h' => ?_
  · simp only [movesLeft, eotLeft]
    omega
  · simp [Sys.damages, hR] at hd
  · exact ⟨_, by omega, .eotLost hi (Nat.succ_le_succ her) (fun hx => Nat.succ_le_succ (hes hx)) h'⟩

/-- The EOT that closes the file. -/
theorem advances_secondEot {i : Nat} (hn : n < errB) (hi : i < files.length) (her : er ≤ n + 1)
    (hes : es ≤ n)
    (h : Ends files y (.eot i true) es (.receiving i (chunksOf files i)) .eot er false [.eot] []) :
    Advances files ⟨y, n⟩ (movesLeft (fileLeft files (i + 1) + 29) n) := by
  have hrenews : (if y.renews then 0 else n) = 0 := by
    rw [renews_eot h]
    rfl
  have hR : y.toR = [.eot] := h.toR
  refine advances_read .eot hn h rfl
    (fun renv _ hclose => h.rcv.secondEot h.rcvSettled hclose) hrenews
    (fun y' h' => .eotAcked hi (Nat.le_refl 0) h') ?_ (fun renv rcv hd _ => ?_) fun y' h' => ?_
  · have hb : errB = 10 := rfl
    simp only [movesLeft]
    omega
  · simp [Sys.damages, hR] at hd
  · exact ⟨_, by omega, .secondEotLost hi her (Nat.succ_le_succ hes) h'⟩

/-- The sender takes the last acknowledgement and stops. -/
theorem advances_lastAcked (hn : n < errB)
    (h : Ends files y (.answer files.length 0) es (.ended files.length true) .areWeDone er false []
      [ACK]) : Advances files ⟨y, n⟩ (movesLeft 2 n) := by
  constructor
  · obtain ⟨m', hs, -⟩ := h.snd.endOfSession .calm h.sndSettled
    refine ⟨.answer .calm, ⟨y.sends m' [], n⟩, ?_⟩
    simp only [Timely.Step, Timely.exec, Sys.exec, h.draining, h.toS]
    rw [show ySenderSS.postEvent .calm (.ser ACK) y.snd = .ok m' from hs]
    rfl
  · intro mv t' hmv
    obtain ⟨senv, snd, -, -, hs, rfl⟩ := answer_inv h.draining h.toR h.toS hmv
    obtain ⟨m', hs', hstop, hresult, hitems⟩ := h.snd.endOfSession senv h.sndSettled
    obtain rfl : m' = snd := Except.ok.inj (hs'.symm.trans hs)
    have hnone : itemsSent m'.ctx.calls = itemsSent y.snd.ctx.calls ++ [].map (itemOfMsg files) :=
      hitems.trans (List.append_nil _).symm
    have htrack : OnTrack files (y.sends m' []) n 1 := by
      rw [Sys.sends_eq hnone]
      exact .sndStopped hstop hresult h.rcvSettled h.rcv (by simp [h.toR]) rfl
    refine ⟨_, ?_, left_of htrack hn⟩
    simp only [movesLeft]
    omega

/-- As many files have been created as there are in the batch, and each is complete. -/
theorem Copied.received {outs : List OutFile} (h : Copied files files.length outs) :
    outs.map (fun o => (o.fileName, o.data)) = files.map fun f => (filename f.name, f.contents) := by
  apply List.ext_getElem?
  intro j
  rw [List.getElem?_map, List.getElem?_map]
  rcases Nat.lt_or_ge j files.length with hj | hj
  · obtain ⟨f, o, hf, ho, hc⟩ := h.complete j hj
    rw [hf, ho, Option.map_some, Option.map_some, hc.fileName, hc.data]
  · rw [List.getElem?_eq_none hj]
    cases ho : outs[j]? with
    | none => rfl
    | some o =>
      obtain ⟨f, hf, -⟩ := h.part j o ho
      rw [List.getElem?_eq_none hj] at hf
      cases hf

/-- The receiver's timer ends the session. -/
theorem advances_sndStopped (hn : n < errB) (hstop : y.snd.running = false)
    (hresult : y.snd.ctx.result = doneText files.length ++ "EndOfSession")
    (hset : Receiver.Settled y.rcv)
    (hrcv : RcvFit files (.ended files.length true) .areWeDone er (Receiver.configOf y.rcv))
    (hR : y.toR = []) (hS : y.toS = []) : Advances files ⟨y, n⟩ (movesLeft 1 n) := by
  constructor
  · obtain ⟨m', hs, -⟩ := hrcv.endOfSession (.calm []) hset
    refine ⟨.rcvTM (.calm []), ⟨{ y with rcv := m', toS := y.toS ++ y.responses m' }, n⟩, ?_⟩
    refine (if_pos ⟨hR, hS⟩).trans ?_
    rw [Sys.exec, show yReceiverSS.postEvent (.calm []) .tm y.rcv = .ok m' from hs]
    rfl
  · intro mv t' hmv
    obtain ⟨renv, rcv, -, hs, rfl⟩ := quiet_inv hR hS hmv
    obtain ⟨m', hs', hstop', hresult', hcopied, hsent⟩ := hrcv.endOfSession renv hset
    obtain rfl : m' = rcv := Except.ok.inj (hs'.symm.trans hs)
    have hquiet : y.toS ++ y.responses m' = [] := by
      rw [hS, Sys.responses_eq (hsent.trans (List.append_nil _).symm)]
      rfl
    have hlast : 0 < 1 := Nat.one_pos
    refine ⟨_, ?_, left_of
      (.finished ⟨hstop, hstop', hresult, hresult', hcopied.received⟩ hR hquiet) hn⟩
    simp only [movesLeft]
    omega

/-- **A session on track goes on until it is finished.** -/
theorem OnTrack.advances (hf : ∀ f ∈ files, Sendable f) (hn : n < errB) (h : OnTrack files y n base) :
    (Finished files y ∧ y.toR = [] ∧ y.toS = []) ∨ Advances files ⟨y, n⟩ (movesLeft base n) := by
  have hsucc (b : Nat) : b < b + 1 := Nat.lt_succ_self b
  cases h with
  | called hi her h =>
    refine .inr (advances_answer hn h (fun senv _ _ => h.snd.stat hf h.sndSettled hi)
      (fun y' h' => .stat hi her h') ?_)
    rcases Nat.lt_or_eq_of_le hi with hlt | rfl
    · rw [fileLeft_of_lt hlt]
      omega
    · rw [fileLeft_length]
      omega
  | stat hi her h => exact .inr (advances_stat hf hn hi her h)
  | statLost hi her h =>
    exact .inr (advances_tm hn h (fun renv => h.rcv.retryStat h.rcvSettled (by omega))
      (fun y' h' => .statAsked hi her (.inr rfl) h') (hsucc _))
  | @statAsked i es er c hi her hc h =>
    refine .inr (advances_answer hn h (fun senv _ _ => h.snd.statResent hf h.sndSettled hc)
      (fun y' h' => .stat hi her h') ?_)
    rcases Nat.lt_or_eq_of_le hi with hlt | rfl
    · rw [fileLeft_of_lt hlt]
      omega
    · rw [fileLeft_length]
      omega
  | statAcked hi her h =>
    exact .inr (advances_answer hn h (fun senv _ _ => h.snd.statAcked hf h.sndSettled hi)
      (fun y' h' => .asked hi her h') (hsucc _))
  | asked hi her h => exact .inr (advances_asked hf hn hi her h)
  | blk hi hk her hes h => exact .inr (advances_blk hf hn hi hk her hes h)
  | blkLost hi hk her hes h =>
    exact .inr (advances_tm hn h (fun renv => h.rcv.retryData h.rcvSettled (by omega))
      (fun y' h' => .blkNaked hi hk her hes h') (hsucc _))
  | blkBad hi hk her hes h =>
    exact .inr (advances_tm hn h (fun renv => h.rcv.answer h.rcvSettled (by omega))
      (fun y' h' => .blkNaked hi hk her hes h') (hsucc _))
  | blkNaked hi hk her hes h =>
    exact .inr (advances_answer hn h
      (fun senv _ _ => h.snd.blkResent hf h.sndSettled (by omega))
      (fun y' h' => .blk hi hk her hes h') (hsucc _))
  | blkRead hi hk her h =>
    exact .inr (advances_tm hn h (fun renv => h.rcv.answer h.rcvSettled (by omega))
      (fun y' h' => .blkAcked hi hk her h') (hsucc _))
  | blkAcked hi hk her h => exact .inr (advances_blkAcked hf hn hi hk her h)
  | eot hi her hes h => exact .inr (advances_eot hn hi her hes h)
  | eotLost hi her hes h =>
    exact .inr (advances_tm hn h (fun renv => h.rcv.retryData h.rcvSettled (by omega))
      (fun y' h' => .eotAsked hi her (by omega) hes h') (hsucc _))
  | @eotAsked i naked es er hi her hlow hes h =>
    cases naked with
    | false =>
      exact .inr (advances_answer hn h (fun senv _ _ => h.snd.eotNaked hf h.sndSettled)
        (fun y' h' => .eot hi her (fun _ => hlow) h') (hsucc _))
    | true =>
      have hes' := hes rfl
      exact .inr (advances_answer hn h
        (fun senv _ _ => h.snd.eotNakedAgain hf h.sndSettled (by omega))
        (fun y' h' => .eot hi her (fun _ => hes') h') (hsucc _))
  | @eotNaked i naked es er hi her hes h =>
    cases naked with
    | false =>
      exact .inr (advances_answer hn h (fun senv _ _ => h.snd.eotNaked hf h.sndSettled)
        (fun y' h' => .secondEot hi her (Nat.zero_le _) h') (hsucc _))
    | true =>
      have hes' := hes rfl
      exact .inr (advances_answer hn h
        (fun senv _ _ => h.snd.eotNakedAgain hf h.sndSettled (by omega))
        (fun y' h' => .secondEot hi her hes' h') (hsucc _))
  | secondEot hi her hes h => exact .inr (advances_secondEot hn hi her hes h)
  | secondEotLost hi her hes h =>
    exact .inr (advances_tm hn h (fun renv => h.rcv.retryData h.rcvSettled (by omega))
      (fun y' h' => .eotNaked hi (Nat.succ_le_succ her) (fun _ => hes) h') (by omega))
  | eotAcked hi her h =>
    exact .inr (advances_answer hn h
      (fun senv hopen _ => h.snd.fileDone hf h.sndSettled hi hopen)
      (fun y' h' => .called hi her h') (hsucc _))
  | lastAcked h => exact .inr (advances_lastAcked hn h)
  | sndStopped hstop hresult hset hrcv hR hS =>
    exact .inr (advances_sndStopped hn hstop hresult hset hrcv hR hS)
  | finished h hR hS => exact .inl ⟨h, hR, hS⟩

/-- Nothing moves when the session is finished. -/
theorem Finished.no_step (h : Finished files y) (hR : y.toR = []) (hS : y.toS = []) :
    ¬ Timely.Step ⟨y, n⟩ mv t' := by
  intro hmv
  obtain ⟨renv, rcv, -, hs, -⟩ := quiet_inv hR hS hmv
  have herr : yReceiverSS.postEvent renv .tm y.rcv = .error .notRunning :=
    if_neg (by rw [h.rcvStopped]; decide)
  cases herr.symm.trans hs

theorem Left.step {t : Timely} {left : Nat} (hf : ∀ f ∈ files, Sendable f) (h : Left files t left)
    (hs : t.Step mv t') : ∃ k < left, Left files t' k := by
  obtain ⟨base, htrack, hn, rfl⟩ := h
  rcases htrack.advances hf hn with ⟨hfin, hR, hS⟩ | hadv
  · exact absurd hs (hfin.no_step hR hS)
  · exact hadv.every mv t' hs

theorem left_init {snd : Sender.Machine} {rcv : Receiver.Machine} (hs : Sender.Started files snd)
    (hopen : snd.ctx.transferringFileD ≠ -1) (hr : Receiver.Started rcv) :
    Left files ⟨.init snd rcv, 0⟩ (sessionMoves files + 3 * (errB - 1)) := by
  obtain ⟨-, hsent⟩ := rcvAt_started hr files
  have hends : Ends files (.init snd rcv) (.statC 0) 0 (.waiting 0) .firstByteStat 0 false [] [NCG] :=
    ⟨hs.settled, hr.settled, sndFit_started hs hopen, rcvFit_started hr files, rfl, rfl, hsent⟩
  exact ⟨_, .called (Nat.zero_le _) (Nat.le_refl 0) hends, Nat.zero_lt_succ _, rfl⟩

/-- **Every session comes to its end.** Whatever schedule the moves follow and whichever messages
are damaged or lost, the session is finished after a bounded number of moves. -/
theorem session_completes {snd : Sender.Machine} {rcv : Receiver.Machine} {moves : List Move}
    {t : Timely} (hf : ∀ f ∈ files, Sendable f) (hs : Sender.Started files snd)
    (hopen : snd.ctx.transferringFileD ≠ -1) (hr : Receiver.Started rcv)
    (h : Run Timely.Step ⟨.init snd rcv, 0⟩ moves t) :
    moves.length ≤ sessionMoves files + 3 * (errB - 1) ∧
      ((∃ mv t', t.Step mv t') ∨ Finished files t.sys) := by
  have hlen := @Run.length_add_le _ _ Timely.Step (Left files) _ _ _ _ h
    (fun hl hmv => hl.step hf hmv) (left_init hs hopen hr)
  obtain ⟨k, ⟨base, htrack, hn, rfl⟩, hle⟩ := hlen
  refine ⟨by omega, ?_⟩
  rcases htrack.advances hf hn with ⟨hfin, -⟩ | hadv
  · exact .inr hfin
  · exact .inl hadv.move

end Moves

/-- A file of one byte: the stat block arrives damaged once, and the data block is lost once. -/
def faultyMoves : List Move :=
  [.answer .calm, .readDamaged (.calm []), .answer .calm, .read (.calm []), .answer .calm,
    .answer .calm, .lose, .rcvTM (.calm []), .answer .calm, .read (.calm []), .rcvTM (.calm []),
    .answer .calm, .read (.calm []), .answer .calm, .read (.calm []), .answer .calm, .answer .calm,
    .read (.calm []), .answer .calm, .rcvTM (.calm [])]

set_option maxRecDepth 4000 in
theorem session_completes_faulty : ∃ snd rcv t, Sender.Started [smallFile] snd ∧
    Receiver.Started rcv ∧ Run Timely.Step ⟨.init snd rcv, 0⟩ faultyMoves t ∧
    t.sys.snd.running = false ∧ t.sys.rcv.running = false ∧
    faultyMoves.length ≤ sessionMoves [smallFile] + 3 * (errB - 1) ∧
    ((∃ mv t', t.Step mv t') ∨ Finished [smallFile] t.sys) := by
  have hrun : ((ySenderSS.start .calm (.init [smallFile] fun _ => .blank)).toOption.bind fun snd =>
      (yReceiverSS.start (.calm []) (.init .blank)).toOption.bind fun rcv =>
        (faultyMoves.foldlM Timely.exec ⟨.init snd rcv, 0⟩).map fun t =>
          (snd.ctx.transferringFileD, t.sys.snd.running, t.sys.rcv.running)) =
      some (3, false, false) := by decide +kernel
  obtain ⟨snd, hsnd, hrun⟩ := Option.bind_eq_some_iff.mp hrun
  obtain ⟨rcv, hrcv, hrun⟩ := Option.bind_eq_some_iff.mp hrun
  obtain ⟨t, ht, hstop⟩ := Option.map_eq_some_iff.mp hrun
  have hs : Sender.Started [smallFile] snd := ⟨_, _, toOption_inv hsnd⟩
  have hr : Receiver.Started rcv := ⟨_, _, toOption_inv hrcv⟩
  have hfd : snd.ctx.transferringFileD = 3 := congrArg Prod.fst hstop
  have hsend : Sendable smallFile := by decide
  have hr' := Run.foldlM_iff.mp ht
  have h := session_completes (by simpa using hsend) hs (by rw [hfd]; decide) hr hr'
  exact ⟨snd, rcv, t, hs, hr, hr', congrArg (·.2.1) hstop, congrArg (·.2.2) hstop, h⟩

end YModem.Session
