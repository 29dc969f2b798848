import YModem.Receiver.Accept
import YModem.Receiver.Store
import YModem.Sender.Trace

/-!
# The descriptors of a session

Every descriptor that a peer stores is to be closed before it is replaced and before the
session ends. The sender keeps to that. The receiver ends the session on some transitions
without a look at its file; `Drops` lists them.
-/

namespace YModem.Session

open YModem.Lib YModem.Peer YModem.SmartState

/-! ## Accounting -/

def trackFd (held : List Int) : Call → List Int
  | .openFile _ _ fd => if fd = -1 then held else held ++ [fd]
  | .creat _ _ _ fd => if fd = -1 then held else held ++ [fd]
  | .close fd _ => held.erase fd
  | _ => held

/-- The descriptors that have been stored and not been passed to `myClose` since. -/
def pending (calls : List Call) : List Int := calls.foldl trackFd []

@[simp] theorem pending_append (calls new : List Call) :
    pending (calls ++ new) = new.foldl trackFd (pending calls) :=
  List.foldl_append

theorem pending_sendByte (calls : List Call) (byte : UInt8) :
    pending (calls ++ [.sendByte byte]) = pending calls := pending_append ..

theorem pending_sendBlk (calls : List Call) (fresh : Bool) (blk : List UInt8) :
    pending (calls ++ [.sendBlk fresh blk]) = pending calls := pending_append ..

/-- Nothing is pending but the file in transfer, and not even that once the session is
over. -/
def NoLeak (running : Bool) (p : PeerY) : Prop :=
  pending p.calls =
    if running = true ∧ -1 < p.transferringFileD then [p.transferringFileD] else []

section Accounting

variable {p p' : PeerY}

theorem NoLeak.same {running : Bool} (h : NoLeak running p)
    (hfd : p'.transferringFileD = p.transferringFileD) (hc : pending p'.calls = pending p.calls) :
    NoLeak running p' := by
  rw [NoLeak, hfd, hc]
  exact h

theorem NoLeak.closed {running : Bool} (hfd : p.transferringFileD ≤ -1) (hc : pending p.calls = []) :
    NoLeak running p := by
  rw [NoLeak, hc, if_neg (by omega)]

theorem NoLeak.stopped (hc : pending p.calls = []) : NoLeak false p := by
  rw [NoLeak, hc, if_neg (by simp)]

theorem NoLeak.pending_eq_nil {running : Bool} (h : NoLeak running p)
    (hfd : p.transferringFileD ≤ -1) : pending p.calls = [] :=
  h.trans (if_neg (by omega))

theorem NoLeak.erase {running : Bool} (h : NoLeak running p) :
    (pending p.calls).erase p.transferringFileD = [] := by
  rw [h]
  split_ifs <;> simp

/-- A session that ends while a file is open leaks its descriptor. -/
theorem NoLeak.ends_iff (h : NoLeak true p) (hc : pending p'.calls = pending p.calls) :
    NoLeak false p' ↔ p.transferringFileD ≤ -1 := by
  rw [NoLeak, hc, if_neg (by simp), h]
  by_cases hfd : -1 < p.transferringFileD
  · simp [hfd]
  · rw [if_neg (by simp [hfd])]
    simpa using hfd

end Accounting

/-! ## The sender -/

section Sender

open YModem.Sender

/-- What the members of the sender tell about the file while no descriptor leaks. -/
structure Accounted (v : Sender.Config) : Prop where
  noLeak : NoLeak v.leaf.isSome v.ctx.toPeerY
  eotSent : ∀ st ∈ v.phase, st = .eot1 ∨ st = .eoteot → v.ctx.transferringFileD ≤ -1
  noFile : v.ctx.fileName = none → v.ctx.transferringFileD ≤ -1

variable {env : Sender.Env} {mesg : Mesg} {s s' : SenderY} {v v' : Sender.Config}

theorem close_closed (h : s.closeTransferredFile env = .ok s') : s'.transferringFileD ≤ -1 := by
  rcases SenderY.closeTransferredFile_spec.mp h with ⟨hfd, rfl⟩ | ⟨-, -, rfl⟩
  · exact hfd
  · exact Int.le_refl _

theorem close_pending {running : Bool} (hn : NoLeak running s.toPeerY)
    (h : s.closeTransferredFile env = .ok s') : pending s'.calls = [] := by
  rcases SenderY.closeTransferredFile_spec.mp h with ⟨hfd, rfl⟩ | ⟨-, -, rfl⟩
  · exact hn.pending_eq_nil hfd
  · simpa [trackFd] using hn.erase

theorem nextSent_noLeak (hn : NoLeak true s.toPeerY) (h : NextSent s s') :
    NoLeak true s'.toPeerY := by
  cases h <;> exact hn.same rfl (pending_sendBlk ..)

theorem nextSent_file (h : NextSent s s') :
    s'.fileName = s.fileName ∧ s'.transferringFileD = s.transferringFileD := by
  cases h <;> exact ⟨rfl, rfl⟩

/-- A file is opened only when no descriptor is pending. -/
theorem statPrepared_noLeak (hc : pending s.calls = []) (h : StatPrepared env s s') :
    NoLeak true s'.toPeerY ∧ (s'.fileName = none → s'.transferringFileD ≤ -1) := by
  cases h with
  | openError file _ _ => exact ⟨.closed (Int.le_refl _) (by simp [trackFd, hc]), by simp⟩
  | opened file blk _ hopen _ =>
    have hge := env.opened_ge
    refine ⟨?_, by simp⟩
    show pending (s.calls ++ [_]) = if true = true ∧ -1 < env.opened then [env.opened] else []
    rw [if_pos ⟨rfl, by omega⟩]
    simp [trackFd, hc, hopen]
  | noMore blk _ _ =>
    have hle : (-2 : Int) ≤ -1 := by decide
    exact ⟨.closed hle hc, fun _ => hle⟩

/-- The file stays as it is. -/
private theorem Accounted.framed {leaf leaf' : SState} {back back' : Option SState}
    (h : Accounted ⟨some leaf, back, s⟩) (hname : s'.fileName = s.fileName)
    (hfd : s'.transferringFileD = s.transferringFileD) (hc : pending s'.calls = pending s.calls)
    (hphase : ∀ st ∈ (Sender.Config.mk (some leaf') back' s').phase, st = .eot1 ∨ st = .eoteot →
      ∃ st' ∈ (Sender.Config.mk (some leaf) back s).phase, st' = .eot1 ∨ st' = .eoteot) :
    Accounted ⟨some leaf', back', s'⟩ where
  noLeak := h.noLeak.same hfd hc
  eotSent := by
    intro st hst heot
    obtain ⟨st', hst', heot'⟩ := hphase st hst heot
    show s'.transferringFileD ≤ -1
    rw [hfd]
    exact h.eotSent st' hst' heot'
  noFile := by
    intro hnone
    show s'.transferringFileD ≤ -1
    rw [hfd]
    exact h.noFile (hname.symm.trans hnone)

private theorem Accounted.stopped {back : Option SState} (hc : pending s.calls = [])
    (hnone : s.fileName = none → s.transferringFileD ≤ -1) : Accounted ⟨none, back, s⟩ :=
  ⟨.stopped hc, by simp [Sender.Config.phase], hnone⟩

private theorem Accounted.running {leaf : SState} {back : Option SState}
    (hl : leaf = .statC ∨ leaf = .acknak ∨ leaf = .one ∨ leaf = .acknakstat)
    (hn : NoLeak true s.toPeerY) (hnone : s.fileName = none → s.transferringFileD ≤ -1) :
    Accounted ⟨some leaf, back, s⟩ := by
  refine ⟨hn, ?_, hnone⟩
  intro st hst heot
  have hcan : leaf ≠ .can := by rcases hl with rfl | rfl | rfl | rfl <;> simp
  rw [Sender.Config.phase, if_neg (by simpa using hcan)] at hst
  cases hst
  rcases hl with rfl | rfl | rfl | rfl <;> simp at heot

/-- A block has been sent and the next one read. -/
private theorem Accounted.sent {leaf : SState} {back : Option SState} {t : SenderY}
    (hl : leaf = .statC ∨ leaf = .acknak ∨ leaf = .one ∨ leaf = .acknakstat)
    (hn : NoLeak true s.toPeerY) (hnone : s.fileName = none → s.transferringFileD ≤ -1)
    (hs : s.sendBlkPrepNext = .ok s') (hname : t.fileName = s'.fileName)
    (hfd : t.transferringFileD = s'.transferringFileD) (hcalls : t.calls = s'.calls) :
    Accounted ⟨some leaf, back, t⟩ := by
  have hsent := SenderY.nextSent hs
  obtain ⟨hname', hfd'⟩ := nextSent_file hsent
  refine .running hl ((nextSent_noLeak hn hsent).same hfd (by rw [hcalls])) fun hnil => ?_
  rw [hfd, hfd']
  exact hnone (hname'.symm.trans (hname.symm.trans hnil))

private theorem Accounted.afterEOT {leaf : SState} {back : Option SState}
    (hfd : s.transferringFileD ≤ -1) (hc : pending s.calls = []) : Accounted ⟨some leaf, back, s⟩ :=
  ⟨.closed hfd hc, fun _ _ _ => hfd, fun _ => hfd⟩

/-- A cancelled session has closed its file. -/
private theorem Accounted.cancelled {leaf : SState} {back : Option SState} {text : String}
    (h : Accounted ⟨some leaf, back, s⟩) (hs : cancel env text s = .ok s') :
    Accounted ⟨none, back, s'⟩ := by
  obtain ⟨t, ht, hs⟩ := bind_inv hs
  cases hs
  have hn : NoLeak true s.cans.toPeerY := h.noLeak.same rfl (by simp [trackFd])
  have hc := close_pending hn ht
  have hfd := close_closed ht
  refine .stopped ?_ fun _ => hfd
  simpa [trackFd] using hc

/-- The leaf that `CAN` returns to is the one it was entered from. -/
private theorem phase_resumed {leaf st : SState} {t t' : SenderY} (hl : leaf.sends = true)
    (hst : st ∈ (Sender.Config.mk (some leaf) (some leaf) t).phase) :
    st ∈ (Sender.Config.mk (some .can) (some leaf) t').phase := by
  have hcan : leaf ≠ .can := by
    rintro rfl
    cases hl
  rw [Sender.Config.phase, if_neg (by simpa using hcan)] at hst
  exact hst

theorem Trans.accounted (h : Sender.Trans env mesg v v') (hw : v.WellFormed) (ha : Accounted v) :
    Accounted v' := by
  have hn := ha.noLeak
  have hnone := ha.noFile
  cases h with
  | ignored _ => exact ha
  | kbCancel _ _ _ => exact ha.framed rfl rfl rfl fun st hst heot => ⟨st, hst, heot⟩
  | kbCancelCan => exact ha.framed rfl rfl rfl fun st hst heot => ⟨st, hst, heot⟩
  | @kbCancelOpenErr back s hfd =>
    have hle : s.transferringFileD ≤ -1 := Int.le_of_eq hfd
    refine .stopped ?_ fun _ => hle
    simpa [trackFd] using hn.pending_eq_nil hle
  | @kbCancelStatC back s s' _ hs =>
    have hfd := close_closed hs
    refine .stopped ?_ fun _ => hfd
    simpa [trackFd] using close_pending hn hs
  | @openError back s _ hfd =>
    have hle : s.transferringFileD ≤ -1 := Int.le_of_eq hfd
    refine .stopped ?_ fun _ => hle
    simpa [trackFd] using hn.pending_eq_nil hle
  | statSent _ hs => exact .sent (by simp) hn hnone hs rfl rfl rfl
  | statAcked _ _ => exact .running (by simp) hn hnone
  | statResent _ _ => exact .running (by simp) (hn.same rfl (pending_sendBlk ..)) hnone
  | @endOfSession back s hf =>
    have hle := hnone hf
    refine .stopped ?_ fun _ => hle
    simpa [trackFd] using hn.pending_eq_nil hle
  | @noBlk back s s' _ _ hs =>
    have hopen : NoLeak true (clearErr (wait env (sendEOT s))).toPeerY :=
      hn.same rfl (pending_sendByte ..)
    exact .afterEOT (close_closed hs) (close_pending hopen hs)
  | firstBlkSent _ _ hs => exact .sent (by simp) hn hnone hs rfl rfl rfl
  | statNaked _ => exact .running (by simp) (hn.same rfl (pending_sendBlk ..)) hnone
  | blkResent _ _ _ => exact .running (by simp) (hn.same rfl (pending_sendBlk ..)) hnone
  | @lastBlkAcked back s s' _ _ hs =>
    have hopen : NoLeak true (clearErr (sendEOT s)).toPeerY :=
      hn.same rfl (pending_sendByte ..)
    have hfd := close_closed hs
    have hc := close_pending hopen hs
    exact .afterEOT hfd hc
  | blkAcked _ _ hs => exact .sent (by simp) hn hnone hs rfl rfl rfl
  | eotResent _ _ => exact ha.framed rfl rfl (pending_sendByte ..) fun st hst heot => ⟨st, hst, heot⟩
  | @eotAcked back s s' _ hs =>
    have hfd : s.transferringFileD ≤ -1 := ha.eotSent .eot1 rfl (.inl rfl)
    obtain ⟨hn', hnone'⟩ := statPrepared_noLeak (hn.pending_eq_nil hfd) (SenderY.statPrepared hs)
    exact .running (by simp) hn' hnone'
  | @eotNaked back s _ =>
    have hfd : s.transferringFileD ≤ -1 := ha.eotSent .eot1 rfl (.inl rfl)
    exact .afterEOT hfd ((pending_sendByte ..).trans (hn.pending_eq_nil hfd))
  | secondEotResent _ _ =>
    exact ha.framed rfl rfl (pending_sendByte ..) fun st hst heot => ⟨st, hst, heot⟩
  | @fileDone back s s' _ hs =>
    have hfd : s.transferringFileD ≤ -1 := ha.eotSent .eoteot rfl (.inr rfl)
    have hnil : pending (s.peer (·.addResult "Done, ")).calls = [] := by
      simpa [trackFd] using hn.pending_eq_nil hfd
    obtain ⟨hn', hnone'⟩ := statPrepared_noLeak hnil (SenderY.statPrepared hs)
    exact .running (by simp) hn' hnone'
  | excessiveNAKs _ _ _ hs => exact ha.cancelled hs
  | @interrupted leaf back s hl =>
    refine ha.framed rfl rfl rfl fun st hst heot => ⟨st, ?_, heot⟩
    have hcan : leaf ≠ .can := by
      rintro rfl
      cases hl
    cases hst
    rw [Sender.Config.phase, if_neg (by simpa using hcan)]
    rfl
  | kbCancelled _ _ _ hs => exact ha.cancelled hs
  | timedOut _ hs => exact ha.cancelled hs
  | @resumedSER _ leaf s _ _ =>
    exact ha.framed rfl rfl rfl fun st hst heot => ⟨st, phase_resumed (hw.remembers leaf rfl) hst, heot⟩
  | @resumedTM leaf s _ =>
    exact ha.framed rfl rfl rfl fun st hst heot => ⟨st, phase_resumed (hw.remembers leaf rfl) hst, heot⟩
  | @rcvCancelled back s s' hs =>
    have hfd := close_closed hs
    refine .stopped ?_ fun _ => hfd
    simpa [trackFd] using close_pending hn hs

/-- The sender never leaks a descriptor. -/
theorem sender_noLeak {files : List File} {m₀ m : Sender.Machine}
    {es : List (Sender.Env × Mesg)} (h₀ : Sender.Started files m₀)
    (hr : Run ySenderSS.Step m₀ es m) : NoLeak m.running m.ctx.toPeerY := by
  obtain ⟨env, blkBufs, hstart⟩ := h₀
  obtain ⟨hm₀, s, hs, hc⟩ := start_inv hstart
  obtain ⟨hn, hnone⟩ := statPrepared_noLeak rfl (SenderY.statPrepared hs)
  have hacc : Accounted (configOf m₀) := by
    rw [hc]
    exact .running (by simp) hn hnone
  have hinv := hr.invariant (I := fun m => Sender.Settled m ∧ Accounted (configOf m))
    (fun hI hst => ⟨(step_trans hI.1 hst).1,
      Trans.accounted (step_trans hI.1 hst).2 hI.1.wellFormed hI.2⟩) ⟨hm₀, hacc⟩
  rw [hinv.1.running_eq]
  exact hinv.2.noLeak

end Sender

/-! ## The receiver -/

section Receiver

open YModem.Receiver

/-- `CondlTransientStat` ends the session or goes on to a file. -/
def EndsOrOpens (r : ReceiverY) : Prop :=
  r.syncLoss = true ∨ errB ≤ r.errCnt ∨ (r.goodBlk = true ∧ r.rcvBlk.get DATA_POS ≠ 0)

/-- The event makes the chart end the session, or go on to another file, on a path that
does not close the current file. -/
inductive Drops (env : Receiver.Env) : Mesg → RState → ReceiverY → Prop where
  | kbCancelImmediate {r} : Drops env .kbC .condTransientData r
  | kbCancelDelayed {leaf r c} (hl : leaf.waits = true ∨ leaf = .can) (hk : r.kbCan = true)
      (hcan : c ≠ CAN) (heot : c = EOT → leaf ≠ .eot ∧ (leaf = .firstByteStat → r.closeProb ≠ 0)) :
      Drops env (.ser c) leaf r
  | gaveUp {leaf r} (hl : leaf = .firstByteStat ∨ leaf.dataLeaf = true ∨ leaf = .can)
      (h : r.kbCan = true ∨ (leaf ≠ .can ∧ errB ≤ r.errCnt)) : Drops env .tm leaf r
  | endOfSession {r} : Drops env .tm .areWeDone r
  | excessiveEOTs {r} (hc : r.closeProb = 0) (he : errB ≤ r.errCnt) :
      Drops env (.ser EOT) .firstByteStat r
  | statBlk {r} (hk : r.kbCan = false) (h : EndsOrOpens (statBlkRead env r)) :
      Drops env (.ser SOH) .firstByteStat r
  | blkWhenDone {r} (hk : r.kbCan = false)
      (h : EndsOrOpens ((r.getRestBlk env).peer (·.incErrCnt))) : Drops env (.ser SOH) .areWeDone r

variable {env : Receiver.Env} {mesg : Mesg} {r r' : ReceiverY} {next : Option RState}
  {v v' : Receiver.Config}

theorem pending_getRestBlk (env : Receiver.Env) (r : ReceiverY) :
    pending (r.getRestBlk env).calls = pending r.calls := by
  have hspec := getRestBlk_spec env r
  generalize r.getRestBlk env = g at hspec ⊢
  cases hspec with
  | bad purged hp _ => rcases hp with rfl | rfl <;> simp [trackFd]
  | _ => simp [trackFd]

theorem pending_closeTransferredFile {running : Bool} (env : Receiver.Env)
    (hn : NoLeak running r.toPeerY) : pending (r.closeTransferredFile env).calls = [] := by
  have hspec := closeTransferredFile_spec env r
  generalize r.closeTransferredFile env = g at hspec ⊢
  cases hspec with
  | notOpen hfd => exact hn.pending_eq_nil hfd
  | failed _ _ => simpa [trackFd] using hn.erase
  | closed _ _ => simpa [trackFd] using hn.erase

/-- A file that is not open after `closeTransferredFile`. -/
theorem closeTransferredFile_fd (hc : (r.closeTransferredFile env).closeProb = 0) :
    (r.closeTransferredFile env).transferringFileD ≤ -1 := by
  have hspec := closeTransferredFile_spec env r
  generalize r.closeTransferredFile env = g at hspec hc ⊢
  cases hspec with
  | notOpen hfd => exact hfd
  | failed _ hne => exact absurd hc hne
  | closed _ _ => exact Int.le_refl _

/-- The continue events leak the descriptor of an open file when they end the session or
open another file. -/
theorem statBlk_noLeak_iff (hn : NoLeak true r.toPeerY) (h : StatBlk env r next r') :
    NoLeak next.isSome r'.toPeerY ↔ (EndsOrOpens r → r.transferringFileD ≤ -1) := by
  cases h with
  | again hs he hg =>
    have hno : ¬ EndsOrOpens r := by
      rintro (hs' | he' | ⟨hg', -⟩)
      · rw [hs] at hs'
        cases hs'
      · omega
      · rw [hg] at hg'
        cases hg'
    exact ⟨fun _ hends => absurd hends hno, fun _ => hn.same rfl (pending_sendByte ..)⟩
  | noFile hs he hg ha =>
    have hno : ¬ EndsOrOpens r := by
      rintro (hs' | he' | ⟨-, hne⟩)
      · rw [hs] at hs'
        cases hs'
      · omega
      · exact hne ha
    refine ⟨fun _ hends => absurd hends hno, fun _ => hn.same rfl ?_⟩
    simp [ReceiverY.checkForAnotherFile, trackFd]
  | opened r' hs he hg ha ho hfd =>
    have hends : EndsOrOpens r := .inr (.inr ⟨hg, ha⟩)
    obtain ⟨fileName, size, -, rfl⟩ := openFileForTransfer_spec.mp ho
    have hge := env.creat_ge
    have hcreat : env.creat ≠ -1 := hfd
    have hpending : pending ((r.calls ++ [.checkForAnotherFile (r.rcvBlk.get DATA_POS)]) ++
        [.creat fileName size r.transferringFileD env.creat] ++ [.sendByte ACK] ++
        [.sendByte NCG]) = pending r.calls ++ [env.creat] := by
      simp [trackFd, hcreat]
    refine Iff.trans ?_ ⟨fun hle _ => hle, fun hle => hle hends⟩
    refine Iff.trans (Eq.congr_left hpending) ?_
    show pending r.calls ++ [env.creat] = (if true = true ∧ -1 < env.creat then [env.creat] else []) ↔ _
    rw [if_pos ⟨rfl, by omega⟩, hn]
    by_cases hopen : -1 < r.transferringFileD
    · simp [hopen]
    · rw [if_neg (by simp [hopen])]
      simpa using hopen
  | creatError r' hs he hg ha ho hfd =>
    have hends : EndsOrOpens r := .inr (.inr ⟨hg, ha⟩)
    obtain ⟨fileName, size, -, rfl⟩ := openFileForTransfer_spec.mp ho
    have hcreat : env.creat = -1 := hfd
    refine (hn.ends_iff ?_).trans ⟨fun hle _ => hle, fun hle => hle hends⟩
    simp [ReceiverY.checkForAnotherFile, trackFd, hcreat]
  | gaveUp hgive =>
    have hends : EndsOrOpens r := hgive.imp_right .inl
    refine (hn.ends_iff ?_).trans ⟨fun hle _ => hle, fun hle => hle hends⟩
    split_ifs <;> simp [trackFd]

theorem noLeak_getRestBlk (hn : NoLeak true r.toPeerY) :
    NoLeak true (r.getRestBlk env).toPeerY :=
  hn.same (r.getRestBlk_transferringFileD env) (pending_getRestBlk env r)

theorem noLeak_statBlkRead (hn : NoLeak true r.toPeerY) :
    NoLeak true (statBlkRead env r).toPeerY := by
  rw [statBlkRead_eq]
  exact (noLeak_getRestBlk hn).same rfl rfl

/-- **One step.** A step leaks the descriptor of an open file exactly when it drops it. -/
theorem noLeak_step_iff {leaf : RState} {back : Option RState}
    (h : Receiver.Trans env mesg ⟨some leaf, back, r⟩ v')
    (hw : (Receiver.Config.mk (some leaf) back r).WellFormed) (hn : NoLeak true r.toPeerY) :
    NoLeak v'.leaf.isSome v'.ctx.toPeerY ↔ (Drops env mesg leaf r → r.transferringFileD ≤ -1) := by
  constructor
  · intro hn' hd
    cases hd with
    | kbCancelImmediate =>
      cases h.functional .kbCancelImmediate hw
      exact (hn.ends_iff (by simp [trackFd])).mp hn'
    | kbCancelDelayed hl hk hcan heot =>
      cases h.functional (.kbCancelDelayed hl hk hcan heot) hw
      exact (hn.ends_iff (by simp [trackFd])).mp hn'
    | gaveUp hl hg =>
      cases h.functional (.gaveUp hl hg) hw
      exact (hn.ends_iff (by split_ifs <;> simp [trackFd])).mp hn'
    | endOfSession =>
      cases h.functional .endOfSession hw
      exact (hn.ends_iff (by simp [trackFd])).mp hn'
    | excessiveEOTs hc he =>
      cases h.functional (.excessiveEOTs hc he) hw
      exact (hn.ends_iff (by simp [trackFd])).mp hn'
    | statBlk hk hends =>
      cases h with
      | purged _ _ _ hsoh _ => exact absurd rfl hsoh
      | kbCancelDelayed _ hk' _ _ => simp [hk] at hk'
      | dataBlk hl _ => cases hl
      | statBlk _ hb =>
        have hfd := (statBlk_noLeak_iff (noLeak_statBlkRead hn) hb).mp hn' hends
        rwa [statBlkRead_transferringFileD] at hfd
    | blkWhenDone hk hends =>
      cases h with
      | purged _ _ _ hsoh _ => exact absurd rfl hsoh
      | kbCancelDelayed _ hk' _ _ => simp [hk] at hk'
      | dataBlk hl _ => cases hl
      | blkWhenDone _ hb =>
        have hg : NoLeak true ((r.getRestBlk env).peer (·.incErrCnt)).toPeerY :=
          (noLeak_getRestBlk hn).same rfl rfl
        have hfd : (r.getRestBlk env).transferringFileD ≤ -1 :=
          (statBlk_noLeak_iff hg hb).mp hn' hends
        rwa [ReceiverY.getRestBlk_transferringFileD] at hfd
  · intro hd
    cases h with
    | ignored _ => exact hn
    | kbCancel _ _ => exact hn.same rfl rfl
    | kbCancelImmediate => exact (hn.ends_iff (by simp [trackFd])).mpr (hd .kbCancelImmediate)
    | purged _ _ _ _ _ => exact hn.same rfl (by simp [trackFd])
    | purgedData => exact hn.same rfl (by simp [trackFd])
    | interrupted _ => exact hn.same rfl rfl
    | kbCancelDelayed hl hk hcan heot =>
      exact (hn.ends_iff (by simp [trackFd])).mpr (hd (.kbCancelDelayed hl hk hcan heot))
    | dataBlk _ _ =>
      rw [dataBlkRead_eq]
      exact (noLeak_getRestBlk hn).same rfl rfl
    | firstEOT _ => exact hn.same rfl (by simp [countAndWait, trackFd])
    | secondEOT hc =>
      have hnil := pending_closeTransferredFile env hn
      refine NoLeak.closed (closeTransferredFile_fd hc) ?_
      simpa [acknowledgeEOT, trackFd] using hnil
    | closeError _ =>
      refine NoLeak.stopped ?_
      simpa [trackFd] using pending_closeTransferredFile env hn
    | excessiveEOTs hc he =>
      exact (hn.ends_iff (by simp [trackFd])).mpr (hd (.excessiveEOTs hc he))
    | eotAgain _ _ => exact hn.same rfl (by simp [countAndWait, trackFd])
    | statBlk hk hb =>
      refine (statBlk_noLeak_iff (noLeak_statBlkRead hn) hb).mpr fun hends => ?_
      rw [statBlkRead_transferringFileD]
      exact hd (.statBlk hk hends)
    | blkWhenDone hk hb =>
      have hg : NoLeak true ((r.getRestBlk env).peer (·.incErrCnt)).toPeerY :=
        (noLeak_getRestBlk hn).same rfl rfl
      refine (statBlk_noLeak_iff hg hb).mpr fun hends => ?_
      show (r.getRestBlk env).transferringFileD ≤ -1
      rw [ReceiverY.getRestBlk_transferringFileD]
      exact hd (.blkWhenDone hk hends)
    | retry _ _ _ => exact hn.same (by split_ifs <;> rfl) (by split_ifs <;> simp [countAndWait, trackFd])
    | gaveUp hl hg =>
      exact (hn.ends_iff (by split_ifs <;> simp [trackFd])).mpr (hd (.gaveUp hl hg))
    | answered _ _ =>
      rw [answerDataBlk_eq]
      refine hn.same rfl ?_
      split_ifs <;> simp [trackFd]
    | abandoned _ =>
      have hcans : NoLeak true r.cans.toPeerY := hn.same rfl (by simp [trackFd])
      have hnil := pending_closeTransferredFile env hcans
      refine NoLeak.stopped ?_
      split_ifs <;> simpa [trackFd] using hnil
    | endOfSession => exact (hn.ends_iff (by simp [trackFd])).mpr (hd .endOfSession)
    | resumedSER _ _ => exact hn.same rfl (by simp [trackFd])
    | resumedTM _ => exact hn.same rfl rfl
    | sndCancelled =>
      refine NoLeak.stopped ?_
      simpa [trackFd] using pending_closeTransferredFile env hn

/-- The event does not make the receiver drop an open file. -/
def KeepsFile (m : Receiver.Machine) (e : Receiver.Env × Mesg) (_ : Receiver.Machine) : Prop :=
  ∀ leaf, m.active = [leaf] → Drops e.1 e.2 leaf m.ctx → m.ctx.transferringFileD ≤ -1

theorem step_noLeak_iff {m m' : Receiver.Machine} {e : Receiver.Env × Mesg}
    (hm : Receiver.Settled m) (hn : NoLeak m.running m.ctx.toPeerY)
    (hst : yReceiverSS.Step m e m') :
    NoLeak m'.running m'.ctx.toPeerY ↔ KeepsFile m e m' := by
  obtain ⟨env, mesg⟩ := e
  obtain ⟨hm', ht⟩ := step_trans hm hst
  have hw := hm.wellFormed
  have hrun := hm.running_eq
  have hactive := hm.active_eq
  rw [hm'.running_eq]
  rw [hrun] at hn
  unfold KeepsFile
  rw [hactive]
  show NoLeak (configOf m').leaf.isSome (configOf m').ctx.toPeerY ↔
    ∀ leaf, (configOf m).leaf.toList = [leaf] → Drops env mesg leaf (configOf m).ctx →
      (configOf m).ctx.transferringFileD ≤ -1
  replace hn : NoLeak (configOf m).leaf.isSome (configOf m).ctx.toPeerY := hn
  generalize configOf m = v at ht hw hn ⊢
  obtain ⟨leaf, back, r⟩ := v
  cases leaf with
  | none => cases ht
  | some leaf =>
    refine (noLeak_step_iff ht hw hn).trans ?_
    simp

theorem started_noLeak {m : Receiver.Machine} (h : Receiver.Started m) :
    NoLeak m.running m.ctx.toPeerY := by
  obtain ⟨env, rcvBlk, h⟩ := h
  rw [start_eq] at h
  cases h
  exact .closed (Int.le_refl _) rfl

/-- No descriptor leaks in a run in which no event drops an open file, and only then. -/
theorem receiver_noLeak_iff {m₀ : Receiver.Machine} (h₀ : Receiver.Started m₀)
    (es : List (Receiver.Env × Mesg)) :
    EveryStep yReceiverSS.Step (fun _ _ m => NoLeak m.running m.ctx.toPeerY) m₀ es ↔
      EveryStep yReceiverSS.Step KeepsFile m₀ es := by
  have hstart := started_noLeak h₀
  constructor
  · intro hkeep es₁ e es₂ t u heq hr hst
    have hI := hr.invariant_of_everyStep
      (I := fun m => Receiver.Settled m ∧ NoLeak m.running m.ctx.toPeerY)
      (C := fun _ _ m => NoLeak m.running m.ctx.toPeerY)
      (fun hs hn hst => ⟨(step_trans hs.1 hst).1, hn⟩) (EveryStep.init (heq ▸ hkeep))
      ⟨h₀.settled, hstart⟩
    exact (step_noLeak_iff hI.1 hI.2 hst).mp (hkeep es₁ e es₂ t u heq hr hst)
  · intro hcheck es₁ e es₂ t u heq hr hst
    have hI := hr.invariant_of_everyStep
      (I := fun m => Receiver.Settled m ∧ NoLeak m.running m.ctx.toPeerY) (C := KeepsFile)
      (fun hs hc hst => ⟨(step_trans hs.1 hst).1, (step_noLeak_iff hs.1 hs.2 hst).mpr hc⟩)
      (EveryStep.init (heq ▸ hcheck)) ⟨h₀.settled, hstart⟩
    exact (step_noLeak_iff hI.1 hI.2 hst).mpr (hcheck es₁ e es₂ t u heq hr hst)

/-- A receiver that has accepted the stat block of a file of five bytes, is cancelled at the
keyboard and times out. -/
theorem leaks_when_cancelled : ∃ n₀ n fs, Started n₀ ∧
    Run yReceiverSS.Step n₀ fs n ∧ fs.map Prod.snd = [.ser SOH, .kbC, .tm] ∧
    n.running = false ∧ pending n.ctx.calls = [3] := by
  obtain ⟨m, hopen, hm, hl, -, -, ho⟩ := opens_named_file [97] [53]
    started_startedMachine.settled rfl rfl rfl (by decide) (by decide) (by decide) (by decide)
    (by decide) (by decide : stoi [53] = some 5)
  obtain ⟨m₁, hs₁, hc₁⟩ := @Trans.step _ (.calm []) _ _ hm
    (config_of_active hl ▸ Trans.kbCancel rfl (by simp))
  have hm₁ := (step_trans hm hs₁).1
  obtain ⟨m₂, hs₂, hc₂⟩ := @Trans.step _ (.calm []) _ _ hm₁
    (hc₁ ▸ Trans.gaveUp (.inr (.inl rfl)) (.inl rfl))
  have hm₂ := (step_trans hm₁ hs₂).1
  refine ⟨_, m₂, _, started_startedMachine, .cons hopen (.cons hs₁ (.single hs₂)), rfl, ?_, ?_⟩
  · rw [hm₂.running_eq, hc₂]
    rfl
  · rw [show m₂.ctx = _ from congrArg Config.ctx hc₂]
    have hcalls₀ : startedMachine.ctx.calls = [.sendByte NCG] := rfl
    simp [ho.calls, hcalls₀, trackFd, pending, Env.calm]

end Receiver

/-- **Descriptors.** The sender leaks none in any run; the receiver leaks none exactly as long
as no event drops an open file. -/
theorem no_descriptor_leak_iff {files : List Sender.File} {m₀ : Sender.Machine}
    (h₀ : Sender.Started files m₀) {n₀ : Receiver.Machine} (g₀ : Receiver.Started n₀)
    (es : List (Sender.Env × Mesg)) (fs : List (Receiver.Env × Mesg)) :
    EveryStep Sender.ySenderSS.Step (fun _ _ m => NoLeak m.running m.ctx.toPeerY) m₀ es ∧
      (EveryStep Receiver.yReceiverSS.Step (fun _ _ m => NoLeak m.running m.ctx.toPeerY) n₀ fs ↔
        EveryStep Receiver.yReceiverSS.Step KeepsFile n₀ fs) := by
  refine ⟨?_, receiver_noLeak_iff g₀ fs⟩
  intro es₁ e es₂ t u _ hr hst
  exact sender_noLeak h₀ (hr.tail hst)

instance (running : Bool) (p : PeerY) : Decidable (NoLeak running p) :=
  inferInstanceAs (Decidable (_ = _))

/-- Nothing is pending behind the event. -/
def leavesNone (m : Receiver.Machine) (e : Receiver.Env × Mesg) : Bool :=
  (Receiver.yReceiverSS.postEvent e.1 e.2 m).toOption.all fun m' =>
    decide (NoLeak m'.running m'.ctx.toPeerY)

theorem noLeak_of_leavesNone {m m' : Receiver.Machine} {e : Receiver.Env × Mesg}
    (h : leavesNone m e = true) (hst : Receiver.yReceiverSS.Step m e m') :
    NoLeak m'.running m'.ctx.toPeerY := by
  rw [leavesNone, toOption_eq_some.mpr hst] at h
  exact of_decide_eq_true h

set_option maxRecDepth 4000 in
/-- A file of two blocks is written and closed, and no descriptor leaks. -/
theorem no_descriptor_leak_iff_file : ∃ m₀ n₀ n, Sender.Started [Sender.smallFile] m₀ ∧
    Receiver.Started n₀ ∧
    Run Receiver.yReceiverSS.Step n₀ (Receiver.blkMoves ++ Receiver.eotMoves) n ∧
    (Receiver.outputs n.ctx.calls).earlier.map (·.data.length) = [200] ∧
    EveryStep Sender.ySenderSS.Step (fun _ _ m => NoLeak m.running m.ctx.toPeerY) m₀
      Sender.smallRun ∧
    EveryStep Receiver.yReceiverSS.Step KeepsFile n₀ (Receiver.blkMoves ++ Receiver.eotMoves) := by
  have hsnd : (Sender.ySenderSS.session .calm
      (Sender.SenderY.init [Sender.smallFile] fun _ => Sender.Blk.blank) []).toOption.any
      (fun m => m.running) = true := by
    decide +kernel
  have hrcv : ((Receiver.yReceiverSS.start (.calm []) (.init .blank)).toOption.bind fun n₀ =>
      ((Receiver.blkMoves ++ Receiver.eotMoves).foldlM (fun m e => if leavesNone m e then
        (Receiver.yReceiverSS.postEvent e.1 e.2 m).toOption else none) n₀).map fun n =>
          (Receiver.outputs n.ctx.calls).earlier.map (·.data.length)) = some [200] := by
    decide +kernel
  obtain ⟨m₀, _, hstart, -⟩ := Chart.run_of_session hsnd
  obtain ⟨n₀, hn₀, hrcv⟩ := Option.bind_eq_some_iff.mp hrcv
  obtain ⟨n, hn, hclosed⟩ := Option.map_eq_some_iff.mp hrcv
  have h₀ : Sender.Started [Sender.smallFile] m₀ := ⟨_, _, hstart⟩
  have g₀ : Receiver.Started n₀ := ⟨_, _, toOption_eq_some.mp hn₀⟩
  obtain ⟨hr, hnone⟩ := @Run.of_checked _ _ Receiver.yReceiverSS.Step
    (fun m e => (Receiver.yReceiverSS.postEvent e.1 e.2 m).toOption) leavesNone
    (fun _ _ m => NoLeak m.running m.ctx.toPeerY) toOption_eq_some.symm noLeak_of_leavesNone
    _ _ _ hn
  obtain ⟨hsends, hreceives⟩ := no_descriptor_leak_iff h₀ g₀ Sender.smallRun
    (Receiver.blkMoves ++ Receiver.eotMoves)
  exact ⟨m₀, n₀, n, h₀, g₀, hr, hclosed, hsends, hreceives.mp hnone⟩

end YModem.Session
