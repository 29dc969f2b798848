import YModem.Lib.Log
import YModem.Lib.Run
import YModem.Part2.Sender
import YModem.Sender.Blocks

/-!
# Stop and wait in Part 2

What a stop-and-wait sender with bounded retries does is said over the record of a session
alone. `sendFiles` keeps to it as long as the stat blocks are acknowledged at once and the data
blocks after at most `errB` NAKs: it looks at no response to a stat block, takes every byte
but a NAK for an ACK, and never counts in `errCnt`.
-/

namespace YModem.Part2

open YModem.Lib YModem.Peer YModem.SmartState
open YModem.Sender (Blk File)

/-! ## The law -/

/-- What a record says about the block that was sent last: the byte read in response to it,
which is the first one read since, and how often it was sent again. -/
structure Heard where
  blk : Option Blk
  reply : Option UInt8
  resends : Nat

def Heard.hear (h : Heard) : Event → Heard
  | .read byteToReceive =>
    if h.blk.isSome ∧ h.reply = none then { h with reply := some byteToReceive } else h
  | .first blk => ⟨some blk, none, 0⟩
  | .again blk => ⟨some blk, none, h.resends + 1⟩
  | .sendByte _ | .cans => h

def heard (trace : List Event) : Heard := trace.foldl Heard.hear ⟨none, none, 0⟩

/-- A new block may be sent. -/
def Clear (t : List Event) : Prop := (heard t).blk = none ∨ (heard t).reply = some ACK

/-- The block was sent last, and no response to it has been read. -/
def Outstanding (blk : Blk) (t : List Event) : Prop :=
  (heard t).blk = some blk ∧ (heard t).reply = none

/-- One entry behind the ones before it: after a NAK the same block again, a new block after an
ACK only, and no block again more than `errB` times. -/
def Orderly (before : List Event) (e : Event) : Prop :=
  ((heard before).reply = some NAK → ∃ blk, e = .again blk) ∧
    match e with
    | .first _ => Clear before
    | .again blk => (heard before).blk = some blk ∧ (heard before).resends < errB
    | .read _ | .sendByte _ | .cans => True

/-- The record of a sender that waits for a response. -/
structure StopAndWait (trace : List Event) : Prop where
  orderly : AtEach Orderly trace
  /-- No NAK is left without an answer. -/
  answered : (heard trace).reply ≠ some NAK

/-! ## Where the code keeps to it -/

/-- The response that the sender reads next is one that it handles: an ACK to a stat block, an
ACK or one of the first `errB` NAKs to a data block, and no NAK to the last stat block. -/
def Expected (s : SenderY) (byteToReceive : UInt8) : Prop :=
  match s.wait with
  | .statAck => byteToReceive = ACK
  | .dataAck => byteToReceive = ACK ∨ byteToReceive = NAK ∧ (heard s.trace).resends < errB
  | .lastAck => byteToReceive ≠ NAK
  | .statC | .dataC | .eotNak | .eotAck | .returned => True

/-- What was heard where the sender waits. -/
def Place (s : SenderY) : Prop :=
  match s.wait with
  | .statC | .dataC | .eotNak | .eotAck => Clear s.trace
  | .statAck | .lastAck => ∃ blk, Outstanding blk s.trace
  | .dataAck => Outstanding s.sentBuf s.trace ∧ s.errCnt = 0
  | .returned => True

structure Inv (s : SenderY) : Prop where
  law : StopAndWait s.trace
  place : Place s

section Trace

variable {t : List Event} {b c : UInt8} {blk : Blk}

theorem heard_concat (t : List Event) (e : Event) : heard (t ++ [e]) = (heard t).hear e := by
  rw [heard, List.foldl_append]
  rfl

/-- A byte read when nothing is outstanding is no response. -/
theorem Clear.heard_read (h : Clear t) (b : UInt8) : heard (t ++ [.read b]) = heard t := by
  rw [heard_concat, Heard.hear, if_neg]
  intro ⟨hblk, hreply⟩
  rcases h with hnone | hack
  · rw [hnone] at hblk
    cases hblk
  · rw [hack] at hreply
    cases hreply

theorem Clear.read (h : Clear t) (b : UInt8) : Clear (t ++ [.read b]) := by
  rw [Clear, h.heard_read]
  exact h

/-- The response. -/
theorem Outstanding.heard_read (h : Outstanding blk t) (b : UInt8) :
    heard (t ++ [.read b]) = { heard t with reply := some b } := by
  rw [heard_concat, Heard.hear, if_pos ⟨by rw [h.1]; rfl, h.2⟩]

theorem Outstanding.read_ack (h : Outstanding blk t) : Clear (t ++ [.read ACK]) := by
  rw [Clear, h.heard_read]
  exact .inr rfl

theorem outstanding_first (t : List Event) (blk : Blk) : Outstanding blk (t ++ [.first blk]) := by
  rw [Outstanding, heard_concat]
  exact ⟨rfl, rfl⟩

theorem outstanding_again (t : List Event) (blk : Blk) : Outstanding blk (t ++ [.again blk]) := by
  rw [Outstanding, heard_concat]
  exact ⟨rfl, rfl⟩

theorem Outstanding.answered (h : Outstanding blk t) : (heard t).reply ≠ some NAK := by
  rw [h.2]
  simp

theorem StopAndWait.read (h : StopAndWait t) (hb : (heard (t ++ [.read b])).reply ≠ some NAK) :
    StopAndWait (t ++ [.read b]) where
  orderly := atEach_concat h.orderly ⟨fun hnak => absurd hnak h.answered, trivial⟩
  answered := hb

/-- Any byte that is no response. -/
theorem StopAndWait.read_clear (h : StopAndWait t) (hc : Clear t) (b : UInt8) :
    StopAndWait (t ++ [.read b]) := by
  apply h.read
  rw [hc.heard_read]
  exact h.answered

/-- A response that is no NAK. -/
theorem StopAndWait.read_reply (h : StopAndWait t) (ho : Outstanding blk t) (hb : b ≠ NAK) :
    StopAndWait (t ++ [.read b]) := by
  apply h.read
  rw [ho.heard_read]
  intro hnak
  exact hb (Option.some.inj hnak)

theorem StopAndWait.first (h : StopAndWait t) (hc : Clear t) (blk : Blk) :
    StopAndWait (t ++ [.first blk]) where
  orderly := atEach_concat h.orderly ⟨fun hnak => absurd hnak h.answered, hc⟩
  answered := (outstanding_first t blk).answered

theorem StopAndWait.sendByte (h : StopAndWait t) (c : UInt8) : StopAndWait (t ++ [.sendByte c]) where
  orderly := atEach_concat h.orderly ⟨fun hnak => absurd hnak h.answered, trivial⟩
  answered := by
    rw [heard_concat]
    exact h.answered

theorem Clear.sendByte (h : Clear t) (c : UInt8) : Clear (t ++ [.sendByte c]) := by
  rw [Clear, heard_concat]
  exact h

/-- The record where a new block may be sent. -/
structure Ready (t : List Event) : Prop where
  law : StopAndWait t
  clear : Clear t

theorem Ready.read (h : Ready t) (b : UInt8) : Ready (t ++ [.read b]) :=
  ⟨h.law.read_clear h.clear b, h.clear.read b⟩

theorem Ready.sendByte (h : Ready t) (c : UInt8) : Ready (t ++ [.sendByte c]) :=
  ⟨h.law.sendByte c, h.clear.sendByte c⟩

/-- Behind the ACK to a block. -/
theorem Outstanding.ready (ho : Outstanding blk t) (h : StopAndWait t) : Ready (t ++ [.read ACK]) :=
  ⟨h.read_reply ho (by decide), ho.read_ack⟩

/-- A NAK and the same block again. -/
theorem StopAndWait.again (h : StopAndWait t) (ho : Outstanding blk t)
    (hfew : (heard t).resends < errB) : StopAndWait (t ++ [.read NAK] ++ [.again blk]) where
  orderly := by
    apply atEach_concat
    · exact atEach_concat h.orderly ⟨fun hnak => absurd hnak h.answered, trivial⟩
    · rw [Orderly, ho.heard_read]
      exact ⟨fun _ => ⟨blk, rfl⟩, ho.1, hfew⟩
  answered := (outstanding_again _ blk).answered

end Trace

/-! ## One read -/

/-- What the sender does between two reads: the record grows, and it waits at another read. -/
inductive Moves (s : SenderY) (b : UInt8) (s' : SenderY) : Prop where
  | stat (hw : s.wait = .statC) (hw' : s'.wait = .statAck)
      (ht : s'.trace = s.trace ++ [.read b] ++ [.first s.blkBuf])
  | statAnswered (hw : s.wait = .statAck) (hw' : s'.wait = .dataC)
      (ht : s'.trace = s.trace ++ [.read b])
  | data (hw : s.wait = .dataC ∨ s.wait = .dataAck ∧ ¬ (b = NAK ∧ s.errCnt < errB))
      (hw' : s'.wait = .dataAck) (ht : s'.trace = s.trace ++ [.read b] ++ [.first s.blkBuf])
      (hbuf : s'.sentBuf = s.blkBuf) (herr : s'.errCnt = 0)
  | firstEot (hw : s.wait = .dataC ∨ s.wait = .dataAck ∧ ¬ (b = NAK ∧ s.errCnt < errB))
      (hw' : s'.wait = .eotNak) (ht : s'.trace = s.trace ++ [.read b] ++ [.sendByte EOT])
  | again (hw : s.wait = .dataAck) (hb : b = NAK) (hw' : s'.wait = .dataAck)
      (ht : s'.trace = s.trace ++ [.read b] ++ [.again s.sentBuf])
      (hbuf : s'.sentBuf = s.sentBuf) (herr : s'.errCnt = s.errCnt)
  | secondEot (hw : s.wait = .eotNak) (hw' : s'.wait = .eotAck)
      (ht : s'.trace = s.trace ++ [.read b] ++ [.sendByte EOT])
  | nextFile (hw : s.wait = .eotAck) (hw' : s'.wait = .statC)
      (ht : s'.trace = s.trace ++ [.read b])
  | last (blk : Blk) (hw : s.wait = .eotAck) (hw' : s'.wait = .lastAck)
      (ht : s'.trace = s.trace ++ [.read b] ++ [.first blk])
  | returns (hw : s.wait = .lastAck) (hw' : s'.wait = .returned)
      (ht : s'.trace = s.trace ++ [.read b])

section Step

variable {s s' : SenderY} {b : UInt8} {t : List Event} {blk : Blk}

theorem sendBlkPrepNext_spec (h : s.sendBlkPrepNext = .ok s') : 0 ≤ s.transferringFileD ∧
    s'.trace = s.trace ++ [.first s.blkBuf] ∧ s'.sentBuf = s.blkBuf := by
  rw [SenderY.sendBlkPrepNext, SenderY.genBlk] at h
  by_cases hfd : s.transferringFileD < 0
  · rw [if_pos hfd] at h
    cases h
  · simp only [if_neg hfd] at h
    obtain ⟨s₁, h₁, h⟩ := bind_inv h
    obtain ⟨blk, -, h₁⟩ := bind_inv h₁
    cases h₁
    cases h
    exact ⟨by omega, rfl, rfl⟩

theorem prepStatBlk_trace (h : s.prepStatBlk = .ok s') : s'.trace = s.trace := by
  rw [SenderY.prepStatBlk] at h
  cases hfile : s.fileNames[s.fileNameIndex]? with
  | some f =>
    obtain ⟨file, fd⟩ := f
    simp only [hfile] at h
    by_cases hfd : fd = -1
    · rw [if_neg (not_not.mpr hfd)] at h
      cases h
      rfl
    · rw [if_pos hfd] at h
      obtain ⟨blk, -, h⟩ := bind_inv h
      cases h
      rfl
  | none =>
    simp only [hfile] at h
    obtain ⟨blk, -, h⟩ := bind_inv h
    cases h
    rfl

/-- From the condition on `bytesRd`: another block, or the first EOT. -/
theorem whileBytesRd_spec (h : s.whileBytesRd = .ok s') :
    (s'.wait = .dataAck ∧ s'.trace = s.trace ++ [.first s.blkBuf] ∧ s'.sentBuf = s.blkBuf ∧
      s'.errCnt = 0) ∨
    (s'.wait = .eotNak ∧ s'.trace = s.trace ++ [.sendByte EOT]) := by
  rw [SenderY.whileBytesRd] at h
  by_cases hrd : s.bytesRd = 0
  · rw [if_neg (not_not.mpr hrd)] at h
    cases h
    exact .inr ⟨rfl, rfl⟩
  · rw [if_pos hrd] at h
    obtain ⟨s₁, hs, h⟩ := bind_inv h
    cases h
    obtain ⟨-, htrace, hbuf⟩ := sendBlkPrepNext_spec hs
    exact .inl ⟨rfl, htrace, hbuf, rfl⟩

/-- From the condition of the outer loop: the stat block of a file, or the last one. -/
theorem whileFileNames_spec (s : SenderY) :
    (s.whileFileNames.wait = .statC ∧ s.whileFileNames.trace = s.trace) ∨
    (s.whileFileNames.wait = .lastAck ∧ s.whileFileNames.trace = s.trace ++ [.first s.blkBuf]) := by
  rw [SenderY.whileFileNames]
  by_cases hmore : s.fileNames.length ≥ s.fileNameIndex
  · rw [if_pos hmore]
    exact .inl ⟨rfl, rfl⟩
  · rw [if_neg hmore]
    exact .inr ⟨rfl, rfl⟩

theorem moves_of_proceed (h : s.proceed b = .ok s') : Moves s b s' := by
  rw [SenderY.proceed, SenderY.log_wait] at h
  cases hw : s.wait with
  | statC =>
    simp only [hw, SenderY.log_transferringFileD] at h
    by_cases hfd : -1 = s.transferringFileD
    · -- the CANs are sent, and then `myRead` fails on the descriptor
      rw [if_pos hfd] at h
      obtain ⟨s₁, hs, -⟩ := bind_inv h
      have hopen : 0 ≤ s.transferringFileD := (sendBlkPrepNext_spec hs).1
      omega
    · rw [if_neg hfd] at h
      obtain ⟨s₁, hs, h⟩ := bind_inv h
      cases h
      exact .stat hw rfl (sendBlkPrepNext_spec hs).2.1
  | statAck =>
    simp only [hw] at h
    cases h
    exact .statAnswered hw rfl rfl
  | dataC =>
    simp only [hw] at h
    rcases whileBytesRd_spec h with ⟨hw', ht, hbuf, herr⟩ | ⟨hw', ht⟩
    · exact .data (.inl hw) hw' ht hbuf herr
    · exact .firstEot (.inl hw) hw' ht
  | dataAck =>
    simp only [hw, SenderY.log_errCnt] at h
    by_cases hnak : b = NAK ∧ s.errCnt < errB
    · rw [if_pos hnak] at h
      cases h
      exact .again hw hnak.1 hw rfl rfl rfl
    · rw [if_neg hnak] at h
      rcases whileBytesRd_spec h with ⟨hw', ht, hbuf, herr⟩ | ⟨hw', ht⟩
      · exact .data (.inr ⟨hw, hnak⟩) hw' ht hbuf herr
      · exact .firstEot (.inr ⟨hw, hnak⟩) hw' ht
  | eotNak =>
    simp only [hw] at h
    cases h
    exact .secondEot hw rfl rfl
  | eotAck =>
    simp only [hw] at h
    obtain ⟨s₁, hs, h⟩ := bind_inv h
    cases h
    have htrace : s₁.trace = s.trace ++ [.read b] := prepStatBlk_trace hs
    rcases whileFileNames_spec s₁ with ⟨hw', ht⟩ | ⟨hw', ht⟩
    · exact .nextFile hw hw' (ht.trans htrace)
    · exact .last s₁.blkBuf hw hw' (ht.trans (by rw [htrace]))
  | lastAck =>
    simp only [hw] at h
    cases h
    exact .returns hw rfl rfl
  | returned =>
    simp only [hw] at h
    cases h

/-- The sender waits for something else than the response to a block. -/
def Between (s : SenderY) : Prop :=
  s.wait = .statC ∨ s.wait = .dataC ∨ s.wait = .eotNak ∨ s.wait = .eotAck

theorem Between.place_iff (hw : Between s) : Place s ↔ Clear s.trace := by
  rcases hw with hw | hw | hw | hw <;> simp only [Place, hw]

theorem Inv.ready (h : Inv s) (hw : Between s) : Ready s.trace :=
  ⟨h.law, hw.place_iff.mp h.place⟩

theorem Ready.inv (h : Ready t) (hw' : Between s') (ht : s'.trace = t) : Inv s' := by
  subst ht
  exact ⟨h.law, hw'.place_iff.mpr h.clear⟩

/-- A stat block has been sent. -/
theorem Ready.inv_stat (h : Ready t) (hw' : s'.wait = .statAck ∨ s'.wait = .lastAck)
    (ht : s'.trace = t ++ [.first blk]) : Inv s' := by
  constructor
  case law =>
    rw [ht]
    exact h.law.first h.clear blk
  case place =>
    rcases hw' with hw' | hw' <;> simp only [Place, hw', ht] <;> exact ⟨blk, outstanding_first t blk⟩

/-- A data block has been sent. -/
theorem Ready.inv_data (h : Ready t) (hw' : s'.wait = .dataAck)
    (ht : s'.trace = t ++ [.first s'.sentBuf]) (herr : s'.errCnt = 0) : Inv s' := by
  constructor
  case law =>
    rw [ht]
    exact h.law.first h.clear _
  case place =>
    simp only [Place, hw', ht]
    exact ⟨outstanding_first t _, herr⟩

/-- Behind the response to a data block, or the byte before the first one, a new block may be
sent. -/
theorem Inv.ready_data (hinv : Inv s) (hexp : Expected s b)
    (hw : s.wait = .dataC ∨ s.wait = .dataAck ∧ ¬ (b = NAK ∧ s.errCnt < errB)) :
    Ready (s.trace ++ [.read b]) := by
  rcases hw with hw | ⟨hw, hnak⟩
  · exact (hinv.ready (.inr (.inl hw))).read b
  · have hplace := hinv.place
    simp only [Place, hw] at hplace
    simp only [Expected, hw] at hexp
    obtain ⟨ho, herr⟩ := hplace
    have hack : b = ACK := by
      apply hexp.resolve_right
      intro ⟨hb, _⟩
      exact hnak ⟨hb, by rw [herr]; decide⟩
    rw [hack]
    exact ho.ready hinv.law

/-- A response that the sender handles keeps the law. -/
theorem proceed_inv (hinv : Inv s) (hexp : Expected s b) (h : s.proceed b = .ok s') : Inv s' := by
  have hplace := hinv.place
  cases moves_of_proceed h with
  | stat hw hw' ht => exact ((hinv.ready (.inl hw)).read b).inv_stat (.inl hw') ht
  | statAnswered hw hw' ht =>
    simp only [Place, hw] at hplace
    simp only [Expected, hw] at hexp
    obtain ⟨blk, ho⟩ := hplace
    rw [hexp] at ht
    exact (ho.ready hinv.law).inv (.inr (.inl hw')) ht
  | data hw hw' ht hbuf herr =>
    rw [← hbuf] at ht
    exact (hinv.ready_data hexp hw).inv_data hw' ht herr
  | firstEot hw hw' ht =>
    exact ((hinv.ready_data hexp hw).sendByte EOT).inv (.inr (.inr (.inl hw'))) ht
  | again hw hb hw' ht hbuf herr =>
    simp only [Place, hw] at hplace
    simp only [Expected, hw] at hexp
    rw [hb] at ht hexp
    constructor
    case law =>
      rw [ht]
      apply hinv.law.again hplace.1
      exact (hexp.resolve_left (by decide)).2
    case place =>
      simp only [Place, hw', ht, hbuf, herr]
      exact ⟨outstanding_again _ _, hplace.2⟩
  | secondEot hw hw' ht =>
    exact (((hinv.ready (.inr (.inr (.inl hw)))).read b).sendByte EOT).inv (.inr (.inr (.inr hw'))) ht
  | nextFile hw hw' ht =>
    exact ((hinv.ready (.inr (.inr (.inr hw)))).read b).inv (.inl hw') ht
  | last blk hw hw' ht =>
    exact ((hinv.ready (.inr (.inr (.inr hw)))).read b).inv_stat (.inr hw') ht
  | returns hw hw' ht =>
    simp only [Place, hw] at hplace
    simp only [Expected, hw] at hexp
    obtain ⟨blk, ho⟩ := hplace
    constructor
    case law =>
      rw [ht]
      exact hinv.law.read_reply ho hexp
    case place => simp only [Place, hw']

end Step

/-! ## Where it does not -/

/-- The response to the block that was sent last was no ACK. -/
structure Ignored (t : List Event) : Prop where
  sent : (heard t).blk ≠ none
  replied : (heard t).reply ≠ none
  notAck : (heard t).reply ≠ some ACK

/-- The law is broken, or a NAK was left without an answer, or the sender goes on to the next
block without an ACK to the last one. -/
inductive Doomed (s : SenderY) : Prop where
  | broken (h : ¬ AtEach Orderly s.trace)
  | unanswered (h : (heard s.trace).reply = some NAK)
  | goesOn (hw : Between s) (h : Ignored s.trace)

section Doomed

variable {s s' : SenderY} {b : UInt8} {t : List Event} {blk : Blk}

theorem not_orderly_concat {e : Event} (h : ¬ Orderly t e) : ¬ AtEach Orderly (t ++ [e]) :=
  fun hall => h (hall t e [] rfl)

theorem Ignored.heard_read (h : Ignored t) (b : UInt8) : heard (t ++ [.read b]) = heard t := by
  rw [heard_concat, Heard.hear, if_neg]
  intro ⟨_, hnone⟩
  exact h.replied hnone

theorem Ignored.read (h : Ignored t) (b : UInt8) : Ignored (t ++ [.read b]) := by
  have heq := h.heard_read b
  exact ⟨heq ▸ h.sent, heq ▸ h.replied, heq ▸ h.notAck⟩

theorem Ignored.sendByte (h : Ignored t) (c : UInt8) : Ignored (t ++ [.sendByte c]) := by
  have heq : heard (t ++ [.sendByte c]) = heard t := heard_concat t _
  exact ⟨heq ▸ h.sent, heq ▸ h.replied, heq ▸ h.notAck⟩

theorem Ignored.first_breaks (h : Ignored t) (blk : Blk) : ¬ AtEach Orderly (t ++ [.first blk]) := by
  apply not_orderly_concat
  intro ⟨_, hclear⟩
  rcases hclear with hnone | hack
  · exact h.sent hnone
  · exact h.notAck hack

/-- A response that is no ACK. -/
theorem Outstanding.ignored (h : Outstanding blk t) (hb : b ≠ ACK) : Ignored (t ++ [.read b]) := by
  have heq := h.heard_read b
  constructor
  case sent => simp [heq, h.1]
  case replied => simp [heq]
  case notAck =>
    rw [heq]
    intro hack
    exact hb (Option.some.inj hack)

/-- The record grows by the byte that was read first. -/
theorem Moves.trace (h : Moves s b s') : ∃ new, s'.trace = s.trace ++ .read b :: new := by
  cases h with
  | stat _ _ ht | data _ _ ht | firstEot _ _ ht | again _ _ _ ht | secondEot _ _ ht | last _ _ _ ht =>
    exact ⟨_, by rw [ht, List.append_assoc]; rfl⟩
  | statAnswered _ _ ht | nextFile _ _ ht | returns _ _ ht => exact ⟨[], ht⟩

/-- What is wrong once stays wrong. -/
theorem doomed_step (hd : Doomed s) (h : s.proceed b = .ok s') : Doomed s' := by
  have hmoves := moves_of_proceed h
  cases hd with
  | broken hbroken =>
    obtain ⟨new, ht⟩ := hmoves.trace
    apply Doomed.broken
    rw [ht]
    exact fun hall => hbroken hall.init
  | unanswered hnak =>
    obtain ⟨new, ht⟩ := hmoves.trace
    apply Doomed.broken
    rw [ht]
    intro hall
    obtain ⟨blk, hagain⟩ := (hall s.trace (.read b) new rfl).1 hnak
    cases hagain
  | goesOn hw hign =>
    cases hmoves with
    | stat _ _ ht =>
      apply Doomed.broken
      rw [ht]
      exact (hign.read b).first_breaks _
    | data _ _ ht =>
      apply Doomed.broken
      rw [ht]
      exact (hign.read b).first_breaks _
    | last blk _ _ ht =>
      apply Doomed.broken
      rw [ht]
      exact (hign.read b).first_breaks blk
    | firstEot _ hw' ht =>
      apply Doomed.goesOn (.inr (.inr (.inl hw')))
      rw [ht]
      exact (hign.read b).sendByte EOT
    | secondEot _ hw' ht =>
      apply Doomed.goesOn (.inr (.inr (.inr hw')))
      rw [ht]
      exact (hign.read b).sendByte EOT
    | nextFile _ hw' ht =>
      apply Doomed.goesOn (.inl hw')
      rw [ht]
      exact hign.read b
    | statAnswered hw₀ | again hw₀ | returns hw₀ => simp [Between, hw₀] at hw

/-- A response to a data block that is neither ACK nor NAK. -/
theorem ignored_of_unexpected (hinv : Inv s) (hexp : ¬ Expected s b)
    (hw : s.wait = .dataC ∨ s.wait = .dataAck ∧ ¬ (b = NAK ∧ s.errCnt < errB)) :
    Ignored (s.trace ++ [.read b]) := by
  have hplace := hinv.place
  rcases hw with hw | ⟨hw, -⟩
  · simp [Expected, hw] at hexp
  · simp only [Place, hw] at hplace
    simp only [Expected, hw, not_or] at hexp
    exact hplace.1.ignored hexp.1

/-- A response that the sender does not handle. -/
theorem doomed_of_unexpected (hinv : Inv s) (hexp : ¬ Expected s b) (h : s.proceed b = .ok s') :
    Doomed s' := by
  have hplace := hinv.place
  cases moves_of_proceed h with
  | stat hw | secondEot hw | nextFile hw | last _ hw => simp [Expected, hw] at hexp
  | statAnswered hw hw' ht =>
    simp only [Place, hw] at hplace
    simp only [Expected, hw] at hexp
    obtain ⟨blk, ho⟩ := hplace
    apply Doomed.goesOn (.inr (.inl hw'))
    rw [ht]
    exact ho.ignored hexp
  | data hw _ ht =>
    apply Doomed.broken
    rw [ht]
    exact (ignored_of_unexpected hinv hexp hw).first_breaks _
  | firstEot hw hw' ht =>
    apply Doomed.goesOn (.inr (.inr (.inl hw')))
    rw [ht]
    exact (ignored_of_unexpected hinv hexp hw).sendByte EOT
  | again hw hb hw' ht =>
    simp only [Place, hw] at hplace
    simp only [Expected, hw] at hexp
    apply Doomed.broken
    rw [ht, hb]
    apply not_orderly_concat
    intro ⟨_, _, hfew⟩
    rw [hplace.1.heard_read] at hfew
    exact hexp (.inr ⟨hb, hfew⟩)
  | returns hw _ ht =>
    simp only [Place, hw] at hplace
    simp only [Expected, hw, ne_eq, not_not] at hexp
    obtain ⟨blk, ho⟩ := hplace
    apply Doomed.unanswered
    rw [ht, ho.heard_read, hexp]

end Doomed

/-! ## Sessions -/

/-- The sender reads a response and goes on to the next read. -/
def Proceeds (s : SenderY) (byteToReceive : UInt8) (s' : SenderY) : Prop :=
  s.proceed byteToReceive = .ok s'

section Sessions

variable {files : List (File × Int)} {blkBuf sentBuf : Blk} {s s' : SenderY} {bytes : List UInt8}

theorem start_inv (h : SenderY.start files blkBuf sentBuf = .ok s) : Inv s := by
  obtain ⟨s₁, h₁, h⟩ := bind_inv h
  cases h
  have htrace : s₁.trace = [] := prepStatBlk_trace h₁
  have hready : Ready s₁.trace := by
    rw [htrace]
    exact ⟨⟨atEach_nil, by simp [heard]⟩, .inl rfl⟩
  rcases whileFileNames_spec s₁ with ⟨hw, ht⟩ | ⟨hw, ht⟩
  · exact hready.inv (.inl hw) ht
  · exact hready.inv_stat (.inr hw) ht

/-- The side condition along a session. -/
def AllExpected (s : SenderY) (bytes : List UInt8) : Prop :=
  EveryStep Proceeds (fun t byteToReceive _ => Expected t byteToReceive) s bytes

/-- A session in which the sender handles every response to a block stops and waits, up to every
state that it reaches. When it has returned, no other session does. -/
theorem stop_and_wait_iff (hstart : SenderY.start files blkBuf sentBuf = .ok s)
    (hrun : Run Proceeds s bytes s') :
    (AllExpected s bytes → StopAndWait s'.trace) ∧
      (s'.wait = .returned → (StopAndWait s'.trace ↔ AllExpected s bytes)) := by
  have hkept (hexp : AllExpected s bytes) : StopAndWait s'.trace := by
    have hinv : Inv s' :=
      hrun.invariant_of_everyStep (fun hi he hs => proceed_inv hi he hs) hexp (start_inv hstart)
    exact hinv.law
  refine ⟨hkept, fun hret => ⟨fun hlaw => ?_, hkept⟩⟩
  refine hrun.everyStep_of_not_doomed (I := Inv) (D := Doomed) ?hdet ?hstep ?hbreak ?hdoom ?hs ?ht
  case hdet =>
    intro t e u v hu hv
    exact Except.ok.inj (hu.symm.trans hv)
  case hstep => exact fun hi he hs => proceed_inv hi he hs
  case hbreak => exact fun hi he hs => doomed_of_unexpected hi he hs
  case hdoom => exact fun hd hs => doomed_step hd hs
  case hs => exact start_inv hstart
  case ht =>
    intro hd
    cases hd with
    | broken h => exact h hlaw.orderly
    | unanswered h => exact hlaw.answered h
    | goesOn hw => simp [Between, hret] at hw

/-- `Expected`, computed. -/
def expects (s : SenderY) (byteToReceive : UInt8) : Bool :=
  match s.wait with
  | .statAck => byteToReceive = ACK
  | .dataAck => byteToReceive = ACK ∨ byteToReceive = NAK ∧ (heard s.trace).resends < errB
  | .lastAck => byteToReceive ≠ NAK
  | .statC | .dataC | .eotNak | .eotAck | .returned => true

theorem expected_of_expects {c : UInt8} (h : expects s c = true) : Expected s c := by
  unfold expects at h
  unfold Expected
  cases hw : s.wait <;> simp_all

/-- A file of one block, and a session in which the block is sent three times. -/
def oneBlk : File := fileA [98]

def nakedTwice : List UInt8 := [NCG, ACK, NCG, NAK, NAK, ACK, NAK, ACK, ACK]

set_option maxRecDepth 4000 in
theorem stop_and_wait_resends : ∃ s s', SenderY.start [(oneBlk, 3)] .blank .blank = .ok s ∧
    Run Proceeds s nakedTwice s' ∧ (s'.trace.filter fun e => e matches .again _).length = 2 ∧
      s'.wait = .returned ∧ StopAndWait s'.trace := by
  have hrun : (SenderY.start [(oneBlk, 3)] .blank .blank).toOption.bind (fun s =>
      (nakedTwice.foldlM (fun s c => if expects s c then (s.proceed c).toOption else none) s).map
        fun s' => ((s'.trace.filter fun e => e matches .again _).length, s'.wait)) =
      some (2, .returned) := by decide +kernel
  obtain ⟨s, hs, hrun⟩ := Option.bind_eq_some_iff.mp hrun
  obtain ⟨s', hs', hend⟩ := Option.map_eq_some_iff.mp hrun
  obtain ⟨hagain, hwait⟩ := Prod.mk.inj hend
  have hstart : SenderY.start [(oneBlk, 3)] .blank .blank = .ok s := toOption_eq_some.mp hs
  obtain ⟨hproceeds, hexp⟩ := @Run.of_checked _ _ Proceeds (fun s c => (s.proceed c).toOption) expects
    (fun t c _ => Expected t c) toOption_eq_some.symm (fun hok _ => expected_of_expects hok) _ _ _ hs'
  exact ⟨s, s', hstart, hproceeds, hagain, hwait, (stop_and_wait_iff hstart hproceeds).1 hexp⟩

/-- The stat block of an empty file is answered by a NAK, and the sender goes on. -/
theorem nak_of_stat_blk_ignored : ∃ s s',
    SenderY.start [(⟨[97], by decide, []⟩, 3)] .blank .blank = .ok s ∧
      Run Proceeds s [NCG, NAK] s' ∧ ¬ StopAndWait s'.trace := by
  obtain ⟨blk, hg, -⟩ := @Blk.genStatBlk_named .blank [97] 0 (by decide) (by decide)
  obtain ⟨blk', hs, -⟩ := blk.store_ok DATA_POS [] (show DATA_POS + 0 ≤ BLK_SZ_CRC by decide)
  let s : SenderY :=
    ⟨"", 0, 3, -1, [97], [(⟨[97], by decide, []⟩, 3)], 1, 0, blk, .blank, [], [], .statC⟩
  let s₁ : SenderY := { s with
    bytesRd := 0, blkNum := 1, blkBuf := blk', sentBuf := blk
    trace := [.read NCG, .first blk], wait := .statAck }
  have hstart : SenderY.start [(⟨[97], by decide, []⟩, 3)] .blank .blank = .ok s := by
    rw [SenderY.start, SenderY.prepStatBlk]
    simp only [List.getElem?_cons_zero, List.length_nil, hg, ok_bind]
    rfl
  have hsent : Proceeds s NCG s₁ := by
    have hgen : blk.genBlk 1 [] = .ok blk' := by
      rw [Blk.genBlk, hs]
      rfl
    have hread : SenderY.genBlk { s.log (.read NCG) with blkNum := 1, sentBuf := blk } = .ok
        { s with
          bytesRd := 0, blkNum := 1, blkBuf := blk', sentBuf := blk, trace := [.read NCG] } := by
      show (blk.genBlk 1 [] >>= _) = _
      rw [hgen]
      rfl
    have hprep : (s.log (.read NCG)).sendBlkPrepNext = .ok { s₁ with wait := .statC } := by
      show (SenderY.genBlk { s.log (.read NCG) with blkNum := 1, sentBuf := blk } >>= _) = _
      rw [hread]
      rfl
    show ((s.log (.read NCG)).sendBlkPrepNext >>= _) = _
    rw [hprep]
    rfl
  have hnak : Proceeds s₁ NAK { s₁ with
      trace := [.read NCG, .first blk, .read NAK], wait := .dataC } := rfl
  refine ⟨s, _, hstart, Run.cons hsent (.single hnak), ?_⟩
  intro hlaw
  exact hlaw.answered rfl

end Sessions

end YModem.Part2
