import YModem.Lib.Run
import YModem.Peer.Base

/-!
# Stop and wait with acknowledgements that carry no number

The protocol of a batch without its bytes: the sender is at a place of its chart, the
receiver has accepted so many blocks of so many files, messages travel in one direction and
response bytes in the other. A sender that has written a block reads no response before the
receiver has started to read that block, and the responses produced until then are thrown
away. `Agree` says how far the two ends can be apart.
-/

namespace YModem.Session

open YModem.Lib YModem.Peer

namespace StopAndWait

/-- A block by the number of its file and its own number, 0 for the stat block. -/
inductive Msg where
  | blk (i k : Nat)
  | eot
deriving DecidableEq

def Msg.isBlk : Msg → Bool
  | .blk _ _ => true
  | .eot => false

/-- The places of the sender. In `answer` a block has been sent: the stat block in
`ACKNAKSTAT`, a data block in `ACKNAK`. In `eot` it is in `EOT1`, or `EOTEOT` when the EOT
has been answered by a NAK. -/
inductive SPlace where
  | statC (i : Nat)
  | answer (i k : Nat)
  | one (i : Nat)
  | eot (i : Nat) (naked : Bool)
deriving DecidableEq

/-- The number of the file at hand. -/
def SPlace.file : SPlace → Nat
  | statC i | answer i _ | one i | eot i _ => i

/-- The places of the receiver: before a stat block, with `k` data blocks of a file accepted,
with a block read and not answered yet, and behind a stat block that names no file. -/
inductive RPlace where
  | waiting (i : Nat)
  | receiving (i k : Nat)
  | pending (i k : Nat) (good : Bool)
  | ended (i : Nat) (quiet : Bool)
deriving DecidableEq

/-- The number of the files that are complete. -/
def RPlace.completed : RPlace → Nat
  | waiting i | receiving i _ | pending i _ _ | ended i _ => i

/-- The number of the file that is open. -/
def RPlace.openFile : RPlace → Option Nat
  | receiving i _ | pending i _ _ => some i
  | waiting _ | ended _ _ => none

/-- The two ends, what travels between them, and whether the sender waits for its block to be
read. -/
structure State where
  snd : SPlace
  rcv : RPlace
  draining : Bool
  toR : List Msg
  toS : List UInt8

/-! ## The two ends -/

variable (chunks : Nat → Nat)

/-- What the sender does with a response: it may ignore it or stop. -/
inductive Answers : SPlace → UInt8 → List Msg → SPlace → Prop where
  | quiet {s c} : Answers s c [] s
  | stat {i} : Answers (.statC i) NCG [.blk i 0] (.answer i 0)
  | statAcked {i} : Answers (.answer i 0) ACK [] (.one i)
  | resent {i k c} (hc : c ≠ ACK) : Answers (.answer i k) c [.blk i k] (.answer i k)
  | statAgain {i} : Answers (.one i) NAK [.blk i 0] (.answer i 0)
  | firstBlk {i} (hk : 0 < chunks i) : Answers (.one i) NCG [.blk i 1] (.answer i 1)
  | noBlk {i} (hk : chunks i = 0) : Answers (.one i) NCG [.eot] (.eot i false)
  | nextBlk {i k} (hk : k + 1 < chunks i) :
      Answers (.answer i (k + 1)) ACK [.blk i (k + 2)] (.answer i (k + 2))
  | lastBlk {i k} (hk : chunks i = k + 1) : Answers (.answer i (k + 1)) ACK [.eot] (.eot i false)
  | eotAgain {i naked naked' c} (hc : c ≠ ACK) : Answers (.eot i naked) c [.eot] (.eot i naked')
  | eotAcked {i naked} : Answers (.eot i naked) ACK [] (.statC (i + 1))

/-- What the receiver does with a message. It may ignore the message or stop, and whatever has
been damaged may be taken for a bad block. -/
inductive Reads : RPlace → Msg → List UInt8 → RPlace → Prop where
  | ignored {r m} : Reads r m [] r
  | eotAgain {i} : Reads (.waiting i) .eot [ACK, NCG] (.waiting i)
  | badStat {i m} : Reads (.waiting i) m [NAK] (.waiting i)
  | opened {i} : Reads (.waiting i) (.blk i 0) [ACK, NCG] (.receiving i 0)
  | ends {i} : Reads (.waiting i) (.blk i 0) [ACK] (.ended i true)
  | badBlk {i k m} : Reads (.receiving i k) m [] (.pending i k false)
  | again {i k} : Reads (.receiving i k) (.blk i k) [] (.pending i k true)
  | next {i k} : Reads (.receiving i k) (.blk i (k + 1)) [] (.pending i (k + 1) true)
  | firstEot {i k} : Reads (.receiving i k) .eot [NAK] (.receiving i k)
  | secondEot {i k} : Reads (.receiving i k) .eot [ACK, NCG] (.waiting (i + 1))
  | badWhenDone {i q m} : Reads (.ended i q) m [NAK] (.ended i false)

/-- What the receiver does on a timeout, if it goes on. -/
inductive TimesOut : RPlace → List UInt8 → RPlace → Prop where
  | stat {i} : TimesOut (.waiting i) [NCG] (.waiting i)
  | data {i k} : TimesOut (.receiving i k) [NAK] (.receiving i k)
  | bad {i k} : TimesOut (.pending i k false) [NAK] (.receiving i k)
  | good {i k out} (h : out = [ACK] ∨ out = [ACK, NCG]) :
      TimesOut (.pending i k true) out (.receiving i k)
  | done {i} : TimesOut (.ended i false) [NCG] (.ended i false)

/-- A response byte is dropped or replaced. -/
inductive Disturbed : List UInt8 → List UInt8 → Prop where
  | dropped (pre post : List UInt8) (b : UInt8) : Disturbed (pre ++ b :: post) (pre ++ post)
  | naked (pre post : List UInt8) (b : UInt8) : Disturbed (pre ++ b :: post) (pre ++ NAK :: post)

/-- The steps of the two ends and of the lines between them. -/
inductive Step : State → State → Prop where
  | idle {y} : Step y y
  | answers {s r toR c toS out s'} (h : Answers chunks s c out s') :
      Step ⟨s, r, false, toR, c :: toS⟩ ⟨s', r, out.any Msg.isBlk, toR ++ out, toS⟩
  | readsBlk {s r d i k toR toS out r'} (h : Reads r (.blk i k) out r') :
      Step ⟨s, r, d, .blk i k :: toR, toS⟩ ⟨s, r', false, toR, out⟩
  | readsEot {s r d toR toS out r'} (h : Reads r .eot out r') :
      Step ⟨s, r, d, .eot :: toR, toS⟩ ⟨s, r', d, toR, toS ++ out⟩
  | timesOut {s r d toR toS out r'} (h : TimesOut r out r') :
      Step ⟨s, r, d, toR, toS⟩ ⟨s, r', d, toR, toS ++ out⟩
  | disturbed {s r d toR toS toS'} (h : Disturbed toS toS') :
      Step ⟨s, r, d, toR, toS⟩ ⟨s, r, d, toR, toS'⟩

/-! ## How far the ends can be apart -/

/-- EOTs that have not been read. -/
def eots (n : Nat) : List Msg := List.replicate n .eot

/-- The places of the two ends that belong together, with what may travel between them. An
ACK can be under way only when the receiver has accepted what the sender has sent last. -/
inductive Agree : State → Prop where
  | listening {i n toS} : Agree ⟨.statC i, .waiting i, false, eots n, toS⟩
  | statSent {i n toS} : Agree ⟨.answer i 0, .waiting i, true, eots n ++ [.blk i 0], toS⟩
  | statRejected {i toS} (h : ACK ∉ toS) : Agree ⟨.answer i 0, .waiting i, false, [], toS⟩
  | blkSent {i k toS} (hk : k < chunks i) :
      Agree ⟨.answer i (k + 1), .receiving i k, true, [.blk i (k + 1)], toS⟩
  | blkSentAgain {i k toS} : Agree ⟨.answer i k, .receiving i k, true, [.blk i k], toS⟩
  | blkRejected {i k toS} (hk : k < chunks i) (h : ACK ∉ toS) :
      Agree ⟨.answer i (k + 1), .receiving i k, false, [], toS⟩
  | blkBad {i k} (hk : k < chunks i) :
      Agree ⟨.answer i (k + 1), .pending i k false, false, [], []⟩
  | blkRead {i k good} : Agree ⟨.answer i k, .pending i k good, false, [], []⟩
  | blkAccepted {i k toS} (h : toS.count ACK ≤ 1) :
      Agree ⟨.answer i k, .receiving i k, false, [], toS⟩
  | statAcked {i toS} (h : ACK ∉ toS) : Agree ⟨.one i, .receiving i 0, false, [], toS⟩
  | eotSent {i naked n toS} (h : ACK ∉ toS) :
      Agree ⟨.eot i naked, .receiving i (chunks i), false, eots n, toS⟩
  | eotBad {i naked n toS} (h : ACK ∉ toS) :
      Agree ⟨.eot i naked, .pending i (chunks i) false, false, eots n, toS⟩
  | eotAcked {i naked n toS} : Agree ⟨.eot i naked, .waiting (i + 1), false, eots n, toS⟩
  | endSentAgain {i q toS} : Agree ⟨.answer i 0, .ended i q, true, [.blk i 0], toS⟩
  | endRejected {i q toS} (h : ACK ∉ toS) : Agree ⟨.answer i 0, .ended i q, false, [], toS⟩
  | endAcked {i toS} (h : toS.length ≤ 1) : Agree ⟨.answer i 0, .ended i true, false, [], toS⟩
  | stuck {i} : Agree ⟨.one i, .ended i true, false, [], []⟩

/-- What the receiver may find at the head of the line. -/
inductive Expects : RPlace → Msg → Prop where
  | stat {i} : Expects (.waiting i) (.blk i 0)
  | eotWaiting {i} : Expects (.waiting i) .eot
  | again {i k} : Expects (.receiving i k) (.blk i k)
  | next {i k} (hk : k < chunks i) : Expects (.receiving i k) (.blk i (k + 1))
  | eot {i} : Expects (.receiving i (chunks i)) .eot
  | eotPending {i k good} : Expects (.pending i k good) .eot
  | last {i q} : Expects (.ended i q) (.blk i 0)

section Agree

variable {chunks} {s s' : SPlace} {r r' : RPlace} {d : Bool} {c : UInt8} {m : Msg}
  {toR out : List Msg} {toS toS' out' : List UInt8}

theorem eots_concat (n : Nat) : eots n ++ [.eot] = eots (n + 1) := by
  rw [eots, eots, List.replicate_succ']

/-- The head of a queue of EOTs is an EOT, with EOTs behind it. -/
theorem eots_eq_cons {n : Nat} (h : eots n = m :: toR) : ∃ k, m = .eot ∧ toR = eots k := by
  cases n with
  | zero => cases h
  | succ n =>
    cases h
    exact ⟨n, rfl, rfl⟩

theorem notMem_of_cons {b : UInt8} (h : b ∉ c :: toS) : b ∉ toS := fun hmem => h (.tail _ hmem)

/-- What the receiver has accepted is never behind what the sender has finished. -/
theorem Agree.file_le (h : Agree chunks ⟨s, r, d, toR, toS⟩) : s.file ≤ r.completed := by
  cases h with
  | eotAcked => exact Nat.le_succ _
  | _ => exact Nat.le_refl _

theorem notMem_of_count_cons (h : (ACK :: toS).count ACK ≤ 1) : ACK ∉ toS := by
  intro hmem
  have hpos := List.count_pos_iff.mpr hmem
  rw [List.count_cons_self] at h
  omega

/-- A response is read. -/
theorem Agree.answers (h : Agree chunks ⟨s, r, false, toR, c :: toS⟩)
    (ha : Answers chunks s c out s') :
    Agree chunks ⟨s', r, out.any Msg.isBlk, toR ++ out, toS⟩ := by
  cases ha with
  | quiet =>
    rw [List.append_nil]
    cases h with
    | listening => exact .listening
    | statRejected h => exact .statRejected (notMem_of_cons h)
    | blkRejected hk h => exact .blkRejected hk (notMem_of_cons h)
    | blkAccepted h => exact .blkAccepted (Nat.le_trans List.count_le_count_cons h)
    | statAcked h => exact .statAcked (notMem_of_cons h)
    | eotSent h => exact .eotSent (notMem_of_cons h)
    | eotBad h => exact .eotBad (notMem_of_cons h)
    | eotAcked => exact .eotAcked
    | endRejected h => exact .endRejected (notMem_of_cons h)
    | endAcked h => exact .endAcked (Nat.le_trans (Nat.le_succ _) h)
  | stat =>
    cases h with
    | listening => exact .statSent
  | statAcked =>
    rw [List.append_nil]
    cases h with
    | statRejected h => exact absurd (.head _) h
    | endRejected h => exact absurd (.head _) h
    | blkAccepted h => exact .statAcked (notMem_of_count_cons h)
    | endAcked h =>
      rw [List.length_cons] at h
      rw [List.length_eq_zero_iff.mp (show toS.length = 0 by omega)]
      exact .stuck
  | resent _ =>
    cases h with
    | statRejected _ => exact .statSent (n := 0)
    | blkRejected hk _ => exact .blkSent hk
    | blkAccepted _ => exact .blkSentAgain
    | endRejected _ => exact .endSentAgain
    | endAcked _ => exact .endSentAgain
  | statAgain =>
    cases h with
    | statAcked _ => exact .blkSentAgain
  | firstBlk hk =>
    cases h with
    | statAcked _ => exact .blkSent hk
  | noBlk hk =>
    cases h with
    | statAcked h =>
      rw [← hk]
      exact .eotSent (n := 1) (notMem_of_cons h)
  | nextBlk hk =>
    cases h with
    | blkRejected _ h => exact absurd (.head _) h
    | blkAccepted _ => exact .blkSent hk
  | lastBlk hk =>
    cases h with
    | blkRejected _ h => exact absurd (.head _) h
    | blkAccepted h =>
      rw [← hk]
      exact .eotSent (n := 1) (notMem_of_count_cons h)
  | eotAgain _ =>
    cases h with
    | eotSent h =>
      rw [eots_concat]
      exact .eotSent (notMem_of_cons h)
    | eotBad h =>
      rw [eots_concat]
      exact .eotBad (notMem_of_cons h)
    | eotAcked =>
      rw [eots_concat]
      exact .eotAcked
  | eotAcked =>
    rw [List.append_nil]
    cases h with
    | eotSent h => exact absurd (.head _) h
    | eotBad h => exact absurd (.head _) h
    | eotAcked => exact .listening

theorem notMem_append (h : ACK ∉ toS) (h' : ACK ∉ out') : ACK ∉ toS ++ out' := fun hmem =>
  (List.mem_append.mp hmem).elim h h'

theorem count_append_le (h : toS.count ACK ≤ 1) (h' : ACK ∉ out') :
    (toS ++ out').count ACK ≤ 1 := by
  rw [List.count_append, List.count_eq_zero_of_not_mem h']
  exact h

/-- A block is read, and the responses before it are thrown away. -/
theorem Agree.readsBlk {i k : Nat} (h : Agree chunks ⟨s, r, d, .blk i k :: toR, toS⟩)
    (hr : Reads r (.blk i k) out' r') : Agree chunks ⟨s, r', false, toR, out'⟩ := by
  generalize hq : Msg.blk i k :: toR = q at h
  cases h with
  | listening => exact absurd (eots_eq_cons hq.symm).choose_spec.1 (by simp)
  | @statSent j n =>
    cases n with
    | succ n => cases hq
    | zero =>
      cases hq
      cases hr with
      | ignored => exact .statRejected (by decide)
      | badStat => exact .statRejected (by decide)
      | opened => exact .blkAccepted (by decide)
      | ends => exact .endAcked (by decide)
  | blkSent hk =>
    cases hq
    generalize hm : Msg.blk _ _ = m at hr
    cases hr with
    | ignored => exact .blkRejected hk (by decide)
    | badBlk => exact .blkBad hk
    | again => simp at hm
    | next =>
      cases hm
      exact .blkRead
    | firstEot | secondEot => cases hm
  | blkSentAgain =>
    cases hq
    generalize hm : Msg.blk _ _ = m at hr
    cases hr with
    | ignored => exact .blkAccepted (by decide)
    | badBlk => exact .blkRead
    | again => exact .blkRead
    | next => simp at hm
    | firstEot | secondEot => cases hm
  | endSentAgain =>
    cases hq
    cases hr with
    | ignored => exact .endRejected (by decide)
    | badWhenDone => exact .endRejected (by decide)
  | eotSent _ => exact absurd (eots_eq_cons hq.symm).choose_spec.1 (by simp)
  | eotBad _ => exact absurd (eots_eq_cons hq.symm).choose_spec.1 (by simp)
  | eotAcked => exact absurd (eots_eq_cons hq.symm).choose_spec.1 (by simp)
  | _ => cases hq

/-- An EOT is read. -/
theorem Agree.readsEot (h : Agree chunks ⟨s, r, d, .eot :: toR, toS⟩)
    (hr : Reads r .eot out' r') : Agree chunks ⟨s, r', d, toR, toS ++ out'⟩ := by
  generalize hq : Msg.eot :: toR = q at h
  cases h with
  | listening =>
    obtain ⟨n, -, rfl⟩ := eots_eq_cons hq.symm
    cases hr <;> exact .listening
  | @statSent j n =>
    cases n with
    | zero => cases hq
    | succ n =>
      cases hq
      cases hr <;> exact .statSent
  | eotSent h =>
    obtain ⟨n, -, rfl⟩ := eots_eq_cons hq.symm
    cases hr with
    | ignored => exact .eotSent (notMem_append h (by decide))
    | badBlk => exact .eotBad (notMem_append h (by decide))
    | firstEot => exact .eotSent (notMem_append h (by decide))
    | secondEot => exact .eotAcked
  | eotBad h =>
    obtain ⟨n, -, rfl⟩ := eots_eq_cons hq.symm
    cases hr with
    | ignored => exact .eotBad (notMem_append h (by decide))
  | eotAcked =>
    obtain ⟨n, -, rfl⟩ := eots_eq_cons hq.symm
    cases hr <;> exact .eotAcked
  | _ => cases hq

theorem Agree.expects (h : Agree chunks ⟨s, r, d, m :: toR, toS⟩) : Expects chunks r m := by
  generalize hq : m :: toR = q at h
  cases h with
  | listening =>
    obtain ⟨-, rfl, -⟩ := eots_eq_cons hq.symm
    exact .eotWaiting
  | @statSent i n =>
    cases n with
    | zero =>
      cases hq
      exact .stat
    | succ n =>
      cases hq
      exact .eotWaiting
  | blkSent hk =>
    cases hq
    exact .next hk
  | blkSentAgain =>
    cases hq
    exact .again
  | eotSent _ =>
    obtain ⟨-, rfl, -⟩ := eots_eq_cons hq.symm
    exact .eot
  | eotBad _ =>
    obtain ⟨-, rfl, -⟩ := eots_eq_cons hq.symm
    exact .eotPending
  | eotAcked =>
    obtain ⟨-, rfl, -⟩ := eots_eq_cons hq.symm
    exact .eotWaiting
  | endSentAgain =>
    cases hq
    exact .last
  | _ => cases hq

/-- In `ONE` a response is read only when the file has been created. -/
theorem Agree.created {i : Nat} (h : Agree chunks ⟨.one i, r, d, toR, c :: toS⟩) :
    r = .receiving i 0 := by
  cases h with
  | statAcked _ => rfl

/-- A disturbance adds no ACK. -/
theorem Disturbed.count_le (h : Disturbed toS toS') : toS'.count ACK ≤ toS.count ACK := by
  cases h with
  | dropped pre post b =>
    rw [List.count_append, List.count_append]
    exact Nat.add_le_add_left List.count_le_count_cons _
  | naked pre post b =>
    have hnak : (NAK :: post).count ACK = post.count ACK := List.count_cons_of_ne (by decide)
    rw [List.count_append, List.count_append, hnak]
    exact Nat.add_le_add_left List.count_le_count_cons _

theorem Disturbed.length_le (h : Disturbed toS toS') : toS'.length ≤ toS.length := by
  cases h <;> simp

/-- A response byte is dropped or replaced. -/
theorem Agree.disturbed (h : Agree chunks ⟨s, r, d, toR, toS⟩) (hd : Disturbed toS toS') :
    Agree chunks ⟨s, r, d, toR, toS'⟩ := by
  have hcount := hd.count_le
  have hlen := hd.length_le
  have hmem (h : ACK ∉ toS) : ACK ∉ toS' := by
    rw [← List.count_eq_zero] at h ⊢
    omega
  cases h with
  | listening => exact .listening
  | statSent => exact .statSent
  | statRejected h => exact .statRejected (hmem h)
  | blkSent hk => exact .blkSent hk
  | blkSentAgain => exact .blkSentAgain
  | blkRejected hk h => exact .blkRejected hk (hmem h)
  | blkAccepted h => exact .blkAccepted (Nat.le_trans hcount h)
  | statAcked h => exact .statAcked (hmem h)
  | eotSent h => exact .eotSent (hmem h)
  | eotBad h => exact .eotBad (hmem h)
  | eotAcked => exact .eotAcked
  | endSentAgain => exact .endSentAgain
  | endRejected h => exact .endRejected (hmem h)
  | endAcked h => exact .endAcked (Nat.le_trans hlen h)
  | blkBad hk =>
    rw [List.length_eq_zero_iff.mp (Nat.le_zero.mp hlen)]
    exact .blkBad hk
  | blkRead =>
    rw [List.length_eq_zero_iff.mp (Nat.le_zero.mp hlen)]
    exact .blkRead
  | stuck =>
    rw [List.length_eq_zero_iff.mp (Nat.le_zero.mp hlen)]
    exact .stuck

theorem Agree.timesOut (h : Agree chunks ⟨s, r, d, toR, toS⟩) (ht : TimesOut r out' r') :
    Agree chunks ⟨s, r', d, toR, toS ++ out'⟩ := by
  cases ht with
  | stat =>
    cases h with
    | listening => exact .listening
    | statSent => exact .statSent
    | statRejected h => exact .statRejected (notMem_append h (by decide))
    | eotAcked => exact .eotAcked
  | data =>
    cases h with
    | blkSent hk => exact .blkSent hk
    | blkSentAgain => exact .blkSentAgain
    | blkRejected hk h => exact .blkRejected hk (notMem_append h (by decide))
    | blkAccepted h => exact .blkAccepted (count_append_le h (by decide))
    | statAcked h => exact .statAcked (notMem_append h (by decide))
    | eotSent h => exact .eotSent (notMem_append h (by decide))
  | bad =>
    cases h with
    | blkBad hk => exact .blkRejected hk (by decide)
    | blkRead => exact .blkAccepted (by decide)
    | eotBad h => exact .eotSent (notMem_append h (by decide))
  | good hout =>
    cases h with
    | blkRead => rcases hout with rfl | rfl <;> exact .blkAccepted (by decide)
  | done =>
    cases h with
    | endSentAgain => exact .endSentAgain
    | endRejected h => exact .endRejected (notMem_append h (by decide))

/-- **Every step keeps the two ends together.** -/
theorem Agree.step {y y' : State} (h : Agree chunks y) (hs : Step chunks y y') :
    Agree chunks y' := by
  cases hs with
  | idle => exact h
  | answers ha => exact h.answers ha
  | readsBlk hr => exact h.readsBlk hr
  | readsEot hr => exact h.readsEot hr
  | timesOut ht => exact h.timesOut ht
  | disturbed hd => exact h.disturbed hd

end Agree

/-! ## No CAN travels -/

section Responses

variable {chunks} {r r' : RPlace} {m : Msg} {toS toS' out : List UInt8}

theorem Reads.can_notMem (h : Reads r m out r') : CAN ∉ out := by
  cases h <;> decide

theorem TimesOut.can_notMem (h : TimesOut r out r') : CAN ∉ out := by
  cases h with
  | good hout => rcases hout with rfl | rfl <;> decide
  | _ => decide

theorem Disturbed.can_notMem (h : Disturbed toS toS') (hc : CAN ∉ toS) : CAN ∉ toS' := by
  cases h with
  | dropped pre post b =>
    simp only [List.mem_append, List.mem_cons, not_or] at hc ⊢
    exact ⟨hc.1, hc.2.2⟩
  | naked pre post b =>
    simp only [List.mem_append, List.mem_cons, not_or] at hc ⊢
    exact ⟨hc.1, by decide, hc.2.2⟩

theorem Step.can_notMem {y y' : State} (h : Step chunks y y') (hc : CAN ∉ y.toS) :
    CAN ∉ y'.toS := by
  cases h with
  | idle => exact hc
  | answers _ => exact fun hmem => hc (.tail _ hmem)
  | readsBlk hr => exact hr.can_notMem
  | readsEot hr => exact fun hmem => (List.mem_append.mp hmem).elim hc hr.can_notMem
  | timesOut ht => exact fun hmem => (List.mem_append.mp hmem).elim hc ht.can_notMem
  | disturbed hd => exact hd.can_notMem hc

end Responses

end StopAndWait

end YModem.Session
