import Mathlib.Data.Nat.ModEq
import YModem.Part2.Written

/-!
# The medium of Part 2 (`Ensc351Part2/src/Medium.cpp`)

`MsgFromTerm2` reads one byte, and behind an SOH the rest of what is there of a block. It
complements about every 395th byte, and tells by `m_byteCount` which one. The byte behind a CAN
is not counted, and the threshold is only looked at behind an SOH. `SEND_EXTRA_ACKS` is not
defined.
-/

namespace YModem.Part2

open YModem.Lib YModem.Peer

abbrev T2toT1_CORRUPT_BYTE : Nat := 395

/-- The number of CAN characters that cancel a session in Part 2. -/
abbrev CAN_LEN : Nat := 2

abbrev INT_MAX : Nat := 0x7FFFFFFF

/-- How a call of the medium may end the process, or leave what the language defines. -/
inductive MediumFault where
  /-- `PE_NOT` exits. -/
  | exited
  /-- An `int` overflows. -/
  | overflow
  /-- `bytesReceived[byteToCorrupt]` is not one of the bytes that were read. -/
  | outOfRange (byteToCorrupt : Int) (numOfBytesReceived : Nat)
deriving DecidableEq, Repr

/-- What the medium writes, and where. -/
inductive MediumWrite where
  | logFile (bytes : List UInt8)
  | term1 (bytes : List UInt8)
  | term2 (bytes : List UInt8)
deriving DecidableEq, Repr

/-- What a call of `MsgFromTerm2` reads: a byte, and what its second read delivers if there
is one. -/
structure FromTerm2 where
  first : UInt8
  rest : List UInt8
  rest_le : rest.length ≤ BLK_SZ_CRC - 1
deriving DecidableEq, Repr

/-- What a call reads from one of the terminals. -/
inductive MediumMsg where
  | fromTerm2 (t : FromTerm2)
  | fromTerm1 (first : UInt8) (rest : List UInt8)
deriving DecidableEq, Repr

structure Medium where
  m_byteCount : Nat
  m_ACKreceived : Nat
  m_sendExtraAck : Bool
  writes : List MediumWrite
deriving DecidableEq, Repr

namespace Medium

def init : Medium := ⟨0, 0, false, []⟩

variable (m : Medium)

/-- `myWrite(m_logFileD, ..)` and `myWrite(m_Term1D, ..)`. -/
@[simps] def toTerm1 (bytes : List UInt8) : Medium :=
  { m with writes := m.writes ++ [.logFile bytes, .term1 bytes] }

@[simps] def toTerm2 (bytes : List UInt8) : Medium :=
  { m with writes := m.writes ++ [.logFile bytes, .term2 bytes] }

/-- `m_byteCount += numOfBytesReceived`. -/
def count (numOfBytesReceived : Nat) : Except MediumFault Medium :=
  if m.m_byteCount + numOfBytesReceived ≤ INT_MAX then
    .ok { m with m_byteCount := m.m_byteCount + numOfBytesReceived }
  else .error .overflow

/-- The test of the threshold, and the bytes that are passed on. -/
def corrupt (bytesReceived : List UInt8) : Except MediumFault (Medium × List UInt8) :=
  if m.m_byteCount ≥ T2toT1_CORRUPT_BYTE then
    let m := { m with m_byteCount := m.m_byteCount - T2toT1_CORRUPT_BYTE }
    let byteToCorrupt : Int := bytesReceived.length - m.m_byteCount
    if byteToCorrupt < bytesReceived.length then
      if 0 ≤ byteToCorrupt then
        .ok (m, bytesReceived.modify byteToCorrupt.toNat (255 - ·))
      else .error (.outOfRange byteToCorrupt bytesReceived.length)
    else .ok (m, bytesReceived)
  else .ok (m, bytesReceived)

/-- The extra ACK, when one is due. -/
def extraAck : Medium :=
  if m.m_sendExtraAck then { m.toTerm2 [ACK] with m_sendExtraAck := false } else m

@[simp] theorem extraAck_byteCount : m.extraAck.m_byteCount = m.m_byteCount := by
  unfold extraAck
  split <;> rfl

def MsgFromTerm2 (t : FromTerm2) : Except MediumFault Medium := do
  let m ← m.count 1
  let m := m.toTerm1 [t.first]
  if t.first = CAN then
    if t.rest.length ≠ CAN_LEN - 1 then .error .exited
    else return m.toTerm1 t.rest
  else if t.first = SOH then
    let m ← m.extraAck.count t.rest.length
    let (m, bytesReceived) ← m.corrupt t.rest
    return m.toTerm1 bytesReceived
  else return m

/-- Every tenth ACK is passed on as a NAK. -/
def MsgFromTerm1 (first : UInt8) (rest : List UInt8) : Medium :=
  if first = ACK then
    let m := { m with m_ACKreceived := m.m_ACKreceived + 1 }
    if m.m_ACKreceived % 10 = 0 then { m with m_ACKreceived := 0 }.toTerm2 (NAK :: rest)
    else m.toTerm2 (first :: rest)
  else m.toTerm2 (first :: rest)

def msg : MediumMsg → Except MediumFault Medium
  | .fromTerm2 t => m.MsgFromTerm2 t
  | .fromTerm1 first rest => .ok (m.MsgFromTerm1 first rest)

/-- The calls of both threads, in the order in which they get to the medium. -/
def run (msgs : List MediumMsg) : Except MediumFault Medium := msgs.foldlM msg m

end Medium

/-- The bytes that terminal 2 has sent, as they are read. -/
def traffic (msgs : List MediumMsg) : List UInt8 :=
  msgs.flatMap fun
    | .fromTerm2 t => if t.first = CAN ∨ t.first = SOH then t.first :: t.rest else [t.first]
    | .fromTerm1 _ _ => []

/-- Whenever the medium complements `bytesReceived[byteToCorrupt]`, it is a byte that was read. -/
def CorruptsOnlyRead (msgs : List MediumMsg) : Prop :=
  ∀ byteToCorrupt numOfBytesReceived,
    Medium.init.run msgs ≠ .error (.outOfRange byteToCorrupt numOfBytesReceived)

/-- A call that begins with `m_byteCount` at or past the threshold, reads an SOH and does not
get to the end of `int`. -/
def Overshot (m : Medium) (t : FromTerm2) : Prop :=
  t.first = SOH ∧ T2toT1_CORRUPT_BYTE ≤ m.m_byteCount ∧
    m.m_byteCount + 1 + t.rest.length ≤ INT_MAX

section

variable {m : Medium} {t : FromTerm2}

/-! ## One call -/

/-- The second read adds to a count that is at `n` behind the SOH. Its byte at the threshold is
`n` back from there, which is in front of it when `n` is past the threshold. -/
theorem corrupt_outOfRange_iff {bytes : List UInt8} {n : Nat}
    (hn : m.m_byteCount = n + bytes.length) :
    (∃ i k, m.corrupt bytes = .error (.outOfRange i k)) ↔ T2toT1_CORRUPT_BYTE < n := by
  unfold Medium.corrupt
  simp only [ge_iff_le]
  split_ifs with hthr hlt hge
  · refine ⟨nofun, fun h => ?_⟩
    omega
  · refine ⟨fun _ => by omega, fun _ => ⟨_, _, rfl⟩⟩
  · refine ⟨nofun, fun h => ?_⟩
    omega
  · refine ⟨nofun, fun h => ?_⟩
    omega

theorem count_of_le {k : Nat} (h : m.m_byteCount + k ≤ INT_MAX) :
    m.count k = .ok { m with m_byteCount := m.m_byteCount + k } := if_pos h

theorem count_of_lt {k : Nat} (h : INT_MAX < m.m_byteCount + k) : m.count k = .error .overflow :=
  if_neg (Nat.not_le_of_lt h)

/-- A call behind an SOH, up to the test of the threshold and from there. -/
theorem MsgFromTerm2_soh (hsoh : t.first = SOH)
    (hfit : m.m_byteCount + 1 + t.rest.length ≤ INT_MAX) :
    ∃ m₁ : Medium, m₁.m_byteCount = m.m_byteCount + 1 + t.rest.length ∧
      m.MsgFromTerm2 t = (m₁.corrupt t.rest).map fun p => p.1.toTerm1 p.2 := by
  have hcan : ¬ t.first = CAN := by
    rw [hsoh]
    decide
  let m₁ : Medium := { m with m_byteCount := m.m_byteCount + 1 }
  have hone : m.count 1 = .ok m₁ := count_of_le (by omega)
  have hrest := @count_of_le (m₁.toTerm1 [t.first]).extraAck t.rest.length
    (by simpa [m₁] using hfit)
  refine ⟨{ (m₁.toTerm1 [t.first]).extraAck with
    m_byteCount := m.m_byteCount + 1 + t.rest.length }, rfl, ?_⟩
  rw [Medium.MsgFromTerm2, hone]
  simp only [bind, Except.bind, pure, Except.pure, if_neg hcan, if_pos hsoh, hrest,
    Medium.extraAck_byteCount, Except.map]
  rfl

theorem MsgFromTerm2_soh_overflow (hsoh : t.first = SOH)
    (hlt : INT_MAX < m.m_byteCount + 1 + t.rest.length) :
    m.MsgFromTerm2 t = .error .overflow := by
  rcases Nat.lt_or_ge INT_MAX (m.m_byteCount + 1) with hone | hone
  · rw [Medium.MsgFromTerm2, count_of_lt hone]
    rfl
  · have hcan : ¬ t.first = CAN := by
      rw [hsoh]
      decide
    rw [Medium.MsgFromTerm2, count_of_le hone]
    simp only [bind, Except.bind, if_neg hcan, if_pos hsoh]
    rw [count_of_lt (by simpa using hlt)]

/-- No other call gets to the test. -/
theorem MsgFromTerm2_not_soh (hsoh : t.first ≠ SOH) :
    m.MsgFromTerm2 t = .error .overflow ∨ m.MsgFromTerm2 t = .error .exited ∨
      ∃ m', m.MsgFromTerm2 t = .ok m' ∧ m'.m_byteCount = m.m_byteCount + 1 := by
  rcases Nat.lt_or_ge INT_MAX (m.m_byteCount + 1) with hone | hone
  · left
    rw [Medium.MsgFromTerm2, count_of_lt hone]
    rfl
  · right
    rw [Medium.MsgFromTerm2, count_of_le hone]
    simp only [bind, Except.bind, pure, Except.pure, if_neg hsoh]
    split_ifs
    · exact .inl rfl
    · exact .inr ⟨_, rfl, rfl⟩
    · exact .inr ⟨_, rfl, rfl⟩

/-- **Which call complements a byte that it has not read.** -/
theorem outOfRange_iff :
    (∃ i k, m.MsgFromTerm2 t = .error (.outOfRange i k)) ↔ Overshot m t := by
  by_cases hsoh : t.first = SOH
  · rcases Nat.lt_or_ge INT_MAX (m.m_byteCount + 1 + t.rest.length) with hlt | hfit
    · rw [MsgFromTerm2_soh_overflow hsoh hlt]
      refine ⟨nofun, fun h => absurd h.2.2 (Nat.not_le_of_lt hlt)⟩
    · obtain ⟨m₁, hcount, hmsg⟩ := MsgFromTerm2_soh hsoh hfit
      have htest := corrupt_outOfRange_iff hcount
      rw [hmsg]
      constructor
      · rintro ⟨i, k, h⟩
        cases hc : m₁.corrupt t.rest with
        | ok p =>
          rw [hc] at h
          cases h
        | error x =>
          rw [hc] at h
          cases h
          exact ⟨hsoh, Nat.lt_succ_iff.mp (htest.mp ⟨i, k, hc⟩), hfit⟩
      · rintro ⟨-, hthr, -⟩
        obtain ⟨i, k, hc⟩ := htest.mpr (Nat.lt_succ_iff.mpr hthr)
        exact ⟨i, k, by rw [hc]; rfl⟩
  · refine ⟨fun ⟨i, k, h⟩ => ?_, fun h => absurd h.1 hsoh⟩
    rcases MsgFromTerm2_not_soh (m := m) hsoh with h' | h' | ⟨m', h', -⟩
    all_goals
      rw [h'] at h
      cases h

/-! ## Whole runs -/

/-- What a call adds to `m_byteCount`, the threshold aside. -/
def counted : MediumMsg → Nat
  | .fromTerm2 t => if t.first = SOH then 1 + t.rest.length else 1
  | .fromTerm1 _ _ => 0

theorem MsgFromTerm1_byteCount (first : UInt8) (rest : List UInt8) :
    (m.MsgFromTerm1 first rest).m_byteCount = m.m_byteCount := by
  unfold Medium.MsgFromTerm1
  split
  · dsimp only
    split <;> rfl
  · rfl

/-- The test takes the threshold off, or nothing. -/
theorem corrupt_byteCount {bytes bytes' : List UInt8} {m' : Medium}
    (h : m.corrupt bytes = .ok (m', bytes')) :
    Nat.ModEq T2toT1_CORRUPT_BYTE m'.m_byteCount m.m_byteCount := by
  unfold Medium.corrupt at h
  simp only [ge_iff_le] at h
  split_ifs at h with hthr hlt hge
  · simp only [Except.ok.injEq, Prod.mk.injEq] at h
    rw [← h.1]
    exact (Nat.mod_eq_sub_mod hthr).symm
  · simp only [Except.ok.injEq, Prod.mk.injEq] at h
    rw [← h.1]
    exact (Nat.mod_eq_sub_mod hthr).symm
  · simp only [Except.ok.injEq, Prod.mk.injEq] at h
    rw [← h.1]

theorem msg_byteCount {msg : MediumMsg} {m' : Medium} (h : m.msg msg = .ok m') :
    Nat.ModEq T2toT1_CORRUPT_BYTE m'.m_byteCount (m.m_byteCount + counted msg) := by
  cases msg with
  | fromTerm1 first rest =>
    cases h
    rw [MsgFromTerm1_byteCount]
    exact Nat.ModEq.refl _
  | fromTerm2 t =>
    change m.MsgFromTerm2 t = .ok m' at h
    simp only [counted]
    split_ifs with hsoh
    · rcases Nat.lt_or_ge INT_MAX (m.m_byteCount + 1 + t.rest.length) with hlt | hfit
      · rw [MsgFromTerm2_soh_overflow hsoh hlt] at h
        cases h
      · obtain ⟨m₁, hcount, hmsg⟩ := MsgFromTerm2_soh hsoh hfit
        rw [hmsg] at h
        cases hc : m₁.corrupt t.rest with
        | error x =>
          rw [hc] at h
          cases h
        | ok p =>
          rw [hc] at h
          cases h
          have hmod := corrupt_byteCount hc
          rwa [hcount, Nat.add_assoc] at hmod
    · rcases MsgFromTerm2_not_soh (m := m) hsoh with h' | h' | ⟨m₁, h', hcount⟩
      · rw [h'] at h
        cases h
      · rw [h'] at h
        cases h
      · rw [h'] at h
        cases h
        rw [hcount]

/-- **What `m_byteCount` is after any traffic**: what has been counted, modulo the threshold. -/
theorem run_byteCount {msgs : List MediumMsg} {m' : Medium} (h : m.run msgs = .ok m') :
    Nat.ModEq T2toT1_CORRUPT_BYTE m'.m_byteCount (m.m_byteCount + (msgs.map counted).sum) := by
  induction msgs generalizing m with
  | nil =>
    cases h
    exact Nat.ModEq.refl _
  | cons msg msgs ih =>
    rw [Medium.run, List.foldlM_cons] at h
    cases hm : m.msg msg with
    | error x =>
      rw [hm] at h
      cases h
    | ok m₁ =>
      rw [hm] at h
      have hstep := (msg_byteCount hm).add_right (msgs.map counted).sum
      rw [List.map_cons, List.sum_cons, ← Nat.add_assoc]
      exact (@ih m₁ h).trans hstep

/-- **The medium complements only bytes that it has read exactly when no call behind an SOH
begins with the count at the threshold**, for any traffic and any splits. -/
theorem corrupts_only_read_iff (msgs : List MediumMsg) : CorruptsOnlyRead msgs ↔
    ∀ before t after m, msgs = before ++ .fromTerm2 t :: after →
      Medium.init.run before = .ok m → ¬ Overshot m t := by
  constructor
  · rintro h before t after m rfl hm hover
    obtain ⟨i, k, he⟩ := outOfRange_iff.mpr hover
    exact h i k (Run.foldlM_eq_error_iff.mpr ⟨before, _, after, m, rfl, hm, he⟩)
  · intro h i k hrun
    obtain ⟨before, msg, after, m, heq, hm, he⟩ := Run.foldlM_eq_error_iff.mp hrun
    cases msg with
    | fromTerm1 first rest => cases he
    | fromTerm2 t => exact h before t after m heq hm (outOfRange_iff.mp ⟨i, k, he⟩)

end

/-- The reads of a block whose last byte comes by itself. -/
def blkReads (rest : List UInt8) : List MediumMsg :=
  [.fromTerm2 ⟨SOH, rest.take (BLK_SZ_CRC - 2),
      (List.length_take_le _ _).trans (Nat.le_succ _)⟩,
    .fromTerm2 ⟨rest.getLastD 0, [], Nat.zero_le _⟩]

def eotRead : MediumMsg := .fromTerm2 ⟨EOT, [], Nat.zero_le _⟩

/-- Block 0 of a file "a" with 12416 bytes, and its 97 blocks. -/
def blksOfA : List (List UInt8) :=
  restOf 0 (statChunk [97] [49, 50, 52, 49, 54]) ::
    (List.range 97).map fun k => restOf (UInt8.ofNat (k + 1)) chunkOfB

/-- The session that sends this file. -/
def readsOfA : List MediumMsg :=
  blksOfA.flatMap blkReads ++ [eotRead, eotRead] ++ blkReads (restOf 0 (padded 0 []))

set_option maxRecDepth 8000 in
/-- The 98 blocks leave the count at 394. The two EOTs take it past the threshold, and the last
stat block is then to be corrupted two bytes in front of the buffer. -/
theorem last_stat_blk_overshoots :
    traffic readsOfA = blksOfA.flatMap (SOH :: ·) ++ [EOT, EOT] ++
      SOH :: restOf 0 (padded 0 []) ∧
    Medium.init.run readsOfA = .error (.outOfRange (-2) 131) ∧ ¬ CorruptsOnlyRead readsOfA := by
  have hrun : Medium.init.run readsOfA = .error (.outOfRange (-2) 131) := by decide +kernel
  exact ⟨by decide +kernel, hrun, fun h => h _ _ hrun⟩

end YModem.Part2
