import YModem.Peer.Damage
import YModem.Part2.Medium

/-!
# What comes through the medium of Part 2

`m_byteCount` and `m_ACKreceived` are set back again and again. Here the traffic is numbered from
its beginning, and the medium is shown to change nothing but the bytes behind an SOH whose number
is a multiple of `T2toT1_CORRUPT_BYTE`, and the first byte of every tenth read that begins with
an ACK.
-/

namespace YModem.Part2

open YModem.Lib YModem.Peer

/-! ## The traffic by its numbers -/

/-- The bytes behind an SOH, the first of which has the number `n`. -/
def complemented (n : Nat) (bytes : List UInt8) : List UInt8 :=
  bytes.mapIdx fun i b => if T2toT1_CORRUPT_BYTE ∣ n + i then 255 - b else b

/-- What a call passes on to terminal 1 when `n` bytes have been counted before it. -/
def passed (n : Nat) (t : FromTerm2) : List UInt8 :=
  if t.first = SOH then t.first :: complemented (n + 1) t.rest
  else if t.first = CAN then t.first :: t.rest
  else [t.first]

/-- What a call passes on to terminal 2 when there have been `acks` ACKs before it. -/
def answered (acks : Nat) (first : UInt8) (rest : List UInt8) : List UInt8 :=
  if first = ACK ∧ 10 ∣ acks + 1 then NAK :: rest else first :: rest

/-- The ACKs that a call counts. -/
def ackOf (first : UInt8) : Nat := if first = ACK then 1 else 0

/-- What a call adds to `m_ACKreceived`, the tens aside. -/
def acked : MediumMsg → Nat
  | .fromTerm1 first _ => ackOf first
  | .fromTerm2 _ => 0

/-- The bytes that get to terminal 1. -/
def toTerm1 : Nat → List MediumMsg → List UInt8
  | _, [] => []
  | n, .fromTerm1 _ _ :: msgs => toTerm1 n msgs
  | n, .fromTerm2 t :: msgs => passed n t ++ toTerm1 (n + counted (.fromTerm2 t)) msgs

/-- The bytes that get to terminal 2. -/
def toTerm2 : Nat → List MediumMsg → List UInt8
  | _, [] => []
  | acks, .fromTerm1 first rest :: msgs => answered acks first rest ++ toTerm2 (acks + ackOf first) msgs
  | acks, .fromTerm2 _ :: msgs => toTerm2 acks msgs

/-- The bytes that were written to terminal 1. -/
def writtenTo1 (writes : List MediumWrite) : List UInt8 :=
  writes.flatMap fun
    | .term1 bytes => bytes
    | .logFile _ | .term2 _ => []

/-- The bytes that were written to terminal 2. -/
def writtenTo2 (writes : List MediumWrite) : List UInt8 :=
  writes.flatMap fun
    | .term2 bytes => bytes
    | .logFile _ | .term1 _ => []

/-- The bytes of the log file. -/
def logged (writes : List MediumWrite) : List UInt8 :=
  writes.flatMap fun
    | .logFile bytes => bytes
    | .term1 _ | .term2 _ => []

/-- The bytes that were written to the terminals, in the order of the writes. -/
def forwarded (writes : List MediumWrite) : List UInt8 :=
  writes.flatMap fun
    | .term1 bytes | .term2 bytes => bytes
    | .logFile _ => []

/-! ## One complemented byte -/

theorem length_complemented (n : Nat) (bytes : List UInt8) :
    (complemented n bytes).length = bytes.length := List.length_mapIdx

/-- The numbers count modulo the threshold. -/
theorem complemented_congr {n k : Nat} (h : Nat.ModEq T2toT1_CORRUPT_BYTE n k) (bytes : List UInt8) :
    complemented n bytes = complemented k bytes := by
  have hdvd (i : Nat) : T2toT1_CORRUPT_BYTE ∣ n + i ↔ T2toT1_CORRUPT_BYTE ∣ k + i :=
    (h.add_right i).dvd_iff (dvd_refl _)
  simp only [complemented, hdvd]

/-- A multiple of the threshold in front of the end of the bytes is the only one. -/
theorem complemented_eq_modify {k : Nat} {bytes : List UInt8} (hk : 0 < k)
    (hle : k ≤ T2toT1_CORRUPT_BYTE) (hlen : bytes.length ≤ T2toT1_CORRUPT_BYTE) :
    complemented k bytes = bytes.modify (T2toT1_CORRUPT_BYTE - k) (255 - ·) := by
  have hT : T2toT1_CORRUPT_BYTE = 395 := rfl
  refine List.ext_getElem (by simp [complemented]) fun i hi _ => ?_
  rw [length_complemented] at hi
  have hiff : T2toT1_CORRUPT_BYTE ∣ k + i ↔ T2toT1_CORRUPT_BYTE - k = i := by
    rw [hT] at hle hlen ⊢
    omega
  simp only [complemented, List.getElem_mapIdx, List.getElem_modify, hiff]

/-- No multiple of the threshold is among the bytes. -/
theorem complemented_eq_self {k : Nat} {bytes : List UInt8} (hk : 0 < k)
    (hle : k + bytes.length ≤ T2toT1_CORRUPT_BYTE) : complemented k bytes = bytes := by
  have hT : T2toT1_CORRUPT_BYTE = 395 := rfl
  refine List.ext_getElem (length_complemented k bytes) fun i hi _ => ?_
  rw [length_complemented] at hi
  have hnot : ¬ T2toT1_CORRUPT_BYTE ∣ k + i := by
    rw [hT] at hle ⊢
    omega
  simp only [complemented, List.getElem_mapIdx, if_neg hnot]

section Calls

variable {m m' : Medium} {t : FromTerm2} {n acks : Nat}

/-- The test of the threshold finds the multiple of it among the bytes, wherever the count was
set back. -/
theorem corrupt_complements {bytes bytes' : List UInt8} {k : Nat} (hk : 0 < k)
    (hle : k ≤ T2toT1_CORRUPT_BYTE) (hlen : bytes.length ≤ BLK_SZ_CRC - 1)
    (hcount : m.m_byteCount = k + bytes.length) (h : m.corrupt bytes = .ok (m', bytes')) :
    bytes' = complemented k bytes ∧ m'.writes = m.writes ∧ m'.m_ACKreceived = m.m_ACKreceived ∧
      m'.m_sendExtraAck = m.m_sendExtraAck := by
  have hT : T2toT1_CORRUPT_BYTE = 395 := rfl
  have hB : BLK_SZ_CRC - 1 = 132 := rfl
  unfold Medium.corrupt at h
  simp only [ge_iff_le] at h
  split_ifs at h with hthr hlt hge
  · simp only [Except.ok.injEq, Prod.mk.injEq] at h
    obtain ⟨rfl, rfl⟩ := h
    refine ⟨?_, rfl, rfl, rfl⟩
    have hindex : ((bytes.length : Int) - ((m.m_byteCount - T2toT1_CORRUPT_BYTE : Nat) : Int)).toNat =
        T2toT1_CORRUPT_BYTE - k := by
      omega
    rw [complemented_eq_modify hk hle (by omega), hindex]
  · simp only [Except.ok.injEq, Prod.mk.injEq] at h
    obtain ⟨rfl, rfl⟩ := h
    exact ⟨(complemented_eq_self hk (by omega)).symm, rfl, rfl, rfl⟩
  · simp only [Except.ok.injEq, Prod.mk.injEq] at h
    obtain ⟨rfl, rfl⟩ := h
    exact ⟨(complemented_eq_self hk (by omega)).symm, rfl, rfl, rfl⟩

/-! ## One call -/

/-- The members after `n` counted bytes and `acks` ACKs. -/
structure Counts (n acks : Nat) (m : Medium) : Prop where
  byteCount : Nat.ModEq T2toT1_CORRUPT_BYTE m.m_byteCount n
  ackReceived : m.m_ACKreceived = acks % 10
  noExtraAck : m.m_sendExtraAck = false

theorem counts_init : Counts 0 0 .init := ⟨Nat.ModEq.refl _, rfl, rfl⟩

/-- A call adds these bytes to what has been written. -/
structure Passes (m m' : Medium) (to1 to2 : List UInt8) : Prop where
  to1 : writtenTo1 m'.writes = writtenTo1 m.writes ++ to1
  to2 : writtenTo2 m'.writes = writtenTo2 m.writes ++ to2
  log : logged m.writes = forwarded m.writes → logged m'.writes = forwarded m'.writes

theorem Passes.trans {m₁ : Medium} {to1 to1' to2 to2' : List UInt8} (h : Passes m m₁ to1 to2)
    (h' : Passes m₁ m' to1' to2') : Passes m m' (to1 ++ to1') (to2 ++ to2') where
  to1 := by rw [h'.to1, h.to1, List.append_assoc]
  to2 := by rw [h'.to2, h.to2, List.append_assoc]
  log := fun hlog => h'.log (h.log hlog)

theorem Passes.of_writes {m₁ : Medium} {to1 to2 : List UInt8} (h : Passes m m₁ to1 to2)
    (hw : m'.writes = m₁.writes) : Passes m m' to1 to2 where
  to1 := by rw [hw, h.to1]
  to2 := by rw [hw, h.to2]
  log := by rw [hw]; exact h.log

theorem passes_toTerm1 (m : Medium) (bytes : List UInt8) : Passes m (m.toTerm1 bytes) bytes [] where
  to1 := by simp [writtenTo1]
  to2 := by simp [writtenTo2]
  log := fun hlog => by
    simp only [logged, forwarded] at hlog ⊢
    simp [hlog]

theorem passes_toTerm2 (m : Medium) (bytes : List UInt8) : Passes m (m.toTerm2 bytes) [] bytes where
  to1 := by simp [writtenTo1]
  to2 := by simp [writtenTo2]
  log := fun hlog => by
    simp only [logged, forwarded] at hlog ⊢
    simp [hlog]

/-- The medium when the test of the threshold is made. -/
def atTest (m : Medium) (t : FromTerm2) : Medium :=
  { m.toTerm1 [t.first] with m_byteCount := m.m_byteCount + 1 + t.rest.length }

/-- Without an extra ACK, a call behind an SOH is the first write and the test. -/
theorem MsgFromTerm2_eq_test (hextra : m.m_sendExtraAck = false) (hsoh : t.first = SOH)
    (hfit : m.m_byteCount + 1 + t.rest.length ≤ INT_MAX) :
    m.MsgFromTerm2 t = ((atTest m t).corrupt t.rest).map fun p => p.1.toTerm1 p.2 := by
  have hcan : ¬ t.first = CAN := by
    rw [hsoh]
    decide
  let m₁ : Medium := { m with m_byteCount := m.m_byteCount + 1 }
  have hone : m.count 1 = .ok m₁ := count_of_le (by omega)
  have hnone : (m₁.toTerm1 [t.first]).extraAck = m₁.toTerm1 [t.first] :=
    if_neg (by simp [m₁, hextra])
  have hrest : (m₁.toTerm1 [t.first]).count t.rest.length = .ok (atTest m t) := count_of_le hfit
  rw [Medium.MsgFromTerm2, hone]
  simp only [bind, Except.bind, pure, Except.pure, if_neg hcan, if_pos hsoh, hnone, hrest,
    Except.map]

/-- A call behind an SOH. Its count is below the threshold, for else the byte to complement would
be in front of the ones that it reads. -/
theorem soh_passes (hc : Counts n acks m) (hsoh : t.first = SOH) (h : m.MsgFromTerm2 t = .ok m') :
    Counts (n + counted (.fromTerm2 t)) acks m' ∧ Passes m m' (passed n t) [] := by
  have hmod := @msg_byteCount m (.fromTerm2 t) m' h
  have hfit : m.m_byteCount + 1 + t.rest.length ≤ INT_MAX := by
    rcases Nat.lt_or_ge INT_MAX (m.m_byteCount + 1 + t.rest.length) with hlt | hfit
    · rw [MsgFromTerm2_soh_overflow hsoh hlt] at h
      cases h
    · exact hfit
  have hlow : m.m_byteCount < T2toT1_CORRUPT_BYTE := by
    refine Nat.lt_of_not_le fun hthr => ?_
    obtain ⟨i, k, he⟩ := outOfRange_iff.mpr ⟨hsoh, hthr, hfit⟩
    rw [he] at h
    cases h
  rw [MsgFromTerm2_eq_test hc.noExtraAck hsoh hfit] at h
  cases ht : (atTest m t).corrupt t.rest with
  | error x =>
    rw [ht] at h
    cases h
  | ok p =>
    rw [ht] at h
    cases h
    obtain ⟨hbytes, hwrites, hack, hextra⟩ :=
      corrupt_complements (Nat.succ_pos m.m_byteCount) hlow t.rest_le rfl ht
    have hsame : complemented (m.m_byteCount + 1) t.rest = complemented (n + 1) t.rest :=
      complemented_congr (hc.byteCount.add_right 1) t.rest
    refine ⟨⟨hmod.trans (hc.byteCount.add_right _), hack.trans hc.ackReceived,
      hextra.trans hc.noExtraAck⟩, ?_⟩
    have htest : Passes m (atTest m t) [t.first] [] := (passes_toTerm1 m [t.first]).of_writes rfl
    have hfirst : Passes m p.1 [t.first] [] := htest.of_writes hwrites
    rw [passed, if_pos hsoh]
    show Passes m (p.1.toTerm1 p.2) _ _
    rw [hbytes, hsame]
    exact hfirst.trans (passes_toTerm1 p.1 _)

/-- Any call that reads from terminal 2. -/
theorem term2_passes (hc : Counts n acks m) (h : m.MsgFromTerm2 t = .ok m') :
    Counts (n + counted (.fromTerm2 t)) acks m' ∧ Passes m m' (passed n t) [] := by
  by_cases hsoh : t.first = SOH
  · exact soh_passes hc hsoh h
  · have hmod := @msg_byteCount m (.fromTerm2 t) m' h
    have hfit : m.m_byteCount + 1 ≤ INT_MAX := by
      refine Nat.le_of_not_lt fun hlt => ?_
      rw [Medium.MsgFromTerm2, count_of_lt hlt] at h
      cases h
    rw [Medium.MsgFromTerm2, count_of_le hfit] at h
    simp only [bind, Except.bind, pure, Except.pure, if_neg hsoh] at h
    have hfirst : Passes m { m.toTerm1 [t.first] with m_byteCount := m.m_byteCount + 1 } [t.first] [] :=
      (passes_toTerm1 m [t.first]).of_writes rfl
    rw [passed, if_neg hsoh]
    split_ifs at h ⊢ with hcan hlen
    · cases h
      refine ⟨⟨hmod.trans (hc.byteCount.add_right _), hc.ackReceived, hc.noExtraAck⟩, ?_⟩
      exact hfirst.trans (passes_toTerm1 _ t.rest)
    · cases h
      exact ⟨⟨hmod.trans (hc.byteCount.add_right _), hc.ackReceived, hc.noExtraAck⟩, hfirst⟩

/-- A call that reads from terminal 1. -/
theorem term1_passes (hc : Counts n acks m) (first : UInt8) (rest : List UInt8) :
    Counts n (acks + ackOf first) (m.MsgFromTerm1 first rest) ∧
      Passes m (m.MsgFromTerm1 first rest) [] (answered acks first rest) := by
  have hcount := hc.ackReceived
  have hbytes : Nat.ModEq T2toT1_CORRUPT_BYTE (m.MsgFromTerm1 first rest).m_byteCount n := by
    rw [MsgFromTerm1_byteCount]
    exact hc.byteCount
  by_cases hack : first = ACK
  · by_cases hten : (m.m_ACKreceived + 1) % 10 = 0
    · have heq : m.MsgFromTerm1 first rest =
          Medium.toTerm2 { m with m_ACKreceived := 0 } (NAK :: rest) := by
        simp [Medium.MsgFromTerm1, hack, hten]
      have hdvd : 10 ∣ acks + 1 := by omega
      have hzero : 0 = (acks + 1) % 10 := by omega
      rw [answered, if_pos ⟨hack, hdvd⟩, ackOf, if_pos hack]
      refine ⟨⟨hbytes, ?_, ?_⟩, ?_⟩
      · rw [heq]
        exact hzero
      · rw [heq]
        exact hc.noExtraAck
      · rw [heq]
        exact (passes_toTerm2 m (NAK :: rest)).of_writes rfl
    · have heq : m.MsgFromTerm1 first rest =
          Medium.toTerm2 { m with m_ACKreceived := m.m_ACKreceived + 1 } (first :: rest) := by
        simp [Medium.MsgFromTerm1, hack, hten]
      have hdvd : ¬ 10 ∣ acks + 1 := by omega
      have hnext : m.m_ACKreceived + 1 = (acks + 1) % 10 := by omega
      rw [answered, if_neg (fun hx => hdvd hx.2), ackOf, if_pos hack]
      refine ⟨⟨hbytes, ?_, ?_⟩, ?_⟩
      · rw [heq]
        exact hnext
      · rw [heq]
        exact hc.noExtraAck
      · rw [heq]
        exact (passes_toTerm2 m (first :: rest)).of_writes rfl
  · have heq : m.MsgFromTerm1 first rest = m.toTerm2 (first :: rest) := if_neg hack
    rw [answered, if_neg (fun hx => hack hx.1), ackOf, if_neg hack]
    refine ⟨⟨hbytes, ?_, ?_⟩, ?_⟩
    · rw [heq]
      exact hcount
    · rw [heq]
      exact hc.noExtraAck
    · rw [heq]
      exact passes_toTerm2 m (first :: rest)

/-! ## Whole runs -/

/-- From any point of the traffic on. -/
theorem run_passes {msgs : List MediumMsg} (hc : Counts n acks m) (h : m.run msgs = .ok m') :
    Counts (n + (msgs.map counted).sum) (acks + (msgs.map acked).sum) m' ∧
      Passes m m' (toTerm1 n msgs) (toTerm2 acks msgs) := by
  induction msgs generalizing m n acks with
  | nil =>
    cases h
    exact ⟨hc, (List.append_nil _).symm, (List.append_nil _).symm, fun hlog => hlog⟩
  | cons msg msgs ih =>
    rw [Medium.run, List.foldlM_cons] at h
    rw [List.map_cons, List.sum_cons, List.map_cons, List.sum_cons, ← Nat.add_assoc, ← Nat.add_assoc]
    cases hm : m.msg msg with
    | error x =>
      rw [hm] at h
      cases h
    | ok m₁ =>
      rw [hm] at h
      cases msg with
      | fromTerm2 t =>
        obtain ⟨hc₁, hp⟩ := term2_passes hc hm
        obtain ⟨hc', hp'⟩ := ih hc₁ h
        exact ⟨hc', hp.trans hp'⟩
      | fromTerm1 first rest =>
        cases hm
        obtain ⟨hc₁, hp⟩ := term1_passes hc first rest
        obtain ⟨hc', hp'⟩ := ih hc₁ h
        exact ⟨hc', hp.trans hp'⟩

/-- **What comes through the medium.** In any traffic in which no call fails, however the reads of
both threads split it and follow each other, the receiver gets the bytes of the sender, of which
those behind an SOH of the same call are complemented whose number is a multiple of the threshold;
the sender gets the bytes of the receiver, but every tenth read that begins with an ACK begins with
a NAK instead; and the log file has all of them in order. -/
theorem medium_passes {msgs : List MediumMsg} (h : Medium.init.run msgs = .ok m) :
    writtenTo1 m.writes = toTerm1 0 msgs ∧ writtenTo2 m.writes = toTerm2 0 msgs ∧
      logged m.writes = forwarded m.writes := by
  obtain ⟨-, hp⟩ := run_passes counts_init h
  exact ⟨hp.to1, hp.to2, hp.log rfl⟩

/-- Three blocks "b", the second of which is answered by the tenth of ten ACKs. -/
def threeBlks : List MediumMsg :=
  blkReads (restOf 1 chunkOfB) ++ List.replicate 9 (.fromTerm1 ACK []) ++
    blkReads (restOf 2 chunkOfB) ++ [.fromTerm1 ACK [NCG]] ++ blkReads (restOf 3 chunkOfB)

set_option maxRecDepth 8000 in
theorem medium_passes_three : ∃ m, Medium.init.run threeBlks = .ok m ∧
    writtenTo1 m.writes = toTerm1 0 threeBlks ∧ writtenTo2 m.writes = toTerm2 0 threeBlks ∧
      logged m.writes = forwarded m.writes := by
  have hok : (Medium.init.run threeBlks).toOption.isSome = true := by decide +kernel
  cases hrun : Medium.init.run threeBlks with
  | error x =>
    rw [hrun] at hok
    cases hok
  | ok m => exact ⟨m, rfl, medium_passes hrun⟩

end Calls

/-! ## A block -/

theorem complement_ne (b : UInt8) : 255 - b ≠ b := by
  intro h
  have hnat := congrArg UInt8.toNat h
  have hlt := b.toNat_lt
  rw [UInt8.toNat_sub, show (255 : UInt8).toNat = 255 from rfl] at hnat
  omega

theorem getD_modify_of_ne {bytes : List UInt8} {i j : Nat} (hne : j ≠ i) (f : UInt8 → UInt8) :
    (bytes.modify i f).getD j 0 = bytes.getD j 0 := by
  have hkeep : (bytes.modify i f)[j]? = bytes[j]? := by simp [Ne.symm hne]
  rw [List.getD_eq_getElem?_getD, List.getD_eq_getElem?_getD, hkeep]

theorem modify_append_left {bytes more : List UInt8} {i : Nat} (hi : i < bytes.length)
    (f : UInt8 → UInt8) : (bytes ++ more).modify i f = bytes.modify i f ++ more := by
  refine List.ext_getElem? fun j => ?_
  rw [List.getElem?_modify]
  rcases Nat.lt_or_ge j bytes.length with hj | hj
  · rw [List.getElem?_append_left hj, List.getElem?_append_left (by simpa using hj),
      List.getElem?_modify]
  · have hne : ¬ i = j := by omega
    rw [List.getElem?_append_right hj, List.getElem?_append_right (by simpa using hj)]
    simp [hne]

/-- A complemented byte is a damage. -/
theorem damaged_modify {rest : List UInt8} {i : Nat} (hi : i < rest.length) :
    Damaged rest (rest.modify i (255 - ·)) where
  length_eq := List.length_modify _ _ _
  ne := by
    intro heq
    have hbyte := congrArg (·[i]?) heq
    simp only [List.getElem?_modify_eq, List.getElem?_eq_getElem hi] at hbyte
    exact complement_ne _ (Option.some.inj hbyte)
  kind := .inl ⟨i, fun j hne => getD_modify_of_ne hne _⟩

/-- One of as many bytes as a block has behind its SOH has a number that is a multiple of the
threshold. -/
def Near (n : Nat) : Prop := ∃ i < BLK_SZ_CRC - 1, T2toT1_CORRUPT_BYTE ∣ n + 1 + i

/-- The threshold is longer than two blocks. -/
theorem Near.not_next {n : Nat} (h : Near n) : ¬ Near (n + BLK_SZ_CRC) := by
  have hT : T2toT1_CORRUPT_BYTE = 395 := rfl
  have hB : BLK_SZ_CRC = 133 := rfl
  obtain ⟨i, hi, hdvd⟩ := h
  intro ⟨j, hj, hdvd'⟩
  rw [hT] at hdvd hdvd'
  rw [hB] at hi hj hdvd'
  omega

/-- At most one of as many bytes is complemented. -/
theorem complemented_cases (n : Nat) {bytes : List UInt8} (hlen : bytes.length ≤ BLK_SZ_CRC - 1) :
    complemented (n + 1) bytes = bytes ∨ Near n ∧
      ∃ i < bytes.length, complemented (n + 1) bytes = bytes.modify i (255 - ·) := by
  have hT : T2toT1_CORRUPT_BYTE = 395 := rfl
  have hB : BLK_SZ_CRC - 1 = 132 := rfl
  by_cases hhit : ∃ i < bytes.length, T2toT1_CORRUPT_BYTE ∣ n + 1 + i
  · obtain ⟨i, hi, hdvd⟩ := hhit
    refine .inr ⟨⟨i, Nat.lt_of_lt_of_le hi hlen, hdvd⟩, i, hi, ?_⟩
    refine List.ext_getElem (by simp [complemented]) fun j hj _ => ?_
    rw [length_complemented] at hj
    have hiff : T2toT1_CORRUPT_BYTE ∣ n + 1 + j ↔ i = j := by
      rw [hT] at hdvd ⊢
      omega
    simp only [complemented, List.getElem_mapIdx, List.getElem_modify, hiff]
  · refine .inl (List.ext_getElem (length_complemented _ _) fun j hj _ => ?_)
    rw [length_complemented] at hj
    have hnot : ¬ T2toT1_CORRUPT_BYTE ∣ n + 1 + j := fun hdvd => hhit ⟨j, hj, hdvd⟩
    simp only [complemented, List.getElem_mapIdx, if_neg hnot]

/-- The calls that take a block: the second read finds all the rest, or the last byte comes by
itself. -/
def blkCalls (whole : Bool) (rest : List UInt8) : List MediumMsg :=
  if whole then [.fromTerm2 ⟨SOH, rest.take (BLK_SZ_CRC - 1), List.length_take_le _ _⟩]
  else blkReads rest

/-- A last byte that comes by itself is taken like any other when it is no SOH and no CAN. -/
def LastAlone (whole : Bool) (rest : List UInt8) : Prop :=
  whole = false → rest.getLastD 0 ≠ SOH ∧ rest.getLastD 0 ≠ CAN

section Blk

variable {rest : List UInt8} {whole : Bool}

/-- A block is counted whole. -/
theorem counted_blkCalls (whole : Bool) (hlen : rest.length = REST_BLK_SZ_CRC) :
    ((blkCalls whole rest).map counted).sum = BLK_SZ_CRC := by
  have hsz : REST_BLK_SZ_CRC = 132 := rfl
  have hB : BLK_SZ_CRC = 133 := rfl
  cases whole with
  | true => simp [blkCalls, counted, hlen, hsz, hB]
  | false => simp [blkCalls, blkReads, counted, hlen, hsz, hB]

/-- **A block comes through whole, or damaged so that the receiver finds it out**, and it can only
be damaged when a multiple of the threshold is near. -/
theorem blk_passed (hi : Intact rest) (n : Nat) (hlast : LastAlone whole rest) :
    ∃ got, toTerm1 n (blkCalls whole rest) = SOH :: got ∧ got.length = REST_BLK_SZ_CRC ∧
      (got = rest ∨ ¬ Intact got ∧ Near n) := by
  have hlen := hi.length_eq
  have hsz : REST_BLK_SZ_CRC = 132 := rfl
  have hB : BLK_SZ_CRC = 133 := rfl
  cases whole with
  | true =>
    have htake : rest.take (BLK_SZ_CRC - 1) = rest := List.take_of_length_le (by omega)
    have hpassed : toTerm1 n (blkCalls true rest) = SOH :: complemented (n + 1) rest := by
      simp only [blkCalls, if_true, toTerm1, passed, htake, List.append_nil]
    refine ⟨_, hpassed, (length_complemented _ _).trans hlen, ?_⟩
    rcases complemented_cases n (show rest.length ≤ BLK_SZ_CRC - 1 by omega) with
      hsame | ⟨hnear, i, hin, hmod⟩
    · exact .inl hsame
    · rw [hmod]
      exact .inr ⟨(damaged_modify hin).not_intact hi, hnear⟩
  | false =>
    have hne : rest ≠ [] := by
      intro hnil
      rw [hnil] at hlen
      cases hlen
    have htake : rest.take (BLK_SZ_CRC - 2) = rest.dropLast := by
      rw [List.dropLast_eq_take, hlen]
      rfl
    have hend : rest.dropLast ++ [rest.getLastD 0] = rest := by
      rw [List.getLastD_eq_getLast?, List.getLast?_eq_some_getLast hne]
      exact List.dropLast_append_getLast hne
    have hlast' : rest.getLastD 0 ≠ SOH ∧ rest.getLastD 0 ≠ CAN := hlast rfl
    have hpassed : toTerm1 n (blkCalls false rest) =
        SOH :: (complemented (n + 1) rest.dropLast ++ [rest.getLastD 0]) := by
      simp only [blkCalls, Bool.false_eq_true, if_false, blkReads, toTerm1, passed, if_pos, htake,
        if_neg hlast'.1, if_neg hlast'.2, List.append_nil, List.cons_append]
    have hdrop : rest.dropLast.length = 131 := by rw [List.length_dropLast, hlen, hsz]
    refine ⟨_, hpassed, ?_, ?_⟩
    · rw [List.length_append, length_complemented, hdrop]
      rfl
    · rcases complemented_cases n (show rest.dropLast.length ≤ BLK_SZ_CRC - 1 by omega) with
        hsame | ⟨hnear, i, hin, hmod⟩
      · exact .inl (by rw [hsame, hend])
      · have hmodify : rest.dropLast.modify i (255 - ·) ++ [rest.getLastD 0] =
            rest.modify i (255 - ·) := by
          rw [← modify_append_left hin, hend]
        rw [hmod, hmodify]
        exact .inr ⟨(damaged_modify (by omega)).not_intact hi, hnear⟩

end Blk

end YModem.Part2
