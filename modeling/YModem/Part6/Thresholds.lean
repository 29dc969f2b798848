import YModem.Lib.Log
import YModem.Part6.Medium

/-!
# The thresholds of the medium of Part 6

After `t` bytes from terminal 2 the thresholds are the next positions of the form `264 + 790k`
and `659 + 790k`, so that the byte to corrupt or to drop is one of those that were read. This
lasts until the position of the next drop does not fit into an `unsigned` any more.
-/

namespace YModem.Part6

open YModem.Lib YModem.Peer YModem.SmartState YModem.MyIO

/-- How many positions of bytes to corrupt there are up to `t`. -/
def corruptionsUpTo (t : Nat) : Nat := (t + 526) / 790

/-- How many positions of bytes to drop there are up to `t`. -/
def dropsUpTo (t : Nat) : Nat := (t + 131) / 790

/-- The last position `659 + 790k` that an `unsigned` can hold. -/
abbrev lastDrop : Nat := 4294966799

/-- The counters after `t` bytes. -/
structure At (t : Nat) (m : Medium) : Prop where
  count : m.fromT2ByteCount = t
  corrupt : m.corruptThreshold = 264 + 790 * corruptionsUpTo t
  drop : m.dropThreshold = (659 + 790 * dropsUpTo t) % UINT_RANGE
  glitch : m.fromT2Glitch = decide (corruptionsUpTo t % 2 = 1)

/-- What the code relies on before each call. -/
def BelowThresholds (m : Medium) : Prop :=
  m.fromT2ByteCount < m.corruptThreshold ∧ m.fromT2ByteCount < m.dropThreshold

/-- The byte to corrupt and the byte to drop are among those that were read. -/
def InRange (m : Medium) (r : FromTerm2) : Prop :=
  ∀ i, (m.countBytes r).byteToCorrupt r = some i ∨ (m.countBytes r).byteToDrop r = some i →
    0 ≤ i ∧ i ≤ (r.bytes.length : Int) - 1

section

variable {t : Nat} {m m' : Medium} {r : FromTerm2}

/-! ## Positions -/

/-- A read holds at most one of the positions. -/
inductive Falls (t n : Nat) : Prop where
  | clear (hc : corruptionsUpTo (t + n) = corruptionsUpTo t) (hd : dropsUpTo (t + n) = dropsUpTo t)
  | corrupt (i : Nat) (hi : i < n) (hpos : t + i + 1 = 264 + 790 * corruptionsUpTo t)
      (hc : corruptionsUpTo (t + n) = corruptionsUpTo t + 1) (hd : dropsUpTo (t + n) = dropsUpTo t)
  | drop (i : Nat) (hi : i < n) (hpos : t + i + 1 = 659 + 790 * dropsUpTo t)
      (hc : corruptionsUpTo (t + n) = corruptionsUpTo t) (hd : dropsUpTo (t + n) = dropsUpTo t + 1)

theorem falls (t : Nat) {n : Nat} (hn : n ≤ 70) : Falls t n := by
  by_cases hc : corruptionsUpTo (t + n) = corruptionsUpTo t
  · by_cases hd : dropsUpTo (t + n) = dropsUpTo t
    · exact .clear hc hd
    · simp only [dropsUpTo] at hd
      refine .drop (659 + 790 * dropsUpTo t - t - 1) ?_ ?_ hc ?_
      all_goals
        simp only [dropsUpTo]
        omega
  · simp only [corruptionsUpTo] at hc
    refine .corrupt (264 + 790 * corruptionsUpTo t - t - 1) ?_ ?_ ?_ ?_
    all_goals
      simp only [corruptionsUpTo, dropsUpTo]
      omega

theorem lt_corrupt (t : Nat) : t < 264 + 790 * corruptionsUpTo t := by
  simp only [corruptionsUpTo]
  omega

theorem lt_drop (t : Nat) : t < 659 + 790 * dropsUpTo t := by
  simp only [dropsUpTo]
  omega

/-! ## One call -/

/-- `bytesReceived` behind the read. -/
def received (r : FromTerm2) : List UInt8 := overwrite (List.replicate mediumBufSz CAN) 0 r.bytes

/-- The number of glitch bytes behind the read that holds the position of the `k`-th byte to
corrupt, counted from 0. -/
def glitchBytes (k : Nat) : Nat := if k % 2 = 1 then T2toT1_GLITCH_BYTES else 0

/-- What a call passes on of a read at position `t`: the buffer, and how much of it. -/
inductive Passes (t : Nat) (r : FromTerm2) : List UInt8 → Int → Prop where
  | clear (hc : corruptionsUpTo (t + r.bytes.length) = corruptionsUpTo t)
      (hd : dropsUpTo (t + r.bytes.length) = dropsUpTo t) :
      Passes t r (received r) r.bytes.length
  | corrupt (i : Nat) (hi : i < r.bytes.length) (hpos : t + i + 1 = 264 + 790 * corruptionsUpTo t)
      (hc : corruptionsUpTo (t + r.bytes.length) = corruptionsUpTo t + 1)
      (hd : dropsUpTo (t + r.bytes.length) = dropsUpTo t) :
      Passes t r ((received r).modify i (~~~ ·))
        (r.bytes.length + glitchBytes (corruptionsUpTo t))
  | drop (i : Nat) (hi : i < r.bytes.length) (hpos : t + i + 1 = 659 + 790 * dropsUpTo t)
      (hc : corruptionsUpTo (t + r.bytes.length) = corruptionsUpTo t)
      (hd : dropsUpTo (t + r.bytes.length) = dropsUpTo t + 1) :
      Passes t r (overwrite (received r) i
        (((received r).drop (i + 1)).take (mediumBufSz - 1 - i))) (r.bytes.length - 1)

theorem corruptByte_of_lt {buf : List UInt8} (h : m.fromT2ByteCount < m.corruptThreshold) :
    m.corruptByte r buf = .ok (m, buf, 0) := by
  simp only [Medium.corruptByte, Medium.byteToCorrupt, if_neg (Nat.not_le_of_lt h)]

theorem dropByte_of_lt {buf : List UInt8} (h : m.fromT2ByteCount < m.dropThreshold) :
    m.dropByte r buf = .ok (m, buf, 0) := by
  simp only [Medium.dropByte, Medium.byteToDrop, if_neg (Nat.not_le_of_lt h)]

theorem corruptByte_of_some {buf : List UInt8} {i : Nat} (h : m.byteToCorrupt r = some (i : Int))
    (hi : i < mediumBufSz) : m.corruptByte r buf = .ok ({ m with
      corruptThreshold := uadd m.corruptThreshold T2toT1_CORRUPT_BYTE
      fromT2Glitch := !m.fromT2Glitch }, buf.modify i (~~~ ·),
      if m.fromT2Glitch then T2toT1_GLITCH_BYTES else 0) := by
  have hin : (0 : Int) ≤ i ∧ (i : Int) < mediumBufSz := by omega
  simp only [Medium.corruptByte, h, if_pos hin, Int.toNat_natCast]

theorem dropByte_of_some {buf : List UInt8} {i : Nat} (h : m.byteToDrop r = some (i : Int))
    (hi : i < mediumBufSz) : m.dropByte r buf = .ok ({ m with
      dropThreshold := uadd m.dropThreshold T2toT1_DROP_BYTE },
      overwrite buf i ((buf.drop (i + 1)).take (mediumBufSz - 1 - i)), 1) := by
  have hin : (0 : Int) ≤ i ∧ (i : Int) < mediumBufSz := by omega
  simp only [Medium.dropByte, h, if_pos hin, Int.toNat_natCast]

/-- The index of the position `threshold` among the bytes behind position `t`. -/
theorem byteAt_eq {n threshold : Nat} (hlt : t < threshold) (hle : threshold ≤ t + n)
    (hn : n ≤ 70) (hfit : t + n < UINT_RANGE) :
    byteAt n (t + n) threshold = (threshold - t - 1 : Nat) := by
  simp only [byteAt, usub, toInt, UINT_RANGE] at *
  split_ifs <;> omega

/-- The position behind a read still fits the count. -/
theorem fits_of_lt (r : FromTerm2) (ht : t < lastDrop + 70) : t + r.bytes.length < UINT_RANGE := by
  have := r.le
  simp only [lastDrop, UINT_RANGE] at *
  omega

/-- The count behind the read. -/
theorem countBytes_count (h : At t m) (ht : t < lastDrop + 70) :
    (m.countBytes r).fromT2ByteCount = t + r.bytes.length := by
  have hfit := fits_of_lt r ht
  simp only [Medium.countBytes_fromT2ByteCount, h.count, uadd, UINT_RANGE] at *
  omega

theorem dropThreshold_eq (h : At t m) (ht : t < lastDrop) :
    m.dropThreshold = 659 + 790 * dropsUpTo t := by
  rw [h.drop]
  simp only [dropsUpTo, UINT_RANGE, lastDrop] at *
  omega

/-- The byte to corrupt, by its position. -/
theorem byteToCorrupt_at (h : At t m) (ht : t < lastDrop + 70) :
    (m.countBytes r).byteToCorrupt r =
      if 264 + 790 * corruptionsUpTo t ≤ t + r.bytes.length then
        some ((264 + 790 * corruptionsUpTo t - t - 1 : Nat) : Int)
      else none := by
  simp only [Medium.byteToCorrupt, countBytes_count h ht, Medium.countBytes_corruptThreshold,
    h.corrupt, ge_iff_le]
  split_ifs with hle
  · rw [byteAt_eq (lt_corrupt t) hle r.le (fits_of_lt r ht)]
  · rfl

/-- The byte to drop, by its position. -/
theorem byteToDrop_at (h : At t m) (ht : t < lastDrop) :
    (m.countBytes r).byteToDrop r =
      if 659 + 790 * dropsUpTo t ≤ t + r.bytes.length then
        some ((659 + 790 * dropsUpTo t - t - 1 : Nat) : Int)
      else none := by
  simp only [Medium.byteToDrop, countBytes_count h (by omega), Medium.countBytes_dropThreshold,
    dropThreshold_eq h ht, ge_iff_le]
  split_ifs with hle
  · rw [byteAt_eq (lt_drop t) hle r.le (fits_of_lt r (Nat.lt_add_right 70 ht))]
  · rfl

/-- The three pieces of a call. -/
theorem MsgFromTerm2_eq {m₁ m₂ : Medium} {buf₁ buf₂ : List UInt8} {glitch drop : Nat}
    (hc : (m.countBytes r).corruptByte r (received r) = .ok (m₁, buf₁, glitch))
    (hd : m₁.dropByte r buf₁ = .ok (m₂, buf₂, drop)) :
    m.MsgFromTerm2 r = .ok (m₂.passOn buf₂ (r.bytes.length - drop + glitch)) := by
  rw [received] at hc
  simp only [Medium.MsgFromTerm2, hc, ok_bind, hd]
  rfl

/-- **One call**, until the threshold of the drops wraps. -/
theorem MsgFromTerm2_at (h : At t m) (ht : t < lastDrop) (r : FromTerm2) :
    ∃ m₁ buf len, m.MsgFromTerm2 r = .ok (m₁.passOn buf len) ∧
      At (t + r.bytes.length) m₁ ∧ m₁.writes = m.writes ∧ Passes t r buf len := by
  have hcount := @countBytes_count t m r h (by omega)
  have hle := r.le
  have hcor := @byteToCorrupt_at t m r h (by omega)
  have hdrop := @byteToDrop_at t m r h ht
  have hcor' := lt_corrupt (t + r.bytes.length)
  have hdrop' := lt_drop (t + r.bytes.length)
  cases falls t r.le with
  | clear hc hd =>
    have hltc : (m.countBytes r).fromT2ByteCount < (m.countBytes r).corruptThreshold := by
      rw [hcount, Medium.countBytes_corruptThreshold, h.corrupt, ← hc]
      exact hcor'
    have hltd : (m.countBytes r).fromT2ByteCount < (m.countBytes r).dropThreshold := by
      rw [hcount, Medium.countBytes_dropThreshold, dropThreshold_eq h ht, ← hd]
      exact hdrop'
    refine ⟨m.countBytes r, received r, r.bytes.length, ?_, ⟨hcount, ?_, ?_, ?_⟩, rfl,
      .clear hc hd⟩
    · rw [MsgFromTerm2_eq (corruptByte_of_lt hltc) (dropByte_of_lt hltd)]
      simp
    · rw [Medium.countBytes_corruptThreshold, h.corrupt, hc]
    · rw [Medium.countBytes_dropThreshold, h.drop, hd]
    · rw [Medium.countBytes_fromT2Glitch, h.glitch, hc]
  | corrupt i hi hpos hc hd =>
    have hidx : 264 + 790 * corruptionsUpTo t - t - 1 = i := by omega
    rw [if_pos (by omega), hidx] at hcor
    have hbuf : i < mediumBufSz := hi.trans (Nat.lt_of_le_of_lt hle (by decide))
    have hrun := @corruptByte_of_some _ r (received r) i hcor hbuf
    let m₁ : Medium := { m.countBytes r with
      corruptThreshold := uadd (m.countBytes r).corruptThreshold T2toT1_CORRUPT_BYTE
      fromT2Glitch := !(m.countBytes r).fromT2Glitch }
    have hltd : m₁.fromT2ByteCount < m₁.dropThreshold := by
      change (m.countBytes r).fromT2ByteCount < (m.countBytes r).dropThreshold
      rw [hcount, Medium.countBytes_dropThreshold, dropThreshold_eq h ht, ← hd]
      exact hdrop'
    refine ⟨m₁, _, _, MsgFromTerm2_eq hrun (dropByte_of_lt hltd), ⟨hcount, ?_, ?_, ?_⟩, rfl, ?_⟩
    · change uadd (m.countBytes r).corruptThreshold T2toT1_CORRUPT_BYTE = _
      rw [Medium.countBytes_corruptThreshold, h.corrupt, hc]
      simp only [uadd, UINT_RANGE, lastDrop, T2toT1_CORRUPT_BYTE] at *
      omega
    · change (m.countBytes r).dropThreshold = _
      rw [Medium.countBytes_dropThreshold, h.drop, hd]
    · change (!(m.countBytes r).fromT2Glitch) = _
      rw [Medium.countBytes_fromT2Glitch, h.glitch, hc]
      rcases Nat.mod_two_eq_zero_or_one (corruptionsUpTo t) with h2 | h2 <;>
        simp [Nat.add_mod, h2]
    · have hglitch : (if (m.countBytes r).fromT2Glitch then T2toT1_GLITCH_BYTES else 0) =
          glitchBytes (corruptionsUpTo t) := by
        simp only [Medium.countBytes_fromT2Glitch, h.glitch, decide_eq_true_eq, glitchBytes]
      rw [hglitch]
      simpa using Passes.corrupt i hi hpos hc hd
  | drop i hi hpos hc hd =>
    have hidx : 659 + 790 * dropsUpTo t - t - 1 = i := by omega
    rw [if_pos (by omega), hidx] at hdrop
    have hbuf : i < mediumBufSz := hi.trans (Nat.lt_of_le_of_lt hle (by decide))
    have hltc : (m.countBytes r).fromT2ByteCount < (m.countBytes r).corruptThreshold := by
      rw [hcount, Medium.countBytes_corruptThreshold, h.corrupt, ← hc]
      exact hcor'
    have hrun := @dropByte_of_some _ r (received r) i hdrop hbuf
    refine ⟨_, _, _, MsgFromTerm2_eq (corruptByte_of_lt hltc) hrun, ⟨hcount, ?_, ?_, ?_⟩, rfl, ?_⟩
    · change (m.countBytes r).corruptThreshold = _
      rw [Medium.countBytes_corruptThreshold, h.corrupt, hc]
    · change uadd (m.countBytes r).dropThreshold T2toT1_DROP_BYTE = _
      rw [Medium.countBytes_dropThreshold, h.drop, hd]
      simp only [uadd, UINT_RANGE, T2toT1_DROP_BYTE]
      omega
    · change (m.countBytes r).fromT2Glitch = _
      rw [Medium.countBytes_fromT2Glitch, h.glitch, hc]
    · simpa using Passes.drop i hi hpos hc hd

/-- Before a call both thresholds lie ahead. -/
theorem At.below (h : At t m) (ht : t < lastDrop) : BelowThresholds m := by
  refine ⟨?_, ?_⟩
  · rw [h.count, h.corrupt]
    exact lt_corrupt t
  · rw [h.count, dropThreshold_eq h ht]
    exact lt_drop t

theorem At.inRange (h : At t m) (ht : t < lastDrop) : InRange m r := by
  have hc := lt_corrupt t
  have hd := lt_drop t
  rintro i (hi | hi)
  · rw [byteToCorrupt_at h (by omega)] at hi
    split_ifs at hi with hle
    cases hi
    omega
  · rw [byteToDrop_at h ht] at hi
    split_ifs at hi with hle
    cases hi
    omega

/-- Behind the last position of a drop, the threshold has wrapped. -/
theorem At.dropThreshold_wrapped (h : At t m) (hge : lastDrop ≤ t) (hlt : t < lastDrop + 70) :
    m.dropThreshold = 293 := by
  rw [h.drop]
  simp only [dropsUpTo, UINT_RANGE, lastDrop] at *
  omega

theorem At.not_below (h : At t m) (hge : lastDrop ≤ t) (hlt : t < lastDrop + 70) :
    ¬ BelowThresholds m := by
  rintro ⟨-, hdrop⟩
  rw [h.count, h.dropThreshold_wrapped hge hlt] at hdrop
  simp only [lastDrop] at hge
  omega

/-- To corrupt a byte changes nothing that the drop looks at. -/
theorem corruptByte_keeps {buf buf' : List UInt8} {glitch : Nat}
    (h : m.corruptByte r buf = .ok (m', buf', glitch)) :
    m'.fromT2ByteCount = m.fromT2ByteCount ∧ m'.dropThreshold = m.dropThreshold := by
  unfold Medium.corruptByte at h
  split at h
  · cases h
    exact ⟨rfl, rfl⟩
  · split at h
    · cases h
      exact ⟨rfl, rfl⟩
    · cases h

/-- Behind the last position of a drop, the byte to drop lies behind the buffer. -/
theorem MsgFromTerm2_wrapped (h : At t m) (hge : lastDrop ≤ t) (hlt : t < lastDrop + 70) :
    m.MsgFromTerm2 r ≠ .ok m' := by
  have hcount := countBytes_count (r := r) h hlt
  have hpos := r.pos
  have hle := r.le
  have hfault {m₁ : Medium} {buf : List UInt8} (hc : m₁.fromT2ByteCount = t + r.bytes.length)
      (hd : m₁.dropThreshold = 293) : m₁.dropByte r buf = .error .undefinedBehaviour := by
    have hbyte : m₁.byteToDrop r = some (byteAt r.bytes.length (t + r.bytes.length) 293) := by
      rw [Medium.byteToDrop, hc, hd, if_pos]
      simp only [lastDrop] at hge
      omega
    have hout : ¬ (0 ≤ byteAt r.bytes.length (t + r.bytes.length) 293 ∧
        byteAt r.bytes.length (t + r.bytes.length) 293 < mediumBufSz) := by
      simp only [byteAt, usub, toInt, UINT_RANGE, mediumBufSz, lastDrop] at *
      split_ifs <;> omega
    simp only [Medium.dropByte, hbyte, if_neg hout]
  cases hc : (m.countBytes r).corruptByte r (received r) with
  | error e =>
    rw [received] at hc
    simp only [Medium.MsgFromTerm2, hc, error_bind]
    intro heq
    cases heq
  | ok p =>
    obtain ⟨m₁, buf, glitch⟩ := p
    obtain ⟨hcount₁, hdrop₁⟩ := corruptByte_keeps hc
    rw [received] at hc
    simp only [Medium.MsgFromTerm2, hc, ok_bind]
    rw [hfault (hcount₁.trans hcount) (hdrop₁.trans (h.dropThreshold_wrapped hge hlt)), error_bind]
    intro heq
    cases heq

/-! ## Runs -/

/-- The counters of terminal 2 are all that `At` looks at. -/
theorem At.congr (h : At t m) (hcount : m'.fromT2ByteCount = m.fromT2ByteCount)
    (hcorrupt : m'.corruptThreshold = m.corruptThreshold)
    (hdrop : m'.dropThreshold = m.dropThreshold) (hglitch : m'.fromT2Glitch = m.fromT2Glitch) :
    At t m' :=
  ⟨hcount.trans h.count, hcorrupt.trans h.corrupt, hdrop.trans h.drop, hglitch.trans h.glitch⟩

theorem At.passOn (h : At t m) (buf : List UInt8) (len : Int) : At t (m.passOn buf len) := by
  refine h.congr ?_ ?_ ?_ ?_
  all_goals
    unfold Medium.passOn Medium.writeRest Medium.extraAck
    split_ifs <;> rfl

theorem At.fromTerm1 (h : At t m) (byteReceived : UInt8) :
    At t (m.MsgFromTerm1 byteReceived) := by
  refine h.congr ?_ ?_ ?_ ?_
  all_goals
    simp only [Medium.MsgFromTerm1, Medium.sendGlitch]
    split_ifs <;> rfl

theorem at_init : At 0 Medium.init := ⟨rfl, rfl, rfl, rfl⟩

theorem input_concat (msgs : List MediumMsg) (x : MediumMsg) :
    input (msgs ++ [x]) = input msgs ++ input [x] := List.flatMap_append

theorem run_concat {msgs : List MediumMsg} (x : MediumMsg) (h : m.run msgs = .ok m') :
    m.run (msgs ++ [x]) = m'.msg x := by
  rw [Medium.run] at h ⊢
  rw [List.foldlM_append, h, ok_bind, List.foldlM_cons]
  exact bind_pure _

/-- No call of `MsgFromTerm2` begins behind the last position of a drop. -/
def StartsInRange (msgs : List MediumMsg) : Prop :=
  AtEach (fun before x => ∀ r, x = .fromTerm2 r → (input before).length < lastDrop) msgs

/-- What every call keeps holds after a run, in which the counters are as they should be. -/
theorem run_invariant {I : List MediumMsg → Medium → Prop} {msgs : List MediumMsg}
    (hinit : I [] Medium.init)
    (hfrom1 : ∀ msgs m byteReceived, I msgs m →
      I (msgs ++ [.fromTerm1 byteReceived]) (m.MsgFromTerm1 byteReceived))
    (hfrom2 : ∀ msgs m r (m₁ : Medium) buf len, I msgs m → m₁.writes = m.writes →
      Passes (input msgs).length r buf len → I (msgs ++ [.fromTerm2 r]) (m₁.passOn buf len))
    (h : StartsInRange msgs) :
    ∃ m, Medium.init.run msgs = .ok m ∧ At (input msgs).length m ∧ I msgs m := by
  induction msgs using List.reverseRecOn with
  | nil => exact ⟨Medium.init, rfl, at_init, hinit⟩
  | append_singleton msgs x ih =>
    obtain ⟨m, hm, hat, hI⟩ := ih (AtEach.init h)
    rw [run_concat x hm, input_concat, List.length_append]
    cases x with
    | fromTerm1 byteReceived =>
      exact ⟨_, rfl, hat.fromTerm1 byteReceived, hfrom1 msgs m byteReceived hI⟩
    | fromTerm2 r =>
      obtain ⟨m₁, buf, len, hr, hat', hw, hpass⟩ := MsgFromTerm2_at hat (h msgs _ [] rfl r rfl) r
      exact ⟨_, hr, by simpa [input] using hat'.passOn buf len,
        hfrom2 msgs m r m₁ buf len hI hw hpass⟩

/-- **The counters after a run.** -/
theorem run_at {msgs : List MediumMsg} (h : StartsInRange msgs) :
    ∃ m, Medium.init.run msgs = .ok m ∧ At (input msgs).length m := by
  obtain ⟨m, hm, hat, -⟩ := @run_invariant (fun _ _ => True) msgs trivial
    (fun _ _ _ _ => trivial) (fun _ _ _ _ _ _ _ _ _ => trivial) h
  exact ⟨m, hm, hat⟩

/-- A run does not get far behind the last position of a drop. -/
theorem StartsInRange.length_lt {msgs : List MediumMsg} (h : StartsInRange msgs) :
    (input msgs).length < lastDrop + 70 := by
  induction msgs using List.reverseRecOn with
  | nil => decide
  | append_singleton msgs x ih =>
    have hinit := ih (AtEach.init h)
    rw [input_concat, List.length_append]
    cases x with
    | fromTerm1 byteReceived => simpa [input] using hinit
    | fromTerm2 r =>
      have hlt := h msgs _ [] rfl r rfl
      have hle := r.le
      simp only [input, List.flatMap_cons, List.flatMap_nil, List.append_nil] at hlt ⊢
      omega

/-- A run that gets to its end. -/
theorem startsInRange_of_run {msgs : List MediumMsg} (h : Medium.init.run msgs = .ok m) :
    StartsInRange msgs := by
  induction msgs using List.reverseRecOn generalizing m with
  | nil => exact atEach_nil
  | append_singleton msgs x ih =>
    cases hm : Medium.init.run msgs with
    | error e =>
      rw [Medium.run] at h hm
      rw [List.foldlM_append, hm] at h
      cases h
    | ok m₀ =>
      have hinit := ih hm
      refine atEach_concat hinit ?_
      rintro r rfl
      obtain ⟨m₁, hm₁, hat⟩ := run_at hinit
      rw [hm] at hm₁
      cases hm₁
      rw [run_concat _ hm] at h
      by_contra hge
      exact MsgFromTerm2_wrapped hat (Nat.not_lt.mp hge) hinit.length_lt h

/-- Before each call of `MsgFromTerm2` the count lies below both thresholds, and what the call
corrupts or drops is a byte that it has read. -/
def IndicesInRange (msgs : List MediumMsg) : Prop :=
  AtEach (fun before x => ∀ r, x = .fromTerm2 r →
    ∃ m, Medium.init.run before = .ok m ∧ BelowThresholds m ∧ InRange m r) msgs

/-- **How long the indices stay in range**: until the 4294966799th byte has come. -/
theorem indices_in_range_iff (msgs : List MediumMsg) :
    IndicesInRange msgs ↔ StartsInRange msgs := by
  constructor
  · intro h
    induction msgs using List.reverseRecOn with
    | nil => exact atEach_nil
    | append_singleton msgs x ih =>
      have hinit := ih (AtEach.init h)
      refine atEach_concat hinit ?_
      rintro r rfl
      obtain ⟨m, hm, hat⟩ := run_at hinit
      obtain ⟨m', hm', hbelow, -⟩ := h msgs _ [] rfl r rfl
      rw [hm] at hm'
      cases hm'
      by_contra hge
      exact hat.not_below (Nat.not_lt.mp hge) hinit.length_lt hbelow
  · rintro h before x after rfl r rfl
    obtain ⟨m, hm, hat⟩ := run_at (AtEach.init h)
    have hlt := h before _ after rfl r rfl
    exact ⟨m, hm, hat.below hlt, hat.inRange hlt⟩

end

/-- A read that fills what the call asks for. -/
def fullRead : FromTerm2 := ⟨List.replicate 70 0x61, by decide, by decide⟩

theorem length_input_fullReads (k : Nat) :
    (input (List.replicate k (.fromTerm2 fullRead))).length = 70 * k := by
  induction k with
  | zero => rfl
  | succ k ih =>
    rw [List.replicate_succ', input_concat, List.length_append, ih]
    rfl

theorem startsInRange_fullReads {k : Nat} (hk : 70 * k < lastDrop + 70) :
    StartsInRange (List.replicate k (.fromTerm2 fullRead)) := by
  intro before x after heq r _
  obtain ⟨hlen, hbefore, -⟩ := List.replicate_eq_append_iff.mp heq
  rw [hbefore, length_input_fullReads]
  rw [List.length_cons] at hlen
  omega

theorem not_indicesInRange_fullReads {k : Nat} (hge : lastDrop ≤ 70 * k)
    (hlt : 70 * k < lastDrop + 70) :
    ¬ IndicesInRange (List.replicate k (.fromTerm2 fullRead) ++ [.fromTerm2 fullRead]) := by
  intro h
  obtain ⟨m, hm, hat⟩ := run_at (startsInRange_fullReads hlt)
  rw [length_input_fullReads] at hat
  obtain ⟨m', hm', hbelow, -⟩ := h _ _ [] rfl fullRead rfl
  rw [hm] at hm'
  cases hm'
  exact hat.not_below hge hlt hbelow

/-- After 4 GiB, less 466 bytes, in full reads, the next call begins past the threshold of the
drops. -/
theorem wrapped_threshold :
    ¬ IndicesInRange (List.replicate 61356669 (.fromTerm2 fullRead) ++ [.fromTerm2 fullRead]) :=
  not_indicesInRange_fullReads (by decide) (by decide)

end YModem.Part6
