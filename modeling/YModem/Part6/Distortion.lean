import YModem.Part6.Thresholds

/-!
# What the medium of Part 6 makes of a byte stream

The bytes at the positions `264 + 790k` are to be complemented and those at the positions
`659 + 790k` left out, however the stream is split into reads. A byte to drop that is read by
itself is not left out: the first byte of the buffer is written in any case, and it is then the
filling behind the byte.
-/

namespace YModem.Part6

open YModem.Lib YModem.Peer YModem.SmartState YModem.MyIO

/-- What is to become of the bytes behind position `t`. -/
def distort : Nat → List UInt8 → List UInt8
  | _, [] => []
  | t, b :: bs =>
    if (t + 1) % 790 = 659 then distort (t + 1) bs
    else if (t + 1) % 790 = 264 then ~~~b :: distort (t + 1) bs
    else b :: distort (t + 1) bs

/-- The glitch bytes behind a read at position `t`: there are some if it holds the second, the
fourth, .. byte to corrupt. -/
def glitchRun (t : Nat) (r : FromTerm2) : List UInt8 :=
  if corruptionsUpTo (t + r.bytes.length) = corruptionsUpTo t then []
  else List.replicate (glitchBytes (corruptionsUpTo t)) CAN

/-- The stream is made of one piece for each read, and of the glitch bytes behind them. -/
inductive Forwarded : List MediumMsg → List (List UInt8) → List UInt8 → Prop where
  | nil : Forwarded [] [] []
  | fromTerm1 {msgs pieces out} (byteReceived : UInt8) (h : Forwarded msgs pieces out) :
      Forwarded (msgs ++ [.fromTerm1 byteReceived]) pieces out
  | fromTerm2 {msgs pieces out} (r : FromTerm2) (piece : List UInt8)
      (h : Forwarded msgs pieces out) :
      Forwarded (msgs ++ [.fromTerm2 r]) (pieces ++ [piece])
        (out ++ (piece ++ glitchRun (input msgs).length r))

/-- The bytes that have been forwarded to terminal 1. -/
def sentToTerm1 (writes : List MediumWrite) : List UInt8 :=
  writes.flatMap fun
    | .term1 bytes => bytes
    | _ => []

/-- What is written to terminal 1 has been written to the log right before. -/
def LoggedFirst (writes : List MediumWrite) : Prop :=
  AtEach (fun before w => ∀ bytes, w = .term1 bytes → before.getLast? = some (.logFile bytes)) writes

/-- The medium does what it is for. -/
structure Distorts (msgs : List MediumMsg) (m : Medium) : Prop where
  stream : ∃ pieces, pieces.flatten = distort 0 (input msgs) ∧
    Forwarded msgs pieces (sentToTerm1 m.writes)
  logged : LoggedFirst m.writes

/-- The read at position `t` consists of a byte to drop. -/
def LoneDrop (t : Nat) (r : FromTerm2) : Prop := r.bytes.length = 1 ∧ (t + 1) % 790 = 659

instance (t : Nat) (r : FromTerm2) : Decidable (LoneDrop t r) := inferInstanceAs (Decidable (_ ∧ _))

/-- No byte to drop is read by itself. -/
def NoLoneDrop (msgs : List MediumMsg) : Prop :=
  AtEach (fun before x => ∀ r, x = .fromTerm2 r → ¬ LoneDrop (input before).length r) msgs

section

variable {t : Nat} {m m' : Medium} {r : FromTerm2} {buf xs ys : List UInt8} {len : Int}

/-! ## Distorted streams -/

theorem distort_append (t : Nat) (xs ys : List UInt8) :
    distort t (xs ++ ys) = distort t xs ++ distort (t + xs.length) ys := by
  induction xs generalizing t with
  | nil => rfl
  | cons b xs ih =>
    have hlen : t + (b :: xs).length = t + 1 + xs.length := by
      rw [List.length_cons]
      omega
    rw [List.cons_append, distort, distort, ih, hlen]
    split_ifs <;> rfl

/-- No position in the read. -/
theorem distort_clear (hc : corruptionsUpTo (t + xs.length) = corruptionsUpTo t)
    (hd : dropsUpTo (t + xs.length) = dropsUpTo t) : distort t xs = xs := by
  induction xs generalizing t with
  | nil => rfl
  | cons b xs ih =>
    simp only [corruptionsUpTo, dropsUpTo, List.length_cons] at hc hd
    rw [distort, if_neg (by omega), if_neg (by omega), ih]
    · simp only [corruptionsUpTo]
      omega
    · simp only [dropsUpTo]
      omega

/-- One position in the read, that of the byte behind `xs`. -/
theorem distort_corrupt {b : UInt8} (hpos : t + xs.length + 1 = 264 + 790 * corruptionsUpTo t)
    (hlen : (xs ++ b :: ys).length ≤ 70) :
    distort t (xs ++ b :: ys) = xs ++ ~~~b :: ys := by
  simp only [List.length_append, List.length_cons, corruptionsUpTo] at hlen hpos
  rw [distort_append, distort_clear, distort, if_neg (by omega), if_pos (by omega), distort_clear]
  all_goals
    simp only [corruptionsUpTo, dropsUpTo]
    omega

theorem distort_drop {b : UInt8} (hpos : t + xs.length + 1 = 659 + 790 * dropsUpTo t)
    (hlen : (xs ++ b :: ys).length ≤ 70) :
    distort t (xs ++ b :: ys) = xs ++ ys := by
  simp only [List.length_append, List.length_cons, dropsUpTo] at hlen hpos
  rw [distort_append, distort_clear, distort, if_pos (by omega), distort_clear]
  all_goals
    simp only [corruptionsUpTo, dropsUpTo]
    omega

/-! ## What a call forwards -/

/-- What `passOn` writes to terminal 1. -/
def forwarded (buf : List UInt8) (len : Int) : List UInt8 :=
  buf.take 1 ++ if len - 1 < 0 then [] else (buf.drop 1).take (len - 1).toNat

theorem forwarded_natCast {n : Nat} (hn : 0 < n) : forwarded buf n = buf.take n := by
  have hneg : ¬ (n : Int) - 1 < 0 := by omega
  have hnat : ((n : Int) - 1).toNat = n - 1 := by omega
  rw [forwarded, if_neg hneg, hnat, ← List.take_add, Nat.add_sub_cancel' hn]

theorem received_eq (r : FromTerm2) :
    received r = r.bytes ++ List.replicate (mediumBufSz - r.bytes.length) CAN := by
  simp [received, overwrite]

/-- A read, cut at one of its bytes. -/
theorem exists_cut {bytes : List UInt8} {i : Nat} (hi : i < bytes.length) :
    ∃ xs b ys, bytes = xs ++ b :: ys ∧ xs.length = i :=
  ⟨bytes.take i, bytes[i], bytes.drop (i + 1), by simp, by simp; omega⟩

theorem modify_cut (xs ys : List UInt8) (b : UInt8) (f : UInt8 → UInt8) :
    (xs ++ b :: ys).modify xs.length f = xs ++ f b :: ys := by
  induction xs with
  | nil => rfl
  | cons x xs ih => rw [List.cons_append, List.length_cons, List.modify_succ_cons, ih]; rfl

/-- `memmove` closes the gap, and leaves the last byte of the buffer where it is. -/
theorem overwrite_cut {xs ys : List UInt8} {b : UInt8}
    (hlen : (xs ++ b :: ys).length = mediumBufSz) :
    overwrite (xs ++ b :: ys) xs.length
      (((xs ++ b :: ys).drop (xs.length + 1)).take (mediumBufSz - 1 - xs.length)) =
    xs ++ ys ++ (b :: ys).drop ys.length := by
  have hys : ys.length ≤ mediumBufSz - 1 - xs.length := by
    simp only [List.length_append, List.length_cons] at hlen
    omega
  have hdrop : (xs ++ b :: ys).drop (xs.length + 1) = ys := by
    rw [← List.drop_drop, List.drop_left]
    rfl
  rw [hdrop, List.take_of_length_le hys, overwrite, List.take_left, ← List.drop_drop,
    List.drop_left]

/-- **What a call forwards** is the distorted read and the glitch bytes, unless it has read
nothing but a byte to drop. -/
theorem forwarded_of_passes (h : Passes t r buf len) :
    forwarded buf len =
      if LoneDrop t r then [CAN] else distort t r.bytes ++ glitchRun t r := by
  have hpos := r.pos
  have hle := r.le
  cases h with
  | clear hc hd =>
    have hlone : ¬ LoneDrop t r := by
      rintro ⟨hone, hmod⟩
      simp only [dropsUpTo, hone] at hd
      omega
    rw [if_neg hlone, distort_clear hc hd, glitchRun, if_pos hc, forwarded_natCast hpos,
      received_eq, List.take_left, List.append_nil]
  | corrupt i hi hpos' hc hd =>
    have hlone : ¬ LoneDrop t r := by
      rintro ⟨hone, hmod⟩
      simp only [dropsUpTo, hone] at hd
      omega
    have hne : ¬ corruptionsUpTo (t + r.bytes.length) = corruptionsUpTo t := by omega
    obtain ⟨xs, b, ys, hbytes, rfl⟩ := exists_cut hi
    have hlen : r.bytes.length = (xs ++ ~~~b :: ys).length := by
      rw [hbytes, List.length_append, List.length_append, List.length_cons, List.length_cons]
    have hfit : glitchBytes (corruptionsUpTo t) ≤ mediumBufSz - r.bytes.length := by
      have hg : glitchBytes (corruptionsUpTo t) ≤ 35 := by
        unfold glitchBytes
        split <;> decide
      simp only [mediumBufSz]
      omega
    rw [if_neg hlone, glitchRun, if_neg hne, ← Int.natCast_add, forwarded_natCast (by omega),
      received_eq, hbytes, distort_corrupt hpos' (hbytes ▸ hle), List.append_assoc,
      List.cons_append, modify_cut, ← hbytes, hlen, ← List.cons_append, ← List.append_assoc,
      List.take_length_add_append, List.take_replicate, Nat.min_eq_left (hlen ▸ hfit)]
  | drop i hi hpos' hc hd =>
    obtain ⟨xs, b, ys, hbytes, rfl⟩ := exists_cut hi
    have hn : r.bytes.length = xs.length + ys.length + 1 := by
      rw [hbytes, List.length_append, List.length_cons, Nat.add_assoc]
    let pad := List.replicate (mediumBufSz - r.bytes.length) CAN
    have hlen : (xs ++ b :: (ys ++ pad)).length = mediumBufSz := by
      simp only [pad, List.length_append, List.length_cons, List.length_replicate, mediumBufSz]
      omega
    have hbuf : received r = xs ++ b :: (ys ++ pad) := by
      rw [received_eq]
      change r.bytes ++ pad = _
      rw [hbytes, List.append_assoc, List.cons_append]
    rw [hbuf, overwrite_cut hlen]
    by_cases hlone : LoneDrop t r
    · have hxs : xs = [] := List.eq_nil_of_length_eq_zero (by have := hlone.1; omega)
      have hys : ys = [] := List.eq_nil_of_length_eq_zero (by have := hlone.1; omega)
      rw [if_pos hlone, hlone.1, hxs, hys]
      simp only [pad, hlone.1]
      rfl
    · have htwo : 0 < xs.length + ys.length := by
        refine Nat.pos_of_ne_zero fun h0 => hlone ⟨by omega, ?_⟩
        omega
      have hcast : (r.bytes.length : Int) - 1 = ((xs ++ ys).length : Nat) := by
        rw [List.length_append]
        omega
      rw [if_neg hlone, glitchRun, if_pos hc, List.append_nil, hcast,
        forwarded_natCast (by rwa [List.length_append]), hbytes,
        distort_drop hpos' (hbytes ▸ hle), ← List.append_assoc, List.append_assoc (xs ++ ys),
        List.take_left]

/-! ## What a call writes -/

/-- The writes of `passOn`. -/
def passedOn (sendExtraAck : Bool) (buf : List UInt8) (len : Int) : List MediumWrite :=
  [.logFile (buf.take 1), .term1 (buf.take 1)] ++
    (if sendExtraAck then [.logFile [ACK], .term2 [ACK]] else []) ++
    if len - 1 < 0 then []
    else
      let rest := (buf.drop 1).take (len - 1).toNat
      [.logFile rest, .term1 rest]

theorem passOn_writes (m : Medium) (buf : List UInt8) (len : Int) :
    (m.passOn buf len).writes = m.writes ++ passedOn m.sendExtraAck buf len := by
  unfold Medium.passOn Medium.writeRest Medium.extraAck passedOn
  simp only [Medium.toTerm1_sendExtraAck]
  split_ifs <;> simp

theorem sentToTerm1_append (log new : List MediumWrite) :
    sentToTerm1 (log ++ new) = sentToTerm1 log ++ sentToTerm1 new := List.flatMap_append

theorem sentToTerm1_passedOn (extra : Bool) :
    sentToTerm1 (passedOn extra buf len) = forwarded buf len := by
  unfold passedOn forwarded
  cases extra <;> split_ifs <;> simp [sentToTerm1]

theorem LoggedFirst.passedOn {log : List MediumWrite} (h : LoggedFirst log) (extra : Bool) :
    LoggedFirst (log ++ passedOn extra buf len) := by
  rw [LoggedFirst, atEach_append]
  refine ⟨h, ?_⟩
  unfold Part6.passedOn
  cases extra <;> split_ifs <;> simp

/-- Nothing is written to terminal 1. -/
def Quiet (m m' : Medium) : Prop :=
  ∃ new, m'.writes = m.writes ++ new ∧ ∀ bytes, .term1 bytes ∉ new

theorem Quiet.of_eq (h : m'.writes = m.writes) : Quiet m m' := ⟨[], by simp [h], by simp⟩

theorem Quiet.trans {m'' : Medium} (h : Quiet m m') (h' : Quiet m' m'') : Quiet m m'' := by
  obtain ⟨new, hw, hnew⟩ := h
  obtain ⟨new', hw', hnew'⟩ := h'
  refine ⟨new ++ new', by rw [hw', hw, List.append_assoc], fun bytes hmem => ?_⟩
  rcases List.mem_append.mp hmem with hmem | hmem
  · exact hnew bytes hmem
  · exact hnew' bytes hmem

theorem quiet_toTerm2 (m : Medium) (bytes : List UInt8) : Quiet m (m.toTerm2 bytes) :=
  ⟨_, rfl, by simp⟩

theorem quiet_fromTerm1 (m : Medium) (byteReceived : UInt8) :
    Quiet m (m.MsgFromTerm1 byteReceived) := by
  simp only [Medium.MsgFromTerm1]
  split_ifs
  · exact .of_eq rfl
  all_goals
    refine .trans ?_ (quiet_toTerm2 _ _)
    unfold Medium.sendGlitch
    split_ifs
    · exact quiet_toTerm2 { m with
        fromT1ByteCount := _
        sentCount := _ } _
    · exact .of_eq rfl

theorem Quiet.sentToTerm1_eq (h : Quiet m m') :
    sentToTerm1 m'.writes = sentToTerm1 m.writes := by
  obtain ⟨new, hw, hnew⟩ := h
  have hnil : sentToTerm1 new = [] := by
    refine List.flatMap_eq_nil_iff.mpr fun w hmem => ?_
    cases w with
    | term1 bytes => exact absurd hmem (hnew bytes)
    | logFile bytes => rfl
    | term2 bytes => rfl
  rw [hw, sentToTerm1_append, hnil, List.append_nil]

theorem Quiet.loggedFirst (h : Quiet m m') (hm : LoggedFirst m.writes) :
    LoggedFirst m'.writes := by
  obtain ⟨new, hw, hnew⟩ := h
  rw [hw]
  clear hw
  induction new using List.reverseRecOn with
  | nil => simpa using hm
  | append_singleton new w ih =>
    rw [← List.append_assoc]
    refine atEach_concat (ih fun bytes hmem => hnew bytes (List.mem_append_left _ hmem)) ?_
    rintro bytes rfl
    exact absurd (List.mem_append_right _ List.mem_cons_self) (hnew bytes)

/-! ## Runs -/

/-- What is forwarded in a run. -/
inductive Sent : List MediumMsg → List UInt8 → Prop where
  | nil : Sent [] []
  | fromTerm1 {msgs out} (byteReceived : UInt8) (h : Sent msgs out) :
      Sent (msgs ++ [.fromTerm1 byteReceived]) out
  | fromTerm2 {msgs out} (r : FromTerm2) (h : Sent msgs out) :
      Sent (msgs ++ [.fromTerm2 r]) (out ++
        if LoneDrop (input msgs).length r then [CAN]
        else distort (input msgs).length r.bytes ++ glitchRun (input msgs).length r)

theorem run_sent {msgs : List MediumMsg} (h : StartsInRange msgs) :
    ∃ m, Medium.init.run msgs = .ok m ∧ Sent msgs (sentToTerm1 m.writes) ∧
      LoggedFirst m.writes := by
  obtain ⟨m, hm, -, hI⟩ := @run_invariant
    (fun msgs m => Sent msgs (sentToTerm1 m.writes) ∧ LoggedFirst m.writes) msgs
    ⟨.nil, atEach_nil⟩
    (fun msgs m b hI => by
      have hq := quiet_fromTerm1 m b
      rw [hq.sentToTerm1_eq]
      exact ⟨hI.1.fromTerm1 b, hq.loggedFirst hI.2⟩)
    (fun msgs m r m₁ buf len hI hw hpass => by
      rw [passOn_writes, sentToTerm1_append, sentToTerm1_passedOn, forwarded_of_passes hpass, hw]
      exact ⟨hI.1.fromTerm2 r, hI.2.passedOn _⟩)
    h
  exact ⟨m, hm, hI⟩

theorem input_fromTerm1 (msgs : List MediumMsg) (byteReceived : UInt8) :
    input (msgs ++ [.fromTerm1 byteReceived]) = input msgs := by
  rw [input_concat]
  exact List.append_nil _

theorem input_fromTerm2 (msgs : List MediumMsg) (r : FromTerm2) :
    input (msgs ++ [.fromTerm2 r]) = input msgs ++ r.bytes := by
  rw [input_concat]
  exact congrArg _ (List.append_nil _)

theorem distort_fromTerm2 (msgs : List MediumMsg) (r : FromTerm2) :
    distort 0 (input (msgs ++ [.fromTerm2 r])) =
      distort 0 (input msgs) ++ distort (input msgs).length r.bytes := by
  rw [input_fromTerm2, distort_append, Nat.zero_add]

theorem distort_lone (h : LoneDrop t r) : distort t r.bytes = [] := by
  obtain ⟨b, hb⟩ := List.length_eq_one_iff.mp h.1
  rw [hb, distort, if_pos h.2]
  rfl

theorem glitchRun_lone (h : LoneDrop t r) : glitchRun t r = [] := by
  obtain ⟨hone, hmod⟩ := h
  rw [glitchRun, if_pos]
  simp only [corruptionsUpTo, hone]
  omega

/-- Without a byte to drop that is read by itself, the stream is what it is to be. -/
theorem Sent.forwarded {msgs : List MediumMsg} {out : List UInt8} (h : Sent msgs out)
    (hlone : NoLoneDrop msgs) :
    ∃ pieces, pieces.flatten = distort 0 (input msgs) ∧ Forwarded msgs pieces out := by
  induction h with
  | nil => exact ⟨[], rfl, .nil⟩
  | fromTerm1 b h ih =>
    obtain ⟨pieces, hflat, hf⟩ := ih (AtEach.init hlone)
    exact ⟨pieces, by rw [hflat, input_fromTerm1], hf.fromTerm1 b⟩
  | @fromTerm2 msgs out r h ih =>
    obtain ⟨pieces, hflat, hf⟩ := ih (AtEach.init hlone)
    rw [if_neg (hlone msgs _ [] rfl r rfl)]
    refine ⟨pieces ++ [distort (input msgs).length r.bytes], ?_, hf.fromTerm2 r _⟩
    rw [List.flatten_concat, hflat, distort_fromTerm2]

theorem Forwarded.nil_inv {pieces : List (List UInt8)} {out : List UInt8}
    (h : Forwarded [] pieces out) : out = [] := by
  generalize heq : ([] : List MediumMsg) = all at h
  cases h with
  | nil => rfl
  | fromTerm1 b h => simp at heq
  | fromTerm2 r piece h => simp at heq

theorem Forwarded.fromTerm1_inv {msgs : List MediumMsg} {b : UInt8} {pieces : List (List UInt8)}
    {out : List UInt8} (h : Forwarded (msgs ++ [.fromTerm1 b]) pieces out) :
    Forwarded msgs pieces out := by
  generalize heq : msgs ++ [MediumMsg.fromTerm1 b] = all at h
  cases h with
  | nil => simp at heq
  | fromTerm1 b' h =>
    obtain ⟨rfl, -⟩ := List.append_singleton_inj.mp heq
    exact h
  | fromTerm2 r piece h => cases (List.append_singleton_inj.mp heq).2

theorem Forwarded.fromTerm2_inv {msgs : List MediumMsg} {r : FromTerm2}
    {pieces : List (List UInt8)} {out : List UInt8}
    (h : Forwarded (msgs ++ [.fromTerm2 r]) pieces out) :
    ∃ pieces' piece out', pieces = pieces' ++ [piece] ∧
      out = out' ++ (piece ++ glitchRun (input msgs).length r) ∧ Forwarded msgs pieces' out' := by
  generalize heq : msgs ++ [MediumMsg.fromTerm2 r] = all at h
  cases h with
  | nil => simp at heq
  | fromTerm1 b' h => cases (List.append_singleton_inj.mp heq).2
  | fromTerm2 r' piece h =>
    obtain ⟨rfl, hr⟩ := List.append_singleton_inj.mp heq
    cases hr
    exact ⟨_, _, _, rfl, rfl, h⟩

/-- Each byte to drop that is read by itself makes the stream one byte too long. -/
theorem Sent.length_excess {msgs : List MediumMsg} {out : List UInt8} (h : Sent msgs out)
    {pieces : List (List UInt8)} {out' : List UInt8} (hf : Forwarded msgs pieces out') :
    out'.length + (distort 0 (input msgs)).length ≤ out.length + pieces.flatten.length ∧
      (¬ NoLoneDrop msgs →
        out'.length + (distort 0 (input msgs)).length < out.length + pieces.flatten.length) := by
  induction h generalizing pieces out' with
  | nil =>
    rw [hf.nil_inv]
    exact ⟨Nat.zero_le _, fun h => absurd atEach_nil h⟩
  | fromTerm1 b h ih =>
    obtain ⟨hle, hlt⟩ := ih hf.fromTerm1_inv
    rw [input_fromTerm1]
    refine ⟨hle, fun hlone => hlt fun hno => hlone (atEach_concat hno ?_)⟩
    intro r hr
    cases hr
  | @fromTerm2 msgs out r h ih =>
    obtain ⟨pieces, piece, out', rfl, rfl, hf'⟩ := hf.fromTerm2_inv
    obtain ⟨hle, hlt⟩ := ih hf'
    rw [distort_fromTerm2]
    simp only [List.length_append, List.flatten_append, List.flatten_singleton]
    by_cases hlone : LoneDrop (input msgs).length r
    · rw [if_pos hlone, distort_lone hlone, glitchRun_lone hlone, List.length_nil,
        List.length_singleton]
      omega
    · rw [if_neg hlone, List.length_append]
      refine ⟨by omega, fun h => ?_⟩
      have := hlt fun hno => h (atEach_concat hno (by rintro r' hr; cases hr; exact hlone))
      omega

theorem Distorts.noLoneDrop {msgs : List MediumMsg} (h : Distorts msgs m)
    (hm : Medium.init.run msgs = .ok m) : NoLoneDrop msgs := by
  obtain ⟨⟨pieces, hflat, hf⟩, -⟩ := h
  by_contra hlone
  obtain ⟨m', hm', hsent, -⟩ := run_sent (startsInRange_of_run hm)
  rw [hm] at hm'
  cases hm'
  have := (hsent.length_excess hf).2 hlone
  rw [hflat] at this
  omega

/-- **The distortion depends on the reads in two ways only**: on a byte to drop that is read by
itself, and on calls behind the last position of a drop. -/
theorem distorts_iff (msgs : List MediumMsg) :
    (∃ m, Medium.init.run msgs = .ok m ∧ Distorts msgs m) ↔
      StartsInRange msgs ∧ NoLoneDrop msgs := by
  constructor
  · rintro ⟨m, hm, h⟩
    exact ⟨startsInRange_of_run hm, h.noLoneDrop hm⟩
  · rintro ⟨hstarts, hlone⟩
    obtain ⟨m, hm, hsent, hlog⟩ := run_sent hstarts
    exact ⟨m, hm, hsent.forwarded hlone, hlog⟩

end

/-- 658 bytes, and the 659th by itself. -/
def loneDropReads : List MediumMsg :=
  List.replicate 9 (.fromTerm2 fullRead) ++
    [.fromTerm2 ⟨List.replicate 28 0x61, by decide, by decide⟩,
      .fromTerm2 ⟨[0x62], by decide, by decide⟩]

set_option maxRecDepth 8000 in
/-- A CAN is forwarded in the place of the last byte. -/
theorem can_for_lone_drop :
    ((Medium.init.run loneDropReads).toOption.any fun m =>
      decide (sentToTerm1 m.writes = distort 0 (input loneDropReads) ++ [CAN])) = true ∧
    ¬ ∃ m, Medium.init.run loneDropReads = .ok m ∧ Distorts loneDropReads m := by
  refine ⟨by decide +kernel, ?_⟩
  rintro ⟨m, hm, h⟩
  have hlen : (input (loneDropReads.take 10)).length + 1 = 659 := by decide +kernel
  refine h.noLoneDrop hm (loneDropReads.take 10) _ [] rfl _ rfl ⟨rfl, ?_⟩
  rw [hlen]

end YModem.Part6
