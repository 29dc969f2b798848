import YModem.Lib.Crc
import YModem.Peer.Block

/-!
# Damage to a block

`updcrc` reads a byte most significant bit first, so that the checksum of a chunk is its
remainder. A change of one byte, or of bits that lie close together, is always noticed.
-/

namespace YModem.Peer

open YModem.Lib

/-- The generator polynomial of `updcrc`. -/
abbrev genPoly : BitVec 16 := 0x1021#16

/-- The bits of a byte, most significant bit first. -/
def bitsOf (b : UInt8) : List Bool := (List.range 8).map b.toBitVec.getMsbD

/-- The bits of a message in the order in which `updcrc` takes them. -/
def bits (bs : List UInt8) : List Bool := bs.flatMap bitsOf

/-! ## The loop of `updcrc` -/

section Register

variable {w : Nat}

/-- A turn of the loop with a checksum register of `w` bits. -/
def updcrcStepIn (w : Nat) : BitVec 32 × BitVec w → BitVec 32 × BitVec w
  | (c, crc) =>
    let c := c <<< 1
    let shifted := (crc <<< 1) + (if c &&& 0o400#32 = 0#32 then 0#w else 1#w)
    (c, if crc &&& 0x8000#w = 0#w then shifted else shifted ^^^ 0x1021#w)

def updcrcIn (c : BitVec 32) (crc : BitVec w) : BitVec 16 :=
  ((updcrcStepIn w)^[8] (c, crc)).2.setWidth 16

theorem updcrcStepIn_fst (c : BitVec 32) (crc : BitVec w) :
    (updcrcStepIn w (c, crc)).1 = c <<< 1 := rfl

theorem setWidth_shiftLeft_one (h : 16 ≤ w) (x : BitVec w) :
    (x <<< 1).setWidth 16 = x.setWidth 16 <<< 1 := by
  ext i hi
  have hw : i < w := by omega
  simp [hw, -BitVec.getLsbD_eq_getElem]

/-- The data bit lands where the shift has left a zero. -/
theorem shiftLeft_one_add (x : BitVec w) (b : Bool) :
    (x <<< 1) + (if b then 1#w else 0#w) = (x <<< 1) ^^^ (if b then 1#w else 0#w) := by
  cases b with
  | false => simp
  | true =>
    have hand : (x <<< 1) &&& 1#w = 0#w := by
      rw [← BitVec.twoPow_zero, BitVec.and_twoPow]
      simp
    rw [if_pos rfl, BitVec.add_eq_or_of_and_eq_zero _ _ hand]
    ext i hi
    by_cases h0 : i = 0
    · subst h0
      simp
    · simp [h0]

/-- One turn of the loop: the top bit of the data register is read, and only the low 16 bits of
the checksum register matter. -/
theorem updcrcStepIn_snd (h : 16 ≤ w) (c : BitVec 32) (crc : BitVec w) :
    (updcrcStepIn w (c, crc)).2.setWidth 16 =
      Crc.step genPoly (crc.setWidth 16) (c.getLsbD 7) := by
  have hbit : (c <<< 1) &&& 0o400#32 = if c.getLsbD 7 then BitVec.twoPow 32 8 else 0#32 := by
    rw [show 0o400#32 = BitVec.twoPow 32 8 by decide, BitVec.and_twoPow]
    simp
  have htop : 0x8000#w = BitVec.twoPow w 15 := BitVec.eq_of_toNat_eq (by simp [BitVec.toNat_twoPow])
  have hne : BitVec.twoPow w 15 ≠ 0#w := by
    intro h0
    have hbit := congrArg (·.getLsbD 15) h0
    simp [show 15 < w by omega] at hbit
  have hmsb : crc &&& 0x8000#w = if (crc.setWidth 16).msb then BitVec.twoPow w 15 else 0#w := by
    rw [htop, BitVec.and_twoPow]
    simp [BitVec.msb_eq_getLsbD_last]
  have hone : (if (c <<< 1) &&& 0o400#32 = 0#32 then 0#w else 1#w) =
      if c.getLsbD 7 then 1#w else 0#w := by
    rw [hbit]
    cases c.getLsbD 7
    · rfl
    · exact if_neg (by decide)
  have hadd := shiftLeft_one_add crc (c.getLsbD 7)
  have hdata : (if c.getLsbD 7 then 1#w else 0#w).setWidth 16 =
      if c.getLsbD 7 then 1#16 else 0#16 := by
    rw [apply_ite (BitVec.setWidth 16), BitVec.setWidth_ofNat_of_le h, BitVec.setWidth_ofNat_of_le h]
  have hpoly : (0x1021#w).setWidth 16 = genPoly := BitVec.setWidth_ofNat_of_le h _
  have hif (x y : BitVec w) : (if crc &&& 0x8000#w = 0#w then x else y) =
      if (crc.setWidth 16).msb then y else x := by
    rw [hmsb]
    cases (crc.setWidth 16).msb with
    | false => exact if_pos rfl
    | true => exact if_neg hne
  simp only [updcrcStepIn]
  rw [hif, hone, hadd, Crc.step]
  cases (crc.setWidth 16).msb with
  | false =>
    rw [if_neg Bool.false_ne_true, if_neg Bool.false_ne_true, BitVec.setWidth_xor,
      setWidth_shiftLeft_one h, hdata, BitVec.xor_zero]
  | true =>
    rw [if_pos rfl, if_pos rfl, BitVec.setWidth_xor, BitVec.setWidth_xor,
      setWidth_shiftLeft_one h, hdata, hpoly, BitVec.xor_assoc, BitVec.xor_assoc,
      BitVec.xor_comm _ genPoly]

/-- A call of `updcrc` reads the eight bits of its byte. -/
theorem updcrcIn_eq (h : 16 ≤ w) (b : UInt8) (crc : BitVec w) :
    updcrcIn (b.toBitVec.setWidth 32) crc = Crc.run genPoly (crc.setWidth 16) (bitsOf b) := by
  have hloop (n : Nat) (c : BitVec 32) : ((updcrcStepIn w)^[n] (c, crc)).1 = c <<< n ∧
      ((updcrcStepIn w)^[n] (c, crc)).2.setWidth 16 = Crc.run genPoly (crc.setWidth 16)
        ((List.range n).map fun i => (c <<< i).getLsbD 7) := by
    induction n with
    | zero => exact ⟨by simp, rfl⟩
    | succ n ih =>
      obtain ⟨hc, hr⟩ := ih
      rw [Function.iterate_succ_apply']
      generalize (updcrcStepIn w)^[n] (c, crc) = p at hc hr
      obtain ⟨c', crc'⟩ := p
      subst hc
      refine ⟨by rw [updcrcStepIn_fst, BitVec.shiftLeft_add], ?_⟩
      rw [updcrcStepIn_snd h, hr, List.range_succ, List.map_append, Crc.run_append]
      rfl
  have hmap : bitsOf b = (List.range 8).map fun i => (b.toBitVec.setWidth 32 <<< i).getLsbD 7 := by
    refine List.map_congr_left fun i hi => ?_
    have hi := List.mem_range.mp hi
    simp [BitVec.getMsbD_eq_getLsbD, hi, show ¬ 7 < i by omega]
  rw [updcrcIn, (hloop 8 _).2, hmap]

/-- `updcrc` over the bytes of a message. -/
theorem foldl_updcrcIn (h : 16 ≤ w) (bs : List UInt8) (r : BitVec 16) :
    bs.foldl (fun crc b => updcrcIn (b.toBitVec.setWidth 32) (crc.setWidth w)) r =
      Crc.run genPoly r (bits bs) := by
  induction bs generalizing r with
  | nil => rfl
  | cons b bs ih =>
    rw [List.foldl_cons, ih, updcrcIn_eq h, BitVec.setWidth_setWidth_of_le r h, BitVec.setWidth_eq,
      ← Crc.run_append]
    rfl

/-- `oldcrc` with a register of `w` bits. -/
def oldcrcIn (w : Nat) (buf : List UInt8) : BitVec 16 :=
  let crc := buf.foldl (fun crc b => updcrcIn (b.toBitVec.setWidth 32) (crc.setWidth w)) 0#16
  updcrcIn 0#32 ((updcrcIn 0#32 (crc.setWidth w)).setWidth w)

/-- The checksum is the remainder of the message behind which two zero bytes stand. -/
theorem oldcrcIn_eq (h : 16 ≤ w) (buf : List UInt8) :
    oldcrcIn w buf = Crc.run genPoly 0#16 (bits (buf ++ [0, 0])) := by
  have hzero (r : BitVec 16) : updcrcIn 0#32 (r.setWidth w) = Crc.run genPoly r (bitsOf 0) := by
    have hw : (r.setWidth w).setWidth 16 = r := by
      rw [BitVec.setWidth_setWidth_of_le r h, BitVec.setWidth_eq]
    rw [← hw, ← updcrcIn_eq h, hw]
    rfl
  rw [oldcrcIn, foldl_updcrcIn h, hzero, hzero, ← Crc.run_append, ← Crc.run_append]
  simp [bits]

end Register

theorem oldcrc_eq (buf : List UInt8) : oldcrc buf = Crc.run genPoly 0#16 (bits (buf ++ [0, 0])) :=
  @oldcrcIn_eq 32 (by decide) buf

/-! ## Codewords -/

@[simp] theorem length_bitsOf (b : UInt8) : (bitsOf b).length = 8 := rfl

theorem bits_cons (b : UInt8) (bs : List UInt8) : bits (b :: bs) = bitsOf b ++ bits bs := rfl

theorem bits_append (bs cs : List UInt8) : bits (bs ++ cs) = bits bs ++ bits cs :=
  List.flatMap_append

theorem length_bits (bs : List UInt8) : (bits bs).length = 8 * bs.length := by
  induction bs with
  | nil => rfl
  | cons b bs ih =>
    rw [bits_cons, List.length_append, ih, length_bitsOf, List.length_cons]
    omega

theorem bits_zeros (n : Nat) : bits (List.replicate n 0) = List.replicate (8 * n) false := by
  induction n with
  | zero => rfl
  | succ n ih =>
    rw [List.replicate_succ, bits_cons, ih, Nat.mul_succ, Nat.add_comm, List.replicate_add]
    rfl

/-- The bits of the byte-wise difference of two messages. -/
theorem bits_xor {bs cs : List UInt8} (h : bs.length = cs.length) :
    bits (List.zipWith (· ^^^ ·) bs cs) = List.zipWith xor (bits bs) (bits cs) := by
  induction bs generalizing cs with
  | nil =>
    cases List.length_eq_zero_iff.mp h.symm
    rfl
  | cons b bs ih =>
    obtain ⟨c, cs, rfl⟩ := List.exists_cons_of_length_eq_add_one h.symm
    have hbyte : bitsOf (b ^^^ c) = List.zipWith xor (bitsOf b) (bitsOf c) := by
      simp [bitsOf, List.range_succ]
    rw [List.zipWith_cons_cons, bits_cons, bits_cons, bits_cons, hbyte, ih (by simpa using h),
      List.zipWith_append (by simp)]

theorem zipWith_xor_zeros (bs : List UInt8) :
    List.zipWith (· ^^^ ·) bs (List.replicate bs.length 0) = bs := by
  induction bs with
  | nil => rfl
  | cons b bs ih =>
    rw [List.length_cons, List.replicate_succ, List.zipWith_cons_cons, ih, UInt8.xor_zero]

/-- Two bytes behind a cleared register fill it. -/
theorem run_two (n : BitVec 16) :
    Crc.run genPoly 0#16 (bits (Host.big.bytesOf n)) = n := by
  have hhi : ∀ b : BitVec 8,
      Crc.run genPoly 0#16 (bits [.ofBitVec b, 0]) = b.setWidth 16 <<< 8 := by decide +kernel
  have hlo : ∀ b : BitVec 8,
      Crc.run genPoly 0#16 (bits [0, .ofBitVec b]) = b.setWidth 16 := by decide +kernel
  have hsum : List.zipWith (· ^^^ ·) [UInt8.ofBitVec ((n >>> 8).setWidth 8), 0]
      [0, UInt8.ofBitVec (n.setWidth 8)] = Host.big.bytesOf n := by
    simp [Host.bytesOf]
  have hlin := @Crc.run_xor 16 genPoly 0#16 0#16 (bits [.ofBitVec ((n >>> 8).setWidth 8), 0])
    (bits [0, .ofBitVec (n.setWidth 8)]) rfl
  rw [← hsum, bits_xor (by simp), ← @BitVec.xor_self 16 0#16, hlin, hhi, hlo]
  ext i hi
  by_cases h8 : i < 8
  · simp [h8, BitVec.getLsbD_eq_getElem hi]
  · simp [h8, show i - 8 < 8 by omega, show 8 + (i - 8) = i by omega, BitVec.getLsbD_eq_getElem hi]

/-- A chunk with two bytes behind it. -/
theorem run_behind (chunk : List UInt8) (n : BitVec 16) :
    Crc.run genPoly 0#16 (bits (chunk ++ Host.big.bytesOf n)) = oldcrc chunk ^^^ n := by
  have hsum : List.zipWith (· ^^^ ·) (chunk ++ [0, 0])
      (List.replicate chunk.length 0 ++ Host.big.bytesOf n) = chunk ++ Host.big.bytesOf n := by
    rw [List.zipWith_append (by simp), zipWith_xor_zeros]
    simp [Host.bytesOf]
  have hzeros : Crc.run genPoly 0#16 (bits (List.replicate chunk.length 0)) = 0#16 := by
    rw [bits_zeros, Crc.run_zero]
  calc Crc.run genPoly 0#16 (bits (chunk ++ Host.big.bytesOf n))
      = Crc.run genPoly (0#16 ^^^ 0#16) (List.zipWith xor (bits (chunk ++ [0, 0]))
          (bits (List.replicate chunk.length 0 ++ Host.big.bytesOf n))) := by
        rw [← bits_xor (by simp [Host.bytesOf]), hsum, BitVec.xor_self]
    _ = oldcrc chunk ^^^ n := by
        rw [Crc.run_xor _ _ (by simp [length_bits, Host.bytesOf]), ← oldcrc_eq, bits_append,
          Crc.run_append, hzeros, run_two]

/-- A chunk with its checksum leaves no remainder. -/
theorem run_codeword (chunk : List UInt8) :
    Crc.run genPoly 0#16 (bits (chunk ++ crc16ns chunk)) = 0#16 := by
  have hcrc : crc16ns chunk = Host.big.bytesOf (oldcrc chunk) := bytesOf_myHtons .little _
  rw [hcrc, run_behind, BitVec.xor_self]

/-! ## Bursts -/

/-- The two orders in which a line can carry the bits of a byte. -/
inductive BitOrder where
  | msbFirst
  | lsbFirst
deriving DecidableEq, Repr

def BitOrder.bit (o : BitOrder) (b : UInt8) (j : Nat) : Bool :=
  match o with
  | .msbFirst => b.toBitVec.getMsbD j
  | .lsbFirst => b.toBitVec.getLsbD j

/-- Bit `i` of a message on the line. -/
def BitOrder.bitAt (o : BitOrder) (bs : List UInt8) (i : Nat) : Bool :=
  o.bit (bs.getD (i / 8) 0) (i % 8)

/-- All bits in which two messages differ are among 16 consecutive ones. -/
def Burst (o : BitOrder) (bs cs : List UInt8) : Prop :=
  ∃ p, ∀ i, o.bitAt bs i ≠ o.bitAt cs i → p ≤ i ∧ i < p + 16

/-- The byte-wise difference of two messages. -/
def diff (bs cs : List UInt8) : List UInt8 := List.zipWith (· ^^^ ·) bs cs

variable {bs cs : List UInt8}

theorem bitAt_diff (o : BitOrder) (h : bs.length = cs.length) (i : Nat) :
    o.bitAt (diff bs cs) i = (o.bitAt bs i ^^ o.bitAt cs i) := by
  have hbyte (m : Nat) : (diff bs cs).getD m 0 = bs.getD m 0 ^^^ cs.getD m 0 := by
    simp only [diff, List.getD_eq_getElem?_getD, List.getElem?_zipWith]
    by_cases hm : m < bs.length
    · simp [hm, ← h]
    · simp [hm, ← h]
  rw [BitOrder.bitAt, BitOrder.bitAt, BitOrder.bitAt, hbyte]
  cases o with
  | msbFirst => exact BitVec.getMsbD_xor
  | lsbFirst => exact BitVec.getLsbD_xor

/-- `updcrc` takes the bits most significant one first. -/
theorem getD_bits (bs : List UInt8) (i : Nat) :
    (bits bs).getD i false = BitOrder.msbFirst.bitAt bs i := by
  induction bs generalizing i with
  | nil => simp [bits, BitOrder.bitAt, BitOrder.bit]
  | cons b bs ih =>
    by_cases hi : i < 8
    · rw [bits_cons, List.getD_append _ _ _ _ (by simpa using hi), BitOrder.bitAt,
        Nat.div_eq_of_lt hi, Nat.mod_eq_of_lt hi]
      simp [bitsOf, BitOrder.bit, List.getD_eq_getElem?_getD, hi]
    · obtain ⟨k, rfl⟩ := Nat.exists_eq_add_of_le (Nat.le_of_not_lt hi)
      rw [bits_cons, List.getD_append_right _ _ _ _ (by simp), length_bitsOf,
        Nat.add_sub_cancel_left, ih, BitOrder.bitAt, BitOrder.bitAt, Nat.add_comm 8,
        Nat.add_mod_right, Nat.add_div_right _ (by decide), List.getD_cons_succ]

/-- A byte is zero when all its bits are, in either order. -/
theorem BitOrder.exists_bit (o : BitOrder) {b : UInt8} (h : b ≠ 0) :
    ∃ j, j < 8 ∧ o.bit b j = true := by
  obtain ⟨v⟩ := b
  have hv : v ≠ 0#8 := fun h0 => h (by rw [h0]; rfl)
  cases o with
  | msbFirst =>
    revert v
    decide +kernel
  | lsbFirst =>
    revert v
    decide +kernel

/-- Bytes outside a stretch are zero when their bits are. -/
theorem getD_eq_zero {o : BitOrder} {e : List UInt8} {m : Nat}
    (h : ∀ j, j < 8 → o.bitAt e (8 * m + j) = false) : e.getD m 0 = 0 := by
  by_contra hne
  obtain ⟨j, hj, hbit⟩ := o.exists_bit hne
  have hat := h j hj
  rw [BitOrder.bitAt, Nat.mul_add_div (by decide), Nat.div_eq_of_lt hj, Nat.add_zero,
    Nat.mul_add_mod, Nat.mod_eq_of_lt hj, hbit] at hat
  contradiction

/-- Three neighbouring bytes whose set bits span at most 16 places, least significant bits
first. -/
theorem run_three_ne_zero {a b c : UInt8} {k : Nat}
    (hlow : ∀ j, j < k → a.toBitVec.getLsbD j = false)
    (hhigh : ∀ j, k ≤ j → j < 8 → c.toBitVec.getLsbD j = false)
    (hne : ¬ (a = 0 ∧ b = 0 ∧ c = 0)) : Crc.run genPoly 0#16 (bits [a, b, c]) ≠ 0#16 := by
  -- the remainder of the first byte alone sets a bit of the last byte too far up
  have htable : ∀ v : BitVec 8, v ≠ 0#8 → ∃ i j : Fin 8, i ≤ j ∧ v.getLsbD i = true ∧
      (Crc.run genPoly 0#16 (bits [.ofBitVec v, 0, 0])).getLsbD j = true := by
    decide +kernel
  have hlin := @Crc.run_xor 16 genPoly 0#16 0#16 (bits [a, 0, 0]) (bits [0, b, c]) rfl
  have hsum : List.zipWith (· ^^^ ·) [a, 0, 0] [0, b, c] = [a, b, c] := by simp
  have htail : Crc.run genPoly 0#16 (bits [0, b, c]) =
      b.toBitVec.setWidth 16 <<< 8 ||| c.toBitVec.setWidth 16 := by
    have htwo := run_two (b.toBitVec.setWidth 16 <<< 8 ||| c.toBitVec.setWidth 16)
    rw [Host.bytesOf, hi_of_swapped, lo_of_swapped] at htwo
    exact htwo
  intro h0
  rw [← bits_xor (by simp), hsum, BitVec.xor_self, h0, htail] at hlin
  have hrem : Crc.run genPoly 0#16 (bits [a, 0, 0]) =
      b.toBitVec.setWidth 16 <<< 8 ||| c.toBitVec.setWidth 16 := (BitVec.xor_eq_zero_iff.mp hlin.symm)
  have ha : a = 0 := by
    by_contra hne
    obtain ⟨i, j, hij, hi, hj⟩ := htable a.toBitVec fun h => hne (UInt8.toBitVec_inj.mp h)
    have hki : k ≤ i := by
      by_contra hlt
      exact Bool.false_ne_true ((hlow i (by omega)).symm.trans hi)
    have hc := hhigh j (Nat.le_trans hki hij) j.isLt
    rw [show UInt8.ofBitVec a.toBitVec = a from rfl, hrem] at hj
    simp [show (j : Nat) < 16 by omega] at hj
    rw [BitVec.getLsbD_eq_getElem j.isLt, hj] at hc
    exact Bool.false_ne_true hc.symm
  subst ha
  refine hne ⟨rfl, ?_, ?_⟩
  · have hb := hi_of_swapped b.toBitVec c.toBitVec
    rw [← hrem] at hb
    exact UInt8.toBitVec_inj.mp hb.symm
  · have hc := lo_of_swapped b.toBitVec c.toBitVec
    rw [← hrem] at hc
    exact UInt8.toBitVec_inj.mp hc.symm

theorem getD_append_zeros (e : List UInt8) (n m : Nat) :
    (e ++ List.replicate n 0).getD m 0 = e.getD m 0 := by
  by_cases hm : m < e.length
  · rw [List.getD_append _ _ _ _ hm]
  · rw [List.getD_append_right _ _ _ _ (Nat.le_of_not_lt hm),
      List.getD_eq_default e _ (Nat.le_of_not_lt hm), List.getD_eq_getElem?_getD,
      List.getElem?_getD_replicate_default_eq]

/-- A burst with the least significant bits first lies in three neighbouring bytes. -/
theorem run_ne_zero_of_lsbFirst {e : List UInt8} {p m : Nat} (hm : e.getD m 0 ≠ 0)
    (hspan : ∀ i, BitOrder.lsbFirst.bitAt e i = true → p ≤ i ∧ i < p + 16) :
    Crc.run genPoly 0#16 (bits e) ≠ 0#16 := by
  have hbit (i : Nat) (hi : ¬ (p ≤ i ∧ i < p + 16)) : BitOrder.lsbFirst.bitAt e i = false := by
    by_contra h
    exact hi (hspan i (by simpa using h))
  have hbyte (i : Nat) (hi : e.getD i 0 ≠ 0) : p / 8 ≤ i ∧ i < p / 8 + 3 := by
    by_contra hout
    exact hi (getD_eq_zero fun j hj => hbit _ (by omega))
  have hat (i j : Nat) (hj : j < 8) :
      BitOrder.lsbFirst.bitAt e (8 * i + j) = (e.getD i 0).toBitVec.getLsbD j := by
    rw [BitOrder.bitAt, Nat.mul_add_div (by decide), Nat.div_eq_of_lt hj, Nat.add_zero,
      Nat.mul_add_mod, Nat.mod_eq_of_lt hj]
    rfl
  have hmlt : m < e.length := by
    by_contra hge
    exact hm (List.getD_eq_default _ _ (by omega))
  have hmq := hbyte m hm
  generalize hq : p / 8 = q at hbyte hmq
  -- zeros behind the message leave room for three bytes
  obtain ⟨x, y, hparts⟩ := Crc.eq_replicate_append (z := 0) (d := e ++ List.replicate 3 0)
    (p := q) (n := 3) fun i hi => hbyte i (by rwa [getD_append_zeros] at hi)
  have hmid : ((e ++ List.replicate 3 0).drop q).take 3 =
      [e.getD q 0, e.getD (q + 1) 0, e.getD (q + 2) 0] := by
    have hlen : (e ++ List.replicate 3 (0 : UInt8)).length = e.length + 3 := by simp
    rw [← getD_append_zeros e 3 q, ← getD_append_zeros e 3 (q + 1), ← getD_append_zeros e 3 (q + 2)]
    generalize e ++ List.replicate 3 0 = l at hlen
    rw [List.drop_eq_getElem_cons (by omega), List.drop_eq_getElem_cons (by omega),
      List.drop_eq_getElem_cons (by omega), List.getD_eq_getElem _ _ (by omega),
      List.getD_eq_getElem _ _ (by omega), List.getD_eq_getElem _ _ (by omega)]
    rfl
  rw [hmid] at hparts
  have hodd : genPoly.getLsbD 0 = true := rfl
  intro h0
  have hrun : Crc.run genPoly 0#16 (bits (e ++ List.replicate 3 0)) = 0#16 := by
    rw [bits_append, Crc.run_append, h0, bits_zeros, Crc.run_zero]
  rw [hparts, bits_append, bits_append, bits_zeros, bits_zeros, Crc.run_append, Crc.run_zero,
    Crc.run_append] at hrun
  refine Crc.run_zeros_ne_zero hodd ?_ _ hrun
  refine run_three_ne_zero (k := p % 8) (fun j hj => ?_) (fun j hj hj8 => ?_) ?_
  · rw [← hat q j (by omega)]
    exact hbit _ (by omega)
  · rw [← hat (q + 2) j hj8]
    exact hbit _ (by omega)
  · rintro ⟨h1, h2, h3⟩
    obtain rfl | rfl | rfl : m = q ∨ m = q + 1 ∨ m = q + 2 := by omega
    · exact hm h1
    · exact hm h2
    · exact hm h3

/-- Messages that differ in a burst leave different remainders. -/
theorem run_ne_zero_of_burst {o : BitOrder} (hlen : bs.length = cs.length) (hne : bs ≠ cs)
    (hburst : Burst o bs cs) (h0 : Crc.run genPoly 0#16 (bits bs) = 0#16) :
    Crc.run genPoly 0#16 (bits cs) ≠ 0#16 := by
  obtain ⟨p, hp⟩ := hburst
  have hspan (i : Nat) (hi : o.bitAt (diff bs cs) i = true) : p ≤ i ∧ i < p + 16 :=
    hp i (by rw [bitAt_diff o hlen] at hi; intro heq; simp [heq] at hi)
  have hsum : Crc.run genPoly 0#16 (bits (diff bs cs)) =
      Crc.run genPoly 0#16 (bits bs) ^^^ Crc.run genPoly 0#16 (bits cs) := by
    rw [diff, bits_xor hlen, ← Crc.run_xor _ _ (by simp [length_bits, hlen]), BitVec.xor_self]
  intro hcs
  rw [h0, hcs, BitVec.xor_self] at hsum
  obtain ⟨m, hm⟩ : ∃ m, (diff bs cs).getD m 0 ≠ 0 := by
    by_contra hall
    refine hne (List.ext_getElem hlen fun i hi hi' => ?_)
    have hz : (diff bs cs).getD i 0 = 0 := by
      by_contra h
      exact hall ⟨i, h⟩
    simpa [diff, List.getD_eq_getElem?_getD, List.getElem?_zipWith, hi, hi'] using hz
  cases o with
  | msbFirst =>
    obtain ⟨j, hj, hbit⟩ := BitOrder.msbFirst.exists_bit hm
    have hat : (bits (diff bs cs)).getD (8 * m + j) false = true := by
      rw [getD_bits, BitOrder.bitAt, Nat.mul_add_div (by decide), Nat.div_eq_of_lt hj, Nat.add_zero,
        Nat.mul_add_mod, Nat.mod_eq_of_lt hj, hbit]
    refine Crc.run_burst_ne_zero rfl (fun i hi => hspan i ?_) ?_ hsum
    · rwa [getD_bits] at hi
    · by_contra hno
      rw [List.getD_eq_getElem?_getD] at hat
      cases hget : (bits (diff bs cs))[8 * m + j]? with
      | none => simp [hget] at hat
      | some b =>
        rw [hget] at hat
        exact hno (hat ▸ List.mem_of_getElem? hget)
  | lsbFirst => exact run_ne_zero_of_lsbFirst hm hspan hsum

/-! ## Damaged blocks -/

/-- What is read differs from what was sent in one byte, or behind the number and its
complement in a burst. -/
structure Damaged (sent read : List UInt8) : Prop where
  length_eq : read.length = sent.length
  ne : read ≠ sent
  kind : (∃ i, ∀ j, j ≠ i → read.getD j 0 = sent.getD j 0) ∨
    (read.take 2 = sent.take 2 ∧ ∃ o, Burst o (sent.drop 2) (read.drop 2))

theorem Intact.run_eq_zero {rest : List UInt8} (hi : Intact rest) :
    Crc.run genPoly 0#16 (bits (rest.drop 2)) = 0#16 := by
  have hlen := hi.length_eq
  have hcrc : (rest.drop 2).drop CHUNK_SZ = crc16ns (payloadOf rest) := by
    rw [← hi.crc, List.drop_drop, List.take_of_length_le]
    rw [List.length_drop, hlen]
    decide
  have hsplit : rest.drop 2 = payloadOf rest ++ crc16ns (payloadOf rest) := by
    rw [← hcrc]
    exact (List.take_append_drop _ _).symm
  rw [hsplit, run_codeword]

theorem Intact.take_two {rest : List UInt8} (hi : Intact rest) :
    rest.take 2 = [blkNumOf rest, complementOf rest] := by
  have hlen := hi.length_eq
  match rest, hlen with
  | _ :: _ :: _, _ => rfl

/-- A message whose only changed byte lies behind the number and its complement differs in
a burst there. -/
theorem burst_of_byte {sent read : List UInt8} {i : Nat}
    (h : ∀ j, j ≠ i → read.getD j 0 = sent.getD j 0) :
    Burst .msbFirst (sent.drop 2) (read.drop 2) := by
  refine ⟨8 * (i - 2), fun k hk => ?_⟩
  by_contra hout
  apply hk
  have hbyte : read.getD (2 + k / 8) 0 = sent.getD (2 + k / 8) 0 := h _ (by omega)
  simp only [List.getD_eq_getElem?_getD] at hbyte
  simp only [BitOrder.bitAt, List.getD_eq_getElem?_getD, List.getElem?_drop, hbyte]

theorem Damaged.not_intact {sent read : List UInt8} (h : Damaged sent read) (hs : Intact sent) :
    ¬ Intact read := by
  intro hr
  obtain ⟨hlen, hne, hkind⟩ := h
  have hsplit (htake : read.take 2 = sent.take 2) : sent.drop 2 ≠ read.drop 2 := by
    intro hdrop
    apply hne
    rw [← List.take_append_drop 2 read, ← List.take_append_drop 2 sent, htake, hdrop]
  have hdetect (htake : read.take 2 = sent.take 2) {o : BitOrder}
      (hb : Burst o (sent.drop 2) (read.drop 2)) : False :=
    run_ne_zero_of_burst (by simp [hlen]) (hsplit htake) hb hs.run_eq_zero hr.run_eq_zero
  rcases hkind with ⟨i, hi⟩ | ⟨htake, o, hb⟩
  · have hblk : i ≠ 0 → blkNumOf read = blkNumOf sent := fun h => hi 0 (Ne.symm h)
    have hcomp : i ≠ 1 → complementOf read = complementOf sent := fun h => hi 1 (Ne.symm h)
    have hmatched : blkNumOf read = blkNumOf sent ↔ complementOf read = complementOf sent := by
      rw [hr.matched, hs.matched, UInt8.not_inj]
    have hnum : blkNumOf read = blkNumOf sent := by
      by_cases h0 : i = 0
      · exact hmatched.mpr (hcomp (by omega))
      · exact hblk h0
    have htake : read.take 2 = sent.take 2 := by
      rw [hr.take_two, hs.take_two, hnum, hmatched.mp hnum]
    exact hdetect htake (burst_of_byte hi)
  · exact hdetect htake hb

end YModem.Peer
