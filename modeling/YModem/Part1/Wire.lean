import YModem.Part1.Sender
import YModem.Session.StatBlk

/-!
# The blocks of Part 1 and those of the library

The library stores the most significant byte of the checksum first on every host. Part 1
swaps the bytes with `htons` and then stores them by weight, so on a little-endian host the
least significant one comes first.
-/

namespace YModem.Part1

open YModem.Lib YModem.Peer YModem.SmartState
open YModem.Sender (Blk File filename Fits)
open YModem.Session (statData)

/-! ## The checksum -/

/-- The bytes of the block behind its SOH, as Part 1 sends them. -/
def restOn (h : Host) (num : UInt8) (payload : List UInt8) : List UInt8 :=
  num :: ~~~num :: (payload ++ crcBytes h payload)

/-- The order of the two bytes of the checksum does not show. -/
def OrderHidden (h : Host) (payload : List UInt8) : Prop :=
  h = .big ∨ (Peer.crc16ns payload).getD 0 0 = (Peer.crc16ns payload).getD 1 0

instance (h : Host) (payload : List UInt8) : Decidable (OrderHidden h payload) :=
  inferInstanceAs (Decidable (_ ∨ _))

section Checksum

variable {h : Host} {payload : List UInt8}

@[simp] theorem crcBytes_length : (crcBytes h payload).length = 2 := rfl

/-! The byte lanes of a number of 16 bits. -/

private theorem low_byte (n : BitVec 16) : (n &&& 0xFF).setWidth 8 = n.setWidth 8 := by
  have hmask : (0xFF : BitVec 16).setWidth 8 = BitVec.allOnes 8 := by decide
  rw [BitVec.setWidth_and, hmask, BitVec.and_allOnes]

private theorem swap_high (n : BitVec 16) :
    (((n <<< 8) ||| (n >>> 8)) >>> 8).setWidth 8 = n.setWidth 8 := by
  ext i hi
  have hout : n.getLsbD (8 + (8 + i)) = false := BitVec.getLsbD_of_ge n _ (by omega)
  have hin : i < 16 := by omega
  have h16 : 8 + i < 16 := by omega
  have hlo : ¬ 8 + i < 8 := by omega
  simp [h16, hlo, hout, BitVec.getLsbD_eq_getElem hin]

private theorem swap_low (n : BitVec 16) :
    ((n <<< 8) ||| (n >>> 8)).setWidth 8 = (n >>> 8).setWidth 8 := by
  ext i hi
  simp

/-- On a little-endian host the two bytes are swapped. -/
theorem crcBytes_eq : crcBytes h payload =
    match h with
    | .little => (Peer.crc16ns payload).reverse
    | .big => Peer.crc16ns payload := by
  have hns : Peer.crc16ns payload = Host.big.bytesOf (oldcrc payload) :=
    bytesOf_myHtons .little (oldcrc payload)
  rw [hns]
  cases h with
  | little => simp only [crcBytes, crc16ns, htons, low_byte, swap_high, swap_low]; rfl
  | big => simp only [crcBytes, crc16ns, htons, low_byte]; rfl

theorem crcBytes_eq_iff : crcBytes h payload = Peer.crc16ns payload ↔ OrderHidden h payload := by
  obtain ⟨hi, lo, hns⟩ : ∃ hi lo, Peer.crc16ns payload = [hi, lo] := ⟨_, _, rfl⟩
  rw [crcBytes_eq, OrderHidden, hns]
  cases h with
  | little =>
    simp only [List.reverse_cons, List.reverse_nil, List.nil_append, List.cons_append,
      List.getD_cons_zero, List.getD_cons_succ]
    constructor
    · intro heq
      exact .inr (List.cons.inj heq).1.symm
    · rintro (hbig | heq)
      · cases hbig
      · rw [heq]
  | big => simp

end Checksum

/-! ## The blocks -/

section Blocks

variable {h : Host} {blkNum : UInt8} {bytes fileName : List UInt8} {st_size : Nat}

/-- A data block of Part 1. -/
theorem genBlk_spec (blkBuf : Blk) (hlen : bytes.length ≤ CHUNK_SZ) :
    ∃ blk, genBlk h blkBuf blkNum bytes = .ok blk ∧
      blk.val = SOH :: restOn h blkNum (padded CTRL_Z bytes) := by
  obtain ⟨b₁, b₂, b₃, b₄, b₅, h₁, h₂, h₃, h₄, h₅, crc, hv, hcrc⟩ := blkBuf.store_data blkNum hlen
  obtain ⟨hchunk, blk, hs, hb⟩ := b₅.store_behind hv (length_padded hlen) hcrc
    (@crcBytes_length h (padded CTRL_Z bytes))
  refine ⟨blk, ?_, hb⟩
  rw [genBlk, h₁, ok_bind, h₂, ok_bind, h₃, ok_bind, h₄, ok_bind]
  by_cases hshort : bytes.length < CHUNK_SZ
  · rw [Nat.add_comm] at h₅
    simp only [if_pos hshort, h₅, ok_bind, hchunk]
    exact hs
  · -- the store of no byte at all, which the code does not make
    have hfull : CHUNK_SZ - bytes.length = 0 := by omega
    have hsame : b₄ = b₅ := by
      rw [hfull, List.replicate_zero, Blk.store] at h₅
      split_ifs at h₅
      rw [← Except.ok.inj h₅, Subtype.ext_iff]
      exact (overwrite_nil _ _).symm
    simp only [if_neg hshort, hsame, ok_bind, hchunk]
    exact hs

/-- A number has no fewer digits than a smaller one. -/
theorem length_decimal_le {m n : Nat} (hle : m ≤ n) : (decimal m).length ≤ (decimal n).length := by
  induction n using Nat.strong_induction_on generalizing m with
  | _ n ih =>
    rw [decimal_eq m, decimal_eq n]
    by_cases hm : m < 10
    · rw [if_pos hm]
      simp
    · have hn : ¬ n < 10 := by omega
      have hrec := ih (n / 10) (by omega) (Nat.div_le_div_right hle : m / 10 ≤ n / 10)
      rw [if_neg hm, if_neg hn, List.length_append, List.length_append]
      simpa using hrec

theorem strncpy_eq {src : List UInt8} {n : Nat} (hle : src.length ≤ n) :
    strncpy src n = src ++ List.replicate (n - src.length) 0 := by
  rw [strncpy, List.take_of_length_le hle]

/-- Zeros behind a text, taken apart as `statData` has them. -/
private theorem zeros_split {k n : Nat} (hn : n = k + 3) :
    List.replicate n (0 : UInt8) = 0 :: (List.replicate k 0 ++ [0, 0]) := by
  rw [hn, List.replicate_succ, List.replicate_add k 2]
  rfl

/-- The name, its NUL and the digits, written with their zeros over the cleared block behind its
first three bytes. -/
private theorem overwrite_texts {name digits : List UInt8}
    (hfits : name.length + digits.length + 2 ≤ CHUNK_SZ) :
    overwrite (overwrite (overwrite (List.replicate 130 0) 0
        (name ++ List.replicate (BLK_SZ_CRC - 3 - name.length) 0)) name.length [0]) (name.length + 1)
      (digits ++ List.replicate (BLK_SZ_CRC - (name.length + 4) - digits.length) 0) =
    name ++ 0 :: (digits ++ 0 ::
      (List.replicate (CHUNK_SZ - (name.length + digits.length + 2)) 0 ++ [0, 0])) := by
  have hsz : CHUNK_SZ = 128 := rfl
  have hbsz : BLK_SZ_CRC = 133 := rfl
  have hname : overwrite (List.replicate 130 (0 : UInt8)) 0
      (name ++ List.replicate (BLK_SZ_CRC - 3 - name.length) 0) =
      name ++ 0 :: List.replicate (129 - name.length) 0 := by
    rw [overwrite_all (by rw [List.length_append, List.length_replicate, List.length_replicate]; omega),
      show BLK_SZ_CRC - 3 - name.length = 129 - name.length + 1 by omega, List.replicate_succ]
  have hnul : overwrite (name ++ 0 :: List.replicate (129 - name.length) (0 : UInt8)) name.length [0] =
      name ++ 0 :: List.replicate (129 - name.length) 0 := by
    simp [overwrite]
  have hdigits := @overwrite_append_right UInt8 (name ++ [0]) (List.replicate (129 - name.length) 0)
    (digits ++ List.replicate (BLK_SZ_CRC - (name.length + 4) - digits.length) 0) (by
      rw [List.length_append, List.length_replicate, List.length_replicate]
      omega)
  rw [List.length_append, List.length_singleton, ← List.append_cons] at hdigits
  rw [hname, hnul, hdigits, @zeros_split (CHUNK_SZ - (name.length + digits.length + 2)) _ (by omega)]
  simp

/-- The stores of a stat block before its checksum, with the size cut to an `unsigned`. -/
theorem store_stat (blkNum : UInt8) (hfits : Fits fileName (st_size % UINT_RANGE)) :
    ∃ b₁ b₂ b₃ b₄ b₅ b₆, Blk.blank.store 0 [SOH] = .ok b₁ ∧ b₁.store 1 [blkNum] = .ok b₂ ∧
      b₂.store 2 [~~~blkNum] = .ok b₃ ∧
      b₃.store 3 (strncpy (filename fileName) (BLK_SZ_CRC - 3)) = .ok b₄ ∧
      b₄.store (3 + (filename fileName).length) [0] = .ok b₅ ∧
      b₅.store ((filename fileName).length + 4) (strncpy (decimal (st_size % UINT_RANGE))
        (BLK_SZ_CRC - ((filename fileName).length + 4))) = .ok b₆ ∧
      b₆.val = SOH :: blkNum :: ~~~blkNum ::
        (statData fileName (st_size % UINT_RANGE) ++ [0, 0]) := by
  have hsz : CHUNK_SZ = 128 := rfl
  have hbsz : BLK_SZ_CRC = 133 := rfl
  rw [Fits] at hfits
  rw [statData]
  generalize filename fileName = name at hfits ⊢
  generalize decimal (st_size % UINT_RANGE) = digits at hfits ⊢
  rw [strncpy_eq (by omega), strncpy_eq (by omega)]
  obtain ⟨b₁, h₁, hv₁⟩ := Blk.blank.store_ok 0 [SOH] (by decide)
  obtain ⟨b₂, h₂, hv₂⟩ := b₁.store_ok 1 [blkNum] (show 1 + 1 ≤ BLK_SZ_CRC by decide)
  obtain ⟨b₃, h₃, hv₃⟩ := b₂.store_ok 2 [~~~blkNum] (show 2 + 1 ≤ BLK_SZ_CRC by decide)
  obtain ⟨b₄, h₄, hv₄⟩ := b₃.store_ok 3 (name ++ List.replicate (BLK_SZ_CRC - 3 - name.length) 0) (by
    rw [List.length_append, List.length_replicate]
    omega)
  obtain ⟨b₅, h₅, hv₅⟩ := b₄.store_ok (3 + name.length) [0] (by
    rw [List.length_singleton]
    omega)
  obtain ⟨b₆, h₆, hv₆⟩ := b₅.store_ok (name.length + 4)
    (digits ++ List.replicate (BLK_SZ_CRC - (name.length + 4) - digits.length) 0) (by
    rw [List.length_append, List.length_replicate]
    omega)
  refine ⟨b₁, b₂, b₃, b₄, b₅, b₆, h₁, h₂, h₃, h₄, h₅, h₆, ?_⟩
  have hblank : Blk.blank.val = 0 :: 0 :: 0 :: List.replicate 130 0 := rfl
  rw [hv₆, hv₅, hv₄, hv₃, hv₂, hv₁, hblank, show 3 + name.length = name.length + 1 + 1 + 1 by omega]
  simp only [overwrite_cons_succ, overwrite_cons_zero, overwrite_texts hfits]
  simp only [List.append_assoc, List.cons_append]

/-- The size that is sent needs no more digits than the size of the file. -/
theorem fits_mod (hfits : Fits fileName st_size) : Fits fileName (st_size % UINT_RANGE) := by
  have hdig := length_decimal_le (Nat.mod_le st_size UINT_RANGE)
  rw [Fits] at hfits ⊢
  omega

theorem fits_nil (st_size : Nat) : Fits [] (st_size % UINT_RANGE) := by
  have hlt : st_size % UINT_RANGE ≤ 4294967295 :=
    Nat.le_of_lt_succ (Nat.mod_lt st_size (by decide : 0 < UINT_RANGE))
  have hten : (decimal 4294967295).length = 10 := by decide
  have hdig := length_decimal_le hlt
  have hsz : CHUNK_SZ = 128 := rfl
  have hname : (filename []).length = 0 := rfl
  rw [Fits]
  omega

/-- A stat block of Part 1 that names a file. -/
theorem genStatBlk_spec (blkNum : UInt8) (hfits : Fits fileName (st_size % UINT_RANGE)) :
    ∃ blk, genStatBlk h blkNum fileName st_size false = .ok blk ∧
      blk.val = SOH :: restOn h blkNum (statData fileName (st_size % UINT_RANGE)) := by
  obtain ⟨b₁, b₂, b₃, b₄, b₅, b₆, h₁, h₂, h₃, h₄, h₅, h₆, hv⟩ := store_stat blkNum hfits
  obtain ⟨hchunk, blk, hs, hb⟩ := b₆.store_behind hv (Session.length_statData hfits) rfl
    (@crcBytes_length h (statData fileName (st_size % UINT_RANGE)))
  refine ⟨blk, ?_, hb⟩
  rw [genStatBlk, h₁, ok_bind, h₂, ok_bind, h₃, ok_bind]
  simp only [h₄, ok_bind, h₅, h₆, hchunk]
  exact hs

/-- The chunk that is cleared after its checksum has been computed. -/
theorem genStatBlk_cleared (blkNum : UInt8) (st_size : Nat) :
    ∃ blk, genStatBlk h blkNum [] st_size true = .ok blk ∧
      blk.val = SOH :: blkNum :: ~~~blkNum :: (List.replicate CHUNK_SZ 0 ++ [0, 0]) := by
  have hfits := fits_nil st_size
  obtain ⟨b₁, b₂, b₃, b₄, b₅, b₆, h₁, h₂, h₃, h₄, h₅, h₆, hv⟩ := store_stat blkNum hfits
  have hlen := Session.length_statData hfits
  have hzeros : (List.replicate CHUNK_SZ (0 : UInt8)).length = CHUNK_SZ := List.length_replicate
  rw [genStatBlk, h₁, ok_bind, h₂, ok_bind, h₃, ok_bind]
  generalize List.replicate CHUNK_SZ (0 : UInt8) = zeros at hzeros ⊢
  obtain ⟨blk, hs, hb⟩ := b₆.store_ok 3 zeros (by
    rw [hzeros]
    decide)
  refine ⟨blk, ?_, ?_⟩
  · simp only [h₄, ok_bind, h₅, h₆]
    exact hs
  · have hleft := @overwrite_append_left UInt8 (statData [] (st_size % UINT_RANGE)) [0, 0] 0 zeros
      (by omega)
    rw [@overwrite_all UInt8 (statData [] (st_size % UINT_RANGE)) zeros (by omega)] at hleft
    rw [hb, hv]
    simp only [overwrite_cons_succ, hleft]

/-! ## Both implementations on one input -/

/-- Blocks with the same number. -/
theorem restOn_eq_iff {payload payload' : List UInt8} (hlen : payload.length = payload'.length) :
    restOn h blkNum payload = restOf blkNum payload' ↔
      payload = payload' ∧ OrderHidden h payload := by
  rw [← crcBytes_eq_iff]
  constructor
  · intro heq
    obtain ⟨hp, hcrc⟩ := List.append_inj (List.cons.inj (List.cons.inj heq).2).2 hlen
    exact ⟨hp, hp ▸ hcrc⟩
  · rintro ⟨rfl, hcrc⟩
    rw [restOn, hcrc]
    rfl

/-- What the size of a stat block can be read from. -/
theorem statData_injective {m n : Nat} (heq : statData fileName m = statData fileName n) : m = n := by
  have hdig := (List.cons.inj (List.append_cancel_left heq)).2
  have htext := congrArg cString hdig
  rw [cString_append_nul (nul_notMem_decimal m), cString_append_nul (nul_notMem_decimal n)] at htext
  rw [← valueOf_decimal m, Option.some.inj htext, valueOf_decimal]

/-- A stat block, whose digits are those of the size modulo 2 ^ 32. -/
theorem restOn_statData_iff (hfits : Fits fileName st_size) :
    restOn h 0 (statData fileName (st_size % UINT_RANGE)) = restOf 0 (statData fileName st_size) ↔
      st_size < UINT_RANGE ∧ OrderHidden h (statData fileName st_size) := by
  have hlen := (Session.length_statData (fits_mod hfits)).trans (Session.length_statData hfits).symm
  rw [restOn_eq_iff hlen]
  constructor
  · intro ⟨hdata, hhidden⟩
    rw [hdata] at hhidden
    exact ⟨(Nat.mod_eq_iff_lt (by decide)).mp (statData_injective hdata), hhidden⟩
  · intro ⟨hlt, hhidden⟩
    rw [Nat.mod_eq_of_lt hlt]
    exact ⟨rfl, hhidden⟩

end Blocks

/-- The two `genBlk` build the same block, and the receiver takes its checksum. -/
def DataBlkAgrees (h : Host) (blkNum : UInt8) (bytes : List UInt8) : Prop :=
  ∀ blkBuf libBuf : Blk, ∃ blk, genBlk h blkBuf blkNum bytes = .ok blk ∧
    libBuf.genBlk blkNum bytes = .ok blk ∧ Intact blk.val.tail

/-- The two `genStatBlk` build the same block, and the receiver takes its checksum. -/
def StatBlkAgrees (h : Host) (fileName : List UInt8) (st_size : Nat) : Prop :=
  ∀ libBuf : Blk, ∃ blk, genStatBlk h 0 fileName st_size false = .ok blk ∧
    libBuf.genStatBlk fileName st_size = .ok blk ∧ Intact blk.val.tail

/-- The same for the stat block that ends the batch. -/
def LastStatBlkAgrees (h : Host) (merged : Bool) (st_size : Nat) : Prop :=
  ∀ libBuf : Blk, ∃ blk, genStatBlk h 0 [] st_size merged = .ok blk ∧
    libBuf.genStatBlk [] 0 = .ok blk ∧ Intact blk.val.tail

section Agreement

variable {h : Host} {blkNum : UInt8} {bytes fileName : List UInt8} {st_size : Nat}

/-- A block of each side: they are one block exactly when the bytes behind the SOH are those of
the library. -/
theorem same_blk_iff {x y : Except Fault Blk} {rest payload : List UInt8} {num : UInt8}
    (hx : ∃ blk, x = .ok blk ∧ blk.val = SOH :: rest)
    (hy : ∃ blk, y = .ok blk ∧ blk.val = SOH :: restOf num payload)
    (hlen : payload.length = CHUNK_SZ) :
    (∃ blk, x = .ok blk ∧ y = .ok blk ∧ Intact blk.val.tail) ↔ rest = restOf num payload := by
  obtain ⟨blk₁, h₁, hv₁⟩ := hx
  obtain ⟨blk₂, h₂, hv₂⟩ := hy
  constructor
  · rintro ⟨blk, hx', hy', -⟩
    cases h₁.symm.trans hx'
    cases h₂.symm.trans hy'
    exact (List.cons.inj (hv₁.symm.trans hv₂)).2
  · intro hrest
    have hsame : blk₁ = blk₂ := Subtype.ext (by rw [hv₁, hv₂, hrest])
    refine ⟨blk₁, h₁, hsame ▸ h₂, ?_⟩
    rw [hv₁, List.tail_cons, hrest]
    exact restOf_intact num hlen

theorem dataBlkAgrees_iff (hne : bytes ≠ []) (hlen : bytes.length ≤ CHUNK_SZ) :
    DataBlkAgrees h blkNum bytes ↔ OrderHidden h (padded CTRL_Z bytes) := by
  have hsame (blkBuf libBuf : Blk) := same_blk_iff (@genBlk_spec h blkNum bytes blkBuf hlen)
    (libBuf.genBlk_spec blkNum hne hlen) (length_padded hlen)
  have hrest := @restOn_eq_iff h blkNum (padded CTRL_Z bytes) _ rfl
  constructor
  · intro hagree
    exact (hrest.mp ((hsame .blank .blank).mp (hagree .blank .blank))).2
  · intro hhidden blkBuf libBuf
    exact (hsame blkBuf libBuf).mpr (hrest.mpr ⟨rfl, hhidden⟩)

theorem statBlkAgrees_iff (hne : fileName ≠ []) (hfits : Fits fileName st_size) :
    StatBlkAgrees h fileName st_size ↔
      st_size < UINT_RANGE ∧ OrderHidden h (statData fileName st_size) := by
  have hlib (libBuf : Blk) : ∃ blk, libBuf.genStatBlk fileName st_size = .ok blk ∧
      blk.val = SOH :: restOf 0 (statData fileName st_size) := by
    rw [Session.statData_eq]
    exact libBuf.genStatBlk_named hne hfits
  have hsame (libBuf : Blk) := same_blk_iff (@genStatBlk_spec h fileName st_size 0 (fits_mod hfits))
    (hlib libBuf) (Session.length_statData hfits)
  rw [← restOn_statData_iff hfits]
  constructor
  · intro hagree
    exact (hsame .blank).mp (hagree .blank)
  · intro hrest libBuf
    exact (hsame libBuf).mpr hrest

set_option maxRecDepth 4000 in
/-- The checksum of a chunk of zeros is zero. -/
theorem crc16ns_zeros : Peer.crc16ns (List.replicate CHUNK_SZ 0) = [0, 0] := by
  decide +kernel

/-- The digits of a size are not zeros, so they show in a chunk that is not cleared. -/
theorem statData_nil_ne_zeros (n : Nat) : statData [] n ≠ List.replicate CHUNK_SZ 0 := by
  intro heq
  obtain ⟨d, ds, hdec⟩ := List.exists_cons_of_ne_nil (decimal_ne_nil n)
  have hmem : d ∈ statData [] n := by
    rw [statData, hdec]
    simp
  rw [heq] at hmem
  apply nul_notMem_decimal n
  rw [hdec, ← List.eq_of_mem_replicate hmem]
  exact List.mem_cons_self

theorem lastStatBlkAgrees_iff {merged : Bool} :
    LastStatBlkAgrees h merged st_size ↔ merged = true := by
  have hlib (libBuf : Blk) : ∃ blk, libBuf.genStatBlk [] 0 = .ok blk ∧
      blk.val = SOH :: restOf 0 (List.replicate CHUNK_SZ 0) := libBuf.genStatBlk_empty 0
  have hcleared := @genStatBlk_cleared h 0 st_size
  have hzeros : (List.replicate CHUNK_SZ (0 : UInt8)).length = CHUNK_SZ := List.length_replicate
  have hcrc := crc16ns_zeros
  have hdata := statData_nil_ne_zeros (st_size % UINT_RANGE)
  generalize List.replicate CHUNK_SZ (0 : UInt8) = zeros at hlib hcleared hzeros hcrc hdata
  cases merged with
  | false =>
    have hlen := Session.length_statData (fits_nil st_size)
    have hsame := same_blk_iff (@genStatBlk_spec h [] st_size 0 (fits_nil st_size)) (hlib .blank) hzeros
    have hne : ¬ LastStatBlkAgrees h false st_size := by
      intro hagree
      apply hdata
      exact ((restOn_eq_iff (hlen.trans hzeros.symm)).mp (hsame.mp (hagree .blank))).1
    simp [hne]
  | true =>
    have hsame (libBuf : Blk) := same_blk_iff hcleared (hlib libBuf) hzeros
    refine ⟨fun _ => rfl, fun _ libBuf => (hsame libBuf).mpr ?_⟩
    rw [restOf, hcrc]

/-- The two senders agree on a data block when the order of its checksum does not show, on a
stat block when the size is also below 2 ^ 32, and on the last one when the two literals are
one object. -/
theorem wire_agreement_iff (h : Host) (merged : Bool) :
    (∀ blkNum bytes, bytes ≠ [] → bytes.length ≤ CHUNK_SZ →
      (DataBlkAgrees h blkNum bytes ↔ OrderHidden h (padded CTRL_Z bytes))) ∧
    (∀ fileName st_size, fileName ≠ [] → Fits fileName st_size →
      (StatBlkAgrees h fileName st_size ↔
        st_size < UINT_RANGE ∧ OrderHidden h (statData fileName st_size))) ∧
    ∀ st_size, LastStatBlkAgrees h merged st_size ↔ merged = true := by
  refine ⟨?_, ?_, ?_⟩
  · intro blkNum bytes hne hlen
    exact dataBlkAgrees_iff hne hlen
  · intro fileName st_size hne hfits
    exact statBlkAgrees_iff hne hfits
  · intro st_size
    exact lastStatBlkAgrees_iff

set_option maxRecDepth 4000 in
/-- Chunks and stat blocks on hosts of both byte orders; one of the checksums has its two bytes
equal. -/
theorem wire_agreement_hosts :
    (DataBlkAgrees .big 1 [97] ∧ DataBlkAgrees .little 1 [97, 76]) ∧
    (StatBlkAgrees .big [97] 45 ∧ StatBlkAgrees .little [97] 46 ∧ ¬ StatBlkAgrees .little [97] 45) ∧
    LastStatBlkAgrees .little true 46 ∧ ¬ LastStatBlkAgrees .little false 46 := by
  have hbig := wire_agreement_iff .big true
  have hlittle := wire_agreement_iff .little true
  refine ⟨⟨?_, ?_⟩, ⟨?_, ?_, ?_⟩, ?_, ?_⟩
  · exact (hbig.1 1 [97] (by decide) (by decide)).mpr (.inl rfl)
  · refine (hlittle.1 1 [97, 76] (by decide) (by decide)).mpr ?_
    decide +kernel
  · exact (hbig.2.1 [97] 45 (by decide) (by decide)).mpr ⟨by decide, .inl rfl⟩
  · refine (hlittle.2.1 [97] 46 (by decide) (by decide)).mpr ?_
    decide +kernel
  · rw [hlittle.2.1 [97] 45 (by decide) (by decide)]
    decide +kernel
  · exact (hlittle.2.2 46).mpr rfl
  · rw [(wire_agreement_iff .little false).2.2 46]
    decide

set_option maxRecDepth 4000 in
/-- A chunk of one byte on a little-endian host. -/
theorem little_endian_block_differs : ¬ DataBlkAgrees .little 1 [97] := by
  rw [dataBlkAgrees_iff (by decide) (by decide)]
  decide +kernel

end Agreement

/-! ## What a batch writes -/

/-- The block of a file with number `k`, as Part 1 sends it. -/
def blkOn (h : Host) (f : File) : Nat → List UInt8
  | 0 => SOH :: restOn h 0 (statData f.name (f.contents.length % UINT_RANGE))
  | k + 1 => SOH :: restOn h (UInt8.ofNat (k + 1)) (padded CTRL_Z (f.chunk k))

/-- The blocks of a file and two EOTs. -/
def fileOn (h : Host) (f : File) : List (List UInt8) :=
  (List.range (f.numChunks + 1)).map (blkOn h f) ++ [[EOT], [EOT]]

/-- The blocks with numbers below `k + 1` have been written, and the next one is prepared. -/
structure Reading (h : Host) (f : File) (before : List (List UInt8)) (k : Nat) (s : SenderY) :
    Prop where
  blkNum : s.blkNum = UInt8.ofNat (k + 1)
  bytesRd : s.bytesRd = (f.chunk k).length
  unread : s.unread = f.contents.drop (CHUNK_SZ * (k + 1))
  next : s.blkBuf.val = blkOn h f (k + 1)
  written : s.written = before ++ (List.range (k + 1)).map (blkOn h f)

section Run

variable {h : Host} {f : File} {before : List (List UInt8)} {k : Nat} {s : SenderY}

theorem genBlk_reading (hnum : s.blkNum = UInt8.ofNat (k + 1))
    (hunread : s.unread = f.contents.drop (CHUNK_SZ * k))
    (hwritten : s.written = before ++ (List.range (k + 1)).map (blkOn h f)) :
    ∃ s', s.genBlk h = .ok s' ∧ Reading h f before k s' := by
  have hchunk : s.unread.take CHUNK_SZ = f.chunk k := by rw [hunread, File.chunk]
  obtain ⟨blk, hg, hv⟩ := @genBlk_spec h s.blkNum (f.chunk k) s.blkBuf (f.length_chunk_le k)
  have heq : s.genBlk h = .ok { s with
      bytesRd := (f.chunk k).length
      unread := s.unread.drop CHUNK_SZ
      blkBuf := blk } := by
    rw [SenderY.genBlk, hchunk, hg]
    rfl
  refine ⟨_, heq, ?_⟩
  constructor
  case blkNum => exact hnum
  case bytesRd => rfl
  case unread => rw [hunread, List.drop_drop, Nat.mul_add, Nat.mul_one]
  case next =>
    rw [hv, hnum]
    rfl
  case written => exact hwritten

/-- The rest of a file, by the number of its chunks. -/
theorem sendBlks_written {fuel : Nat} (hr : Reading h f before k s) (hk : k ≤ f.numChunks)
    (hfuel : f.numChunks ≤ k + fuel) : ∃ s', s.sendBlks h fuel = .ok s' ∧
      s'.written = before ++ (List.range (f.numChunks + 1)).map (blkOn h f) := by
  induction fuel generalizing k s with
  | zero =>
    have heq : f.numChunks = k := by omega
    have hend : s.bytesRd = 0 := by
      rw [hr.bytesRd, f.length_chunk_eq_zero_iff]
      omega
    refine ⟨s, by rw [SenderY.sendBlks, if_pos hend], ?_⟩
    rw [hr.written, heq]
  | succ fuel ih =>
    rw [SenderY.sendBlks]
    by_cases hend : s.bytesRd = 0
    · have heq : f.numChunks = k := by
        rw [hr.bytesRd, f.length_chunk_eq_zero_iff] at hend
        omega
      refine ⟨s, if_pos hend, ?_⟩
      rw [hr.written, heq]
    · have hlt : k < f.numChunks := by
        rw [hr.bytesRd, f.length_chunk_eq_zero_iff] at hend
        omega
      obtain ⟨s', hg, hr'⟩ := @genBlk_reading h f before (k + 1)
        (SenderY.write { s with blkNum := s.blkNum + 1 } s.blkBuf.val)
        (by rw [SenderY.write_blkNum, hr.blkNum, ← Sender.ofNat_succ])
        hr.unread
        (by
          rw [SenderY.write_written, hr.written, hr.next, List.append_assoc, ← List.map_singleton,
            ← List.map_append, ← List.range_succ])
      obtain ⟨s'', hs, hw⟩ := ih hr' hlt (by omega)
      refine ⟨s'', ?_, hw⟩
      simp only [if_neg hend, hg, ok_bind]
      exact hs

/-- A batch of files that open: their blocks in order, numbered from 0 on modulo 256, and the
stat block that ends it. -/
theorem sendFiles_written {merged : Bool} {st_size : Nat} {files : List (File × Int)}
    (hopen : ∀ f ∈ files, f.2 ≠ -1)
    (hfits : ∀ f ∈ files, Fits f.1.name (f.1.contents.length % UINT_RANGE)) (s : SenderY) :
    ∃ s' last, s.sendFiles h merged st_size files = .ok s' ∧
      genStatBlk h 0 [] st_size merged = .ok last ∧
      s'.written = s.written ++ files.flatMap (fun f => fileOn h f.1) ++ [last.val] := by
  induction files generalizing s with
  | nil =>
    obtain ⟨last, hlast⟩ : ∃ last, genStatBlk h 0 [] st_size merged = .ok last := by
      cases merged with
      | false => exact (genStatBlk_spec 0 (fits_nil st_size)).imp fun _ hb => hb.1
      | true => exact (genStatBlk_cleared 0 st_size).imp fun _ hb => hb.1
    refine ⟨_, last, by rw [SenderY.sendFiles, SenderY.statBlk, hlast]; rfl, hlast, ?_⟩
    simp [SenderY.write]
  | cons f files ih =>
    obtain ⟨file, fd⟩ := f
    have hfd : fd ≠ -1 := hopen _ List.mem_cons_self
    obtain ⟨blk, hg, hv⟩ := @genStatBlk_spec h file.name file.contents.length 0
      (hfits _ List.mem_cons_self)
    obtain ⟨s₁, hs₁, hr⟩ := @genBlk_reading h file s.written 0
      (SenderY.write { s with transferringFileD := fd, unread := file.contents, blkBuf := blk, blkNum := 1 }
        blk.val) rfl rfl (by rw [SenderY.write_written, hv]; rfl)
    have hfuel : file.numChunks ≤ 0 + (file.contents.length + 1) := by
      have hsz : CHUNK_SZ = 128 := rfl
      simp only [File.numChunks, hsz]
      omega
    obtain ⟨s₂, hs₂, hw₂⟩ := sendBlks_written hr (Nat.zero_le _) hfuel
    obtain ⟨s', last, hs', hlast, hw'⟩ := ih (fun f hf => hopen f (List.mem_cons_of_mem _ hf))
      (fun f hf => hfits f (List.mem_cons_of_mem _ hf))
      { (s₂.write [EOT]).write [EOT] with result := s₂.result ++ "Done, " }
    refine ⟨s', last, ?_, hlast, ?_⟩
    · rw [SenderY.sendFiles]
      have hstat : SenderY.statBlk h file.name file.contents.length false
          { s with transferringFileD := fd, unread := file.contents } = .ok (SenderY.write { s with
            transferringFileD := fd, unread := file.contents, blkBuf := blk, blkNum := 1 } blk.val) := by
        rw [SenderY.statBlk]
        simp only [hg, ok_bind]
        rfl
      simp only [if_neg hfd, hstat, ok_bind, hs₁, hs₂]
      exact hs'
    · rw [hw']
      simp only [SenderY.write_written, hw₂, fileOn, List.flatMap_cons, List.append_assoc,
        List.cons_append, List.nil_append]

/-- The blocks of a file on the wire are those of the library where both agree on them. -/
theorem blkOn_eq_blk_iff (hfits : Fits f.name f.contents.length) :
    (blkOn h f 0 = f.blk 0 ↔ f.contents.length < UINT_RANGE ∧
      OrderHidden h (statData f.name f.contents.length)) ∧
    ∀ k, blkOn h f (k + 1) = f.blk (k + 1) ↔ OrderHidden h (padded CTRL_Z (f.chunk k)) := by
  constructor
  · rw [blkOn, File.blk, ← Session.statData_eq, List.cons_inj_right, restOn_statData_iff hfits]
  · intro k
    rw [blkOn, File.blk, List.cons_inj_right, restOn_eq_iff rfl]
    simp

end Run

end YModem.Part1
