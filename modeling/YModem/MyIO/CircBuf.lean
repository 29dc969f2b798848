import YModem.Lib.Fifo
import YModem.Lib.Ring
import YModem.MyIO.Counters
import YModem.Peer.Timeout

/-!
# The circular buffer (`RageUtil_CircularBuffer.h`)

The `CircBuf` with which `myIO.cpp` replaces the socket pair when `CIRCBUF` is defined. `buf` is
the array by its cells, and a pointer into it the index of a cell. A call that would leave the
array, or divide by zero, is `none`.
-/

namespace YModem.MyIO

open YModem.Lib YModem.Peer

structure CircBuf (α : Type) where
  buf : List α
  size : Nat
  m_iBlockSize : Nat
  read_pos : Nat
  write_pos : Nat

/-- Two ranges of cells. The second pointer may be `nullptr`. -/
structure Pointers where
  first : Int
  second : Option Int
  pSizes : Nat × Nat

/-- `memcpy` of `n` elements into the array, from the cell `p` on. -/
def storeCells {α : Type} (cells : List α) (p : Option Int) (src : List α) (n : Int) :
    Option (List α) :=
  match p with
  | some p =>
    if 0 ≤ p ∧ 0 ≤ n ∧ p + n ≤ cells.length ∧ n ≤ src.length then
      some (overwrite cells p.toNat (src.take n.toNat))
    else none
  | none => none

/-- `memcpy` of `n` elements out of the array, from the cell `p` on. -/
def loadCells {α : Type} (cells : List α) (p : Option Int) (n : Int) : Option (List α) :=
  match p with
  | some p =>
    if 0 ≤ p ∧ 0 ≤ n ∧ p + n ≤ cells.length then some ((cells.drop p.toNat).take n.toNat)
    else none
  | none => none

namespace CircBuf

variable {α : Type} (c : CircBuf α)

/-! ## The member functions -/

def clear : CircBuf α := { c with read_pos := 0, write_pos := 0 }

/-- `reserve`, where `cell i` is what the new array holds in cell `i`. -/
def reserve (cell : Nat → α) (n iBlockSize : Nat) : Option (CircBuf α) :=
  let c := { c.clear with m_iBlockSize := iBlockSize, buf := [] }
  if n ≠ 0 then
    let size := uadd n 1
    if iBlockSize = 0 then none
    else
      let size := usub (uadd size iBlockSize) 1 / iBlockSize * iBlockSize % UINT_RANGE
      some { c with size := size, buf := (List.range size).map cell }
  else some { c with size := 0 }

/-- The copy constructor. -/
def copy : CircBuf α := { c with buf := if c.size ≠ 0 then c.buf.take c.size else [] }

def num_readable : Nat :=
  let rpos := toInt c.read_pos
  let wpos := toInt c.write_pos
  if rpos < wpos then toUnsigned (wpos - rpos)
  else if rpos > wpos then usub c.size (toUnsigned (rpos - wpos))
  else 0

def num_writable : Nat :=
  let rpos := toInt c.read_pos
  let wpos := toInt c.write_pos
  let ret :=
    if rpos < wpos then usub c.size (toUnsigned (wpos - rpos))
    else if rpos > wpos then toUnsigned (rpos - wpos)
    else c.size
  usub ret c.m_iBlockSize

def capacity : Nat := usub c.size 1

def advance_write_pointer (n : Nat) : Option (CircBuf α) :=
  if c.size = 0 then none else some { c with write_pos := uadd c.write_pos n % c.size }

def advance_read_pointer (n : Nat) : Option (CircBuf α) :=
  if c.size = 0 then none else some { c with read_pos := uadd c.read_pos n % c.size }

/-- The block size comes off the second range, if there is one. -/
def get_write_pointers : Pointers :=
  let rpos := toInt c.read_pos
  let wpos := toInt c.write_pos
  let p : Pointers :=
    if rpos ≤ wpos then ⟨wpos, some 0, usub c.size (toUnsigned wpos), toUnsigned rpos⟩
    else ⟨wpos, none, toUnsigned (rpos - wpos), 0⟩
  if p.pSizes.2 ≠ 0 then { p with pSizes := (p.pSizes.1, usub p.pSizes.2 c.m_iBlockSize) }
  else { p with pSizes := (usub p.pSizes.1 c.m_iBlockSize, p.pSizes.2) }

def get_read_pointers : Pointers :=
  let rpos := toInt c.read_pos
  let wpos := toInt c.write_pos
  if rpos ≤ wpos then ⟨rpos, none, toUnsigned (wpos - rpos), 0⟩
  else ⟨rpos, some 0, usub c.size (toUnsigned rpos), toUnsigned wpos⟩

def write (buffer : List α) (buffer_size : Nat) : Option (CircBuf α × Nat) := do
  let p := c.get_write_pointers
  let max_write_size := uadd p.pSizes.1 p.pSizes.2
  let buffer_size := if buffer_size > max_write_size then max_write_size else buffer_size
  let from_first := toInt (min buffer_size p.pSizes.1)
  let buf ← storeCells c.buf (some p.first) buffer from_first
  let buf ←
    if buffer_size > p.pSizes.1 then
      storeCells buf p.second (buffer.drop from_first.toNat) ↑(buffer_size - p.pSizes.1)
    else some buf
  let c ← { c with buf := buf }.advance_write_pointer buffer_size
  return (c, buffer_size)

/-- `read`. `erased` is the element of which every byte is `0xFF`. -/
def read (erased : α) (buffer_size : Nat) : Option (CircBuf α × List α) := do
  let p := c.get_read_pointers
  let max_read_size := uadd p.pSizes.1 p.pSizes.2
  let buffer_size := if buffer_size > max_read_size then max_read_size else buffer_size
  let from_first := toInt (min buffer_size p.pSizes.1)
  let rest := buffer_size - p.pSizes.1
  let front ← loadCells c.buf (some p.first) from_first
  let back ← if buffer_size > p.pSizes.1 then loadCells c.buf p.second rest else some []
  let buf ← storeCells c.buf (some p.first) (List.replicate from_first.toNat erased) from_first
  let buf ←
    if buffer_size > p.pSizes.1 then storeCells buf p.second (List.replicate rest erased) rest
    else some buf
  let c ← { c with buf := buf }.advance_read_pointer buffer_size
  return (c, front ++ back)

/-! ## The arithmetic of the positions -/

theorem toInt_eq {a : Nat} (h : a < INT_RANGE) : toInt a = a := if_pos h

theorem toUnsigned_sub {a b : Nat} (h : b ≤ a) (ha : a < INT_RANGE) :
    toUnsigned ((a : Int) - b) = a - b := by
  unfold toUnsigned UINT_RANGE
  unfold INT_RANGE at ha
  omega

theorem toUnsigned_eq {a : Nat} (ha : a < INT_RANGE) : toUnsigned a = a := by
  unfold toUnsigned UINT_RANGE
  unfold INT_RANGE at ha
  omega

/-! ## Where the data lie -/

/-- The positions of `len` elements: a block, at least, stays empty. -/
structure Placed (c : CircBuf α) (len : Nat) : Prop where
  size_lt : c.size < INT_RANGE
  block_pos : 0 < c.m_iBlockSize
  read_lt : c.read_pos < c.size
  fits : len + c.m_iBlockSize ≤ c.size
  write_eq : c.write_pos = (c.read_pos + len) % c.size

variable {c} {len : Nat}

namespace Placed

theorem write_lt (h : Placed c len) : c.write_pos < c.size := by
  rw [h.write_eq]
  exact Nat.mod_lt _ (Nat.zero_lt_of_lt h.read_lt)

theorem toInt_read (h : Placed c len) : toInt c.read_pos = c.read_pos :=
  toInt_eq (h.read_lt.trans h.size_lt)

theorem toInt_write (h : Placed c len) : toInt c.write_pos = c.write_pos :=
  toInt_eq (h.write_lt.trans h.size_lt)

/-- In one run of cells, or around the end. -/
theorem layout (h : Placed c len) :
    (c.read_pos ≤ c.write_pos ∧ len = c.write_pos - c.read_pos) ∨
      (c.write_pos < c.read_pos ∧ len = c.size - (c.read_pos - c.write_pos)) := by
  have hread := h.read_lt
  have hfits := h.fits
  have hblock := h.block_pos
  have hw := h.write_eq
  rw [mod_eq_ite (by omega)] at hw
  split_ifs at hw <;> omega

theorem num_readable_eq (h : Placed c len) : c.num_readable = len := by
  have hread := h.read_lt
  have hwrite := h.write_lt
  have hsize : c.size < INT_RANGE := h.size_lt
  have hrange : INT_RANGE < UINT_RANGE := by decide
  simp only [num_readable, h.toInt_read, h.toInt_write, Int.ofNat_lt, gt_iff_lt]
  rcases h.layout with ⟨hle, hlen⟩ | ⟨hlt, hlen⟩
  · split_ifs
    · rw [toUnsigned_sub hle (by omega), hlen]
    · omega
    · omega
  · rw [if_neg (by omega), if_pos hlt, toUnsigned_sub hlt.le (by omega), usub_eq (by omega)
      (by omega), hlen]

theorem num_writable_eq (h : Placed c len) : c.num_writable = c.size - c.m_iBlockSize - len := by
  have hread := h.read_lt
  have hwrite := h.write_lt
  have hfits := h.fits
  have hsize : c.size < INT_RANGE := h.size_lt
  have hrange : INT_RANGE < UINT_RANGE := by decide
  simp only [num_writable, h.toInt_read, h.toInt_write, Int.ofNat_lt, gt_iff_lt]
  rcases h.layout with ⟨hle, hlen⟩ | ⟨hlt, hlen⟩
  · split_ifs
    · rw [toUnsigned_sub hle (by omega), usub_eq (a := c.size) (by omega) (by omega),
        usub_eq (by omega) (by omega)]
      omega
    · omega
    · rw [usub_eq (by omega) (by omega)]
      omega
  · rw [if_neg (by omega), if_pos hlt, toUnsigned_sub hlt.le (by omega), usub_eq (by omega)
      (by omega)]
    omega

theorem capacity_eq (h : Placed c len) : c.capacity = c.size - 1 := by
  have hread := h.read_lt
  have hsize : c.size < INT_RANGE := h.size_lt
  have hrange : INT_RANGE < UINT_RANGE := by decide
  rw [capacity, usub_eq (by omega) (by omega)]

/-! ## The ranges that a call gets -/

/-- The ranges of the free cells, before the block size comes off. -/
theorem get_write_pointers_eq (h : Placed c len) : c.get_write_pointers =
    if c.read_pos ≤ c.write_pos then
      if c.read_pos ≠ 0 then
        ⟨c.write_pos, some 0, c.size - c.write_pos, usub c.read_pos c.m_iBlockSize⟩
      else ⟨c.write_pos, some 0, usub (c.size - c.write_pos) c.m_iBlockSize, 0⟩
    else ⟨c.write_pos, none, usub (c.read_pos - c.write_pos) c.m_iBlockSize, 0⟩ := by
  have hread := h.read_lt
  have hwrite := h.write_lt
  have hsize : c.size < INT_RANGE := h.size_lt
  have hrange : INT_RANGE < UINT_RANGE := by decide
  simp only [get_write_pointers, h.toInt_read, h.toInt_write, Int.ofNat_le]
  by_cases hle : c.read_pos ≤ c.write_pos
  · simp only [if_pos hle, toUnsigned_eq (hread.trans h.size_lt),
      toUnsigned_eq (hwrite.trans h.size_lt), usub_eq hwrite.le (hsize.trans hrange)]
    split_ifs with hzero
    · rfl
    · rw [not_ne_iff.mp hzero]
  · simp only [if_neg hle, toUnsigned_sub (Nat.le_of_not_le hle) (hread.trans h.size_lt), ne_eq,
      not_true_eq_false, reduceIte]

/-- The first range begins at `write_pos` and lies in the array. What does not fit into it goes
to the second one, which begins the array: the first one then reaches its end. The sum is the
number of the free cells, even where the block is longer than the range it comes off. -/
theorem write_ranges (h : Placed c len) :
    c.get_write_pointers.first = c.write_pos ∧
      uadd c.get_write_pointers.pSizes.1 c.get_write_pointers.pSizes.2 = c.num_writable ∧
      c.write_pos + min c.num_writable c.get_write_pointers.pSizes.1 ≤ c.size ∧
      (c.get_write_pointers.pSizes.1 < c.num_writable →
        c.get_write_pointers.second = some 0 ∧
          c.write_pos + c.get_write_pointers.pSizes.1 = c.size) := by
  have hread := h.read_lt
  have hwrite := h.write_lt
  have hfits := h.fits
  have hblock := h.block_pos
  have hsize : c.size < INT_RANGE := h.size_lt
  have hrange : INT_RANGE + INT_RANGE = UINT_RANGE := by decide
  rw [h.get_write_pointers_eq, h.num_writable_eq]
  rcases h.layout with ⟨hle, hlen⟩ | ⟨hlt, hlen⟩
  · rw [if_pos hle]
    split_ifs with hzero
    · have hsum : uadd (c.size - c.write_pos) (usub c.read_pos c.m_iBlockSize) =
          c.size - c.m_iBlockSize - len := by
        unfold uadd usub UINT_RANGE
        unfold INT_RANGE at hsize
        omega
      refine ⟨rfl, hsum, ?_, fun _ => ⟨rfl, ?_⟩⟩ <;> dsimp only <;> omega
    · have hsum : usub (c.size - c.write_pos) c.m_iBlockSize =
          c.size - c.m_iBlockSize - len := by
        rw [usub_eq (by omega) (by omega)]
        omega
      simp only [hsum, min_self]
      refine ⟨trivial, uadd_eq (by omega), by omega, fun hgt => absurd hgt (Nat.lt_irrefl _)⟩
  · have hsum : usub (c.read_pos - c.write_pos) c.m_iBlockSize =
        c.size - c.m_iBlockSize - len := by
      rw [usub_eq (by omega) (by omega)]
      omega
    simp only [if_neg (Nat.not_le.mpr hlt), hsum, min_self]
    refine ⟨trivial, uadd_eq (by omega), by omega, fun hgt => absurd hgt (Nat.lt_irrefl _)⟩

theorem read_ranges (h : Placed c len) :
    c.get_read_pointers.first = c.read_pos ∧
      uadd c.get_read_pointers.pSizes.1 c.get_read_pointers.pSizes.2 = len ∧
      c.read_pos + min len c.get_read_pointers.pSizes.1 ≤ c.size ∧
      (c.get_read_pointers.pSizes.1 < len →
        c.get_read_pointers.second = some 0 ∧
          c.read_pos + c.get_read_pointers.pSizes.1 = c.size) := by
  have hread := h.read_lt
  have hwrite := h.write_lt
  have hsize : c.size < INT_RANGE := h.size_lt
  have hrange : INT_RANGE + INT_RANGE = UINT_RANGE := by decide
  simp only [get_read_pointers, h.toInt_read, h.toInt_write, Int.ofNat_le]
  rcases h.layout with ⟨hle, hlen⟩ | ⟨hlt, hlen⟩
  · simp only [if_pos hle, toUnsigned_sub hle (by omega), ← hlen, min_self]
    exact ⟨trivial, uadd_eq (by omega), by omega, fun hgt => absurd hgt (Nat.lt_irrefl _)⟩
  · simp only [if_neg (Nat.not_le.mpr hlt), toUnsigned_eq (hread.trans h.size_lt),
      toUnsigned_eq (hwrite.trans h.size_lt), usub_eq hread.le (by omega)]
    refine ⟨trivial, ?_, by omega, fun _ => ⟨trivial, by omega⟩⟩
    rw [uadd_eq (by omega), hlen]
    omega

end Placed

/-! ## What the buffer holds -/

/-- The cells from `read_pos` to `write_pos` hold `xs`. -/
structure Holds (c : CircBuf α) (xs : List α) : Prop extends Placed c xs.length where
  length_buf : c.buf.length = c.size
  window : Window c.buf c.read_pos xs

theorem storeCells_eq {cells : List α} {p n : Nat} {src : List α} (hp : p + n ≤ cells.length)
    (hn : n ≤ src.length) :
    storeCells cells (some p) src n = some (overwrite cells p (src.take n)) := by
  simp only [storeCells]
  rw [if_pos (by omega), Int.toNat_natCast, Int.toNat_natCast]

theorem loadCells_eq {cells : List α} {p n : Nat} (hp : p + n ≤ cells.length) :
    loadCells cells (some p) n = some ((cells.drop p).take n) := by
  simp only [loadCells]
  rw [if_pos (by omega), Int.toNat_natCast, Int.toNat_natCast]

variable {xs : List α}

namespace Holds

/-- A move of `write_pos` over items that are stored behind the window. -/
theorem advance_write (h : Holds c xs) {buf ys : List α} (hlen : buf.length = c.size)
    (hwin : Window buf c.read_pos (xs ++ ys))
    (hfits : xs.length + ys.length + c.m_iBlockSize ≤ c.size) :
    ∃ c', { c with buf := buf }.advance_write_pointer ys.length = some c' ∧ Holds c' (xs ++ ys) ∧
      c'.size = c.size ∧ c'.m_iBlockSize = c.m_iBlockSize := by
  have hwrite := h.write_lt
  have hsize : c.size < INT_RANGE := h.size_lt
  have hrange : INT_RANGE + INT_RANGE = UINT_RANGE := by decide
  have hw : uadd c.write_pos ys.length % c.size =
      (c.read_pos + (xs ++ ys).length) % c.size := by
    rw [uadd_eq (by omega), h.write_eq, Nat.mod_add_mod, List.length_append, Nat.add_assoc]
  refine ⟨_, if_neg (by dsimp only; omega), ?_, rfl, rfl⟩
  exact ⟨⟨h.size_lt, h.block_pos, h.read_lt, by rw [List.length_append]; exact hfits, hw⟩, hlen, hwin⟩

/-- A move of `read_pos` over the first items of the window. -/
theorem advance_read (h : Holds c xs) {buf : List α} {k : Nat} (hk : k ≤ xs.length)
    (hlen : buf.length = c.size) (hwin : Window buf (c.read_pos + k) (xs.drop k)) :
    ∃ c', { c with buf := buf }.advance_read_pointer k = some c' ∧ Holds c' (xs.drop k) ∧
      c'.size = c.size ∧ c'.m_iBlockSize = c.m_iBlockSize := by
  have hread := h.read_lt
  have hfits := h.fits
  have hsize : c.size < INT_RANGE := h.size_lt
  have hrange : INT_RANGE + INT_RANGE = UINT_RANGE := by decide
  refine ⟨_, if_neg (by dsimp only; omega), ?_, rfl, rfl⟩
  have hadd : uadd c.read_pos k = c.read_pos + k := uadd_eq (by omega)
  have hpos : (c.read_pos + k) % c.size < c.size := Nat.mod_lt _ (by omega)
  refine ⟨⟨h.size_lt, h.block_pos, ?_, ?_, ?_⟩, hlen, ?_⟩
  · rwa [hadd]
  · rw [List.length_drop]
    dsimp only
    omega
  · rw [hadd, Nat.mod_add_mod, List.length_drop, h.write_eq]
    congr 1
    omega
  · rw [hadd, ← hlen]
    exact Window.mod_iff.mpr hwin

/-- A call of `write` appends as many elements as there is room for, and returns their number. -/
theorem write (h : Holds c xs) (buffer : List α) {buffer_size : Nat}
    (hle : buffer_size ≤ buffer.length) :
    ∃ c', c.write buffer buffer_size = some (c', min buffer_size c.num_writable) ∧
      Holds c' (xs ++ buffer.take (min buffer_size c.num_writable)) ∧
      c'.size = c.size ∧ c'.m_iBlockSize = c.m_iBlockSize := by
  obtain ⟨hfirst, hsum, hmin, hsecond⟩ := h.write_ranges
  have hroom := h.num_writable_eq
  have hfits := h.fits
  have hsize : c.size < INT_RANGE := h.size_lt
  have hlen := h.length_buf
  have hstart : (c.read_pos + xs.length) % c.buf.length = c.write_pos := by rw [hlen, h.write_eq]
  generalize hk : min buffer_size c.num_writable = k
  generalize hs : c.get_write_pointers.pSizes.1 = s at *
  have hclip : (if buffer_size > c.num_writable then c.num_writable else buffer_size) = k := by
    split_ifs <;> omega
  have hint : toInt (min k s) = (min k s : Nat) := toInt_eq (by omega)
  have hone : storeCells c.buf (some c.write_pos) buffer (min k s : Nat) =
      some (overwrite c.buf c.write_pos (buffer.take (min k s))) :=
    storeCells_eq (by omega) (by omega)
  simp only [CircBuf.write, hs, hsum, hclip, hint, hfirst, hone, Option.bind_eq_bind,
    Option.bind_some, Int.toNat_natCast]
  have htake : (buffer.take k).length = k := List.length_take_of_le (by omega)
  rcases Nat.lt_or_ge s k with hgt | hfit
  · -- the rest goes to the first cells
    obtain ⟨hptr, hend⟩ := hsecond (by omega)
    have hmins : min k s = s := Nat.min_eq_right hgt.le
    have hs' : (buffer.take s).length = s := List.length_take_of_le (by omega)
    have hrest : ((buffer.drop s).take (k - s)).length = k - s :=
      List.length_take_of_le (by rw [List.length_drop]; omega)
    have hbuf : (overwrite c.buf c.write_pos (buffer.take s)).length = c.size := by
      rw [length_overwrite (by omega), hlen]
    have hback : storeCells (overwrite c.buf c.write_pos (buffer.take s)) (some 0)
        (buffer.drop s) ↑(k - s) = some (overwrite (overwrite c.buf c.write_pos (buffer.take s)) 0
          ((buffer.drop s).take (k - s))) :=
      storeCells_eq (p := 0) (by omega) (by rw [List.length_drop]; omega)
    have hsplit : buffer.take s ++ (buffer.drop s).take (k - s) = buffer.take k := by
      rw [← List.take_add, Nat.add_sub_cancel' hgt.le]
    have hwin := h.window.overwrite_around (buffer.take s)
      ((buffer.drop s).take (k - s)) (by rw [hsplit]; omega) (by omega)
    rw [hstart, hsplit] at hwin
    obtain ⟨c', hadv, hc'⟩ := h.advance_write (by rw [length_overwrite (by omega), hbuf]) hwin
      (by omega)
    rw [htake] at hadv
    refine ⟨c', ?_, hc'⟩
    rw [hmins, if_pos hgt, hptr, hback, Option.bind_some, hadv]
    rfl
  · have hmins : min k s = k := Nat.min_eq_left hfit
    have hwin := h.window.overwrite_append (buffer.take k) (by omega) (by omega)
    rw [hstart] at hwin
    obtain ⟨c', hadv, hc'⟩ := h.advance_write (by rw [length_overwrite (by omega), hlen]) hwin
      (by omega)
    rw [htake] at hadv
    refine ⟨c', ?_, hc'⟩
    rw [hmins, if_neg (by omega), hadv]
    rfl

/-- A call of `read` gives as many of the oldest elements as are there. -/
theorem read (h : Holds c xs) (erased : α) (buffer_size : Nat) :
    ∃ c', c.read erased buffer_size = some (c', xs.take buffer_size) ∧
      Holds c' (xs.drop buffer_size) ∧ c'.size = c.size ∧ c'.m_iBlockSize = c.m_iBlockSize := by
  obtain ⟨hfirst, hsum, hmin, hsecond⟩ := h.read_ranges
  have hfits := h.fits
  have hsize : c.size < INT_RANGE := h.size_lt
  have hlen := h.length_buf
  have hstart : c.read_pos % c.buf.length = c.read_pos :=
    Nat.mod_eq_of_lt (by rw [hlen]; exact h.read_lt)
  generalize hk : min buffer_size xs.length = k
  generalize hs : c.get_read_pointers.pSizes.1 = s at *
  have hclip : (if buffer_size > xs.length then xs.length else buffer_size) = k := by
    split_ifs <;> omega
  have hxs : xs.take buffer_size = xs.take k := List.take_eq_take_iff.mpr (by omega)
  have hdrop : xs.drop buffer_size = xs.drop k := List.drop_eq_drop_iff.mpr (by omega)
  have hint : toInt (min k s) = (min k s : Nat) := toInt_eq (by omega)
  have hload : loadCells c.buf (some c.read_pos) (min k s : Nat) =
      some ((c.buf.drop c.read_pos).take (min k s)) := loadCells_eq (by omega)
  have hone : storeCells c.buf (some c.read_pos) (List.replicate (min k s) erased) (min k s : Nat) =
      some (overwrite c.buf c.read_pos (List.replicate (min k s) erased)) := by
    rw [storeCells_eq (by omega) (by rw [List.length_replicate]), List.take_replicate, min_self]
  simp only [CircBuf.read, hs, hsum, hclip, hint, hfirst, hload, hone, Option.bind_eq_bind,
    Option.bind_some, Int.toNat_natCast, hxs, hdrop]
  rcases Nat.lt_or_ge s k with hgt | hfit
  · -- the rest comes from the first cells
    obtain ⟨hptr, hend⟩ := hsecond (by omega)
    have hmins : min k s = s := Nat.min_eq_right hgt.le
    have hks : s + (k - s) = k := by omega
    have hbuf : (overwrite c.buf c.read_pos (List.replicate s erased)).length = c.size := by
      rw [length_overwrite (by rw [List.length_replicate]; omega), hlen]
    have hloads : loadCells c.buf (some 0) ↑(k - s) = some ((c.buf.drop 0).take (k - s)) :=
      loadCells_eq (p := 0) (by omega)
    have hback : storeCells (overwrite c.buf c.read_pos (List.replicate s erased)) (some 0)
        (List.replicate (k - s) erased) ↑(k - s) =
        some (overwrite (overwrite c.buf c.read_pos (List.replicate s erased)) 0
          (List.replicate (k - s) erased)) := by
      refine (storeCells_eq (p := 0) (by omega) (by rw [List.length_replicate])).trans ?_
      rw [List.take_replicate, min_self]
    have hwin := h.window.overwrite_drop_around (j := s) (k := k - s) (by omega) (by omega)
      (by omega) erased
    have hgot := h.window.take_drop_around (j := s) (k := k - s) (by omega) (by omega) (by omega)
    rw [hstart, hks] at hwin hgot
    obtain ⟨c', hadv, hc'⟩ := h.advance_read (by omega)
      (by rw [length_overwrite (by rw [List.length_replicate]; omega), hbuf]) hwin
    refine ⟨c', ?_, hc'⟩
    rw [hmins, if_pos hgt, hptr, hloads, Option.bind_some, if_pos hgt, hback, Option.bind_some, hadv,
      hgot]
    rfl
  · have hmins : min k s = k := Nat.min_eq_left hfit
    have hwin := h.window.overwrite_drop (k := k) (by omega) (by omega) (by omega) erased
    have hgot := h.window.take_drop (k := k) (by omega) (by omega)
    rw [hstart] at hwin hgot
    obtain ⟨c', hadv, hc'⟩ := h.advance_read (by omega)
      (by rw [length_overwrite (by rw [List.length_replicate]; omega), hlen]) hwin
    refine ⟨c', ?_, hc'⟩
    rw [hmins, if_neg (by omega), if_neg (by omega), hadv, hgot]
    simp

theorem clear (h : Holds c xs) : Holds c.clear [] where
  length_buf := h.length_buf
  size_lt := h.size_lt
  block_pos := h.block_pos
  read_lt := Nat.zero_lt_of_lt h.read_lt
  fits := by
    have hfits := h.fits
    simp only [CircBuf.clear, List.length_nil]
    omega
  write_eq := (Nat.zero_mod _).symm
  window := Window.nil

/-- A copy holds the same elements. -/
theorem copy (h : Holds c xs) : c.copy = c := by
  have hread := h.read_lt
  have hbuf : c.buf.take c.size = c.buf := by rw [← h.length_buf, List.take_length]
  rw [CircBuf.copy, if_pos (by omega), hbuf]

end Holds

/-- A buffer is reserved for a whole number of blocks that is at most `n`, and one block more. -/
theorem reserve_holds (c : CircBuf α) (cell : Nat → α) {n iBlockSize : Nat} (hn : 0 < n)
    (hblock : 0 < iBlockSize) (hlt : n + iBlockSize < INT_RANGE) :
    ∃ c', c.reserve cell n iBlockSize = some c' ∧ Holds c' [] ∧ c'.m_iBlockSize = iBlockSize ∧
      c'.size = n / iBlockSize * iBlockSize + iBlockSize ∧ c'.read_pos = 0 := by
  have hrange : INT_RANGE + INT_RANGE = UINT_RANGE := by decide
  have hdiv : n / iBlockSize * iBlockSize ≤ n := Nat.div_mul_le_self n iBlockSize
  have hsum : usub (uadd (uadd n 1) iBlockSize) 1 = n + iBlockSize := by
    rw [uadd_eq (a := n) (by omega), uadd_eq (by omega), usub_eq (by omega) (by omega)]
    omega
  have hsize : usub (uadd (uadd n 1) iBlockSize) 1 / iBlockSize * iBlockSize % UINT_RANGE =
      n / iBlockSize * iBlockSize + iBlockSize := by
    rw [hsum, Nat.add_div_right n hblock, Nat.succ_mul, Nat.mod_eq_of_lt (by omega)]
  have hge : iBlockSize ≤ n / iBlockSize * iBlockSize + iBlockSize := Nat.le_add_left _ _
  have hsmall : n / iBlockSize * iBlockSize + iBlockSize < INT_RANGE := by omega
  generalize n / iBlockSize * iBlockSize + iBlockSize = size at *
  refine ⟨⟨(List.range size).map cell, size, iBlockSize, 0, 0⟩, ?_, ?_, rfl, rfl, rfl⟩
  · rw [reserve, if_pos (by omega), if_neg (by omega), hsize]
    rfl
  · exact ⟨⟨hsmall, hblock, Nat.lt_of_lt_of_le hblock hge, by simpa using hge,
      (Nat.zero_mod _).symm⟩, by simp, Window.nil⟩

/-! ## The buffer as a bounded queue -/

/-- A call of `write` or `read`. -/
def call (c : CircBuf α) (erased : α) : Fifo.Call α → Option (CircBuf α × Fifo.Result α)
  | .push xs => do
    let (c, k) ← c.write xs xs.length
    return (c, .pushed k)
  | .pop n => do
    let (c, ys) ← c.read erased n
    return (c, .popped ys)

/-- One call after the other. -/
def calls (erased : α) : CircBuf α → List (Fifo.Call α) → Option (CircBuf α × List (Fifo.Result α))
  | c, [] => some (c, [])
  | c, e :: es => do
    let (c, r) ← c.call erased e
    let (c, rs) ← calls erased c es
    return (c, r :: rs)

/-- The buffer stands for a queue: it holds its items, and one block more than its bound. -/
structure Represents {cap : Nat} (c : CircBuf α) (q : Fifo α cap) : Prop where
  holds : Holds c q.items
  size_eq : c.size = cap + c.m_iBlockSize

variable {cap : Nat} {q : Fifo α cap}

namespace Represents

theorem room_eq (h : Represents c q) : c.num_writable = q.room := by
  rw [h.holds.num_writable_eq, h.size_eq, Nat.add_sub_cancel, Fifo.room]

/-- The step: a call does and returns what the queue does. -/
theorem call (h : Represents c q) (erased : α) (e : Fifo.Call α) :
    ∃ c', c.call erased e = some (c', (q.call e).2) ∧ Represents c' (q.call e).1 ∧
      c'.m_iBlockSize = c.m_iBlockSize := by
  cases e with
  | push xs =>
    obtain ⟨c', hw, hc', hsize, hblock⟩ := h.holds.write xs le_rfl
    have htake : xs.take (min xs.length c.num_writable) = xs.take q.room := by
      rw [h.room_eq]
      exact List.take_eq_take_iff.mpr (by omega)
    rw [htake] at hc'
    refine ⟨c', ?_, ⟨hc', by rw [hsize, hblock, h.size_eq]⟩, hblock⟩
    rw [CircBuf.call, hw, h.room_eq]
    rfl
  | pop n =>
    obtain ⟨c', hr, hc', hsize, hblock⟩ := h.holds.read erased n
    refine ⟨c', ?_, ⟨hc', by rw [hsize, hblock, h.size_eq]⟩, hblock⟩
    rw [CircBuf.call, hr]
    rfl

/-- The run, by the step. -/
theorem calls (h : Represents c q) (erased : α) (es : List (Fifo.Call α)) :
    ∃ c', c.calls erased es = some (c', (q.calls es).2) ∧ Represents c' (q.calls es).1 ∧
      c'.m_iBlockSize = c.m_iBlockSize := by
  induction es generalizing c q with
  | nil => exact ⟨c, rfl, h, rfl⟩
  | cons e es ih =>
    obtain ⟨c', hcall, hc', hblock⟩ := h.call erased e
    obtain ⟨c'', hcalls, hc'', hblock'⟩ := ih hc'
    refine ⟨c'', ?_, hc'', hblock'.trans hblock⟩
    rw [CircBuf.calls, hcall]
    simp only [Option.bind_eq_bind, Option.bind_some, hcalls]
    rfl

end Represents

/-- Whatever is written and read after `reserve`, in whatever pieces, the buffer is a queue of as
many elements as the whole blocks in `n` have: every call returns what the queue returns, none
leaves the array, and the numbers of elements that can be read and written are those of the
queue. `capacity` is right for blocks of one element only. -/
theorem calls_reserve (c : CircBuf α) (cell : Nat → α) (erased : α) {n iBlockSize : Nat}
    (hn : 0 < n) (hblock : 0 < iBlockSize) (hlt : n + iBlockSize < INT_RANGE)
    (es : List (Fifo.Call α)) :
    ∃ c₀ c', c.reserve cell n iBlockSize = some c₀ ∧
      c₀.calls erased es =
        some (c', ((Fifo.empty : Fifo α (n / iBlockSize * iBlockSize)).calls es).2) ∧
      c'.num_readable =
        ((Fifo.empty : Fifo α (n / iBlockSize * iBlockSize)).calls es).1.items.length ∧
      c'.num_writable = ((Fifo.empty : Fifo α (n / iBlockSize * iBlockSize)).calls es).1.room ∧
      c'.capacity = n / iBlockSize * iBlockSize + (iBlockSize - 1) := by
  obtain ⟨c₀, hres, hholds, hbs, hsize, -⟩ := c.reserve_holds cell hn hblock hlt
  have hrep : Represents c₀ (Fifo.empty : Fifo α (n / iBlockSize * iBlockSize)) :=
    ⟨hholds, by rw [hsize, hbs]⟩
  obtain ⟨c', hcalls, hc', hbs'⟩ := hrep.calls erased es
  refine ⟨c₀, c', hres, hcalls, hc'.holds.num_readable_eq, hc'.room_eq, ?_⟩
  rw [hc'.holds.capacity_eq, hc'.size_eq, hbs', hbs]
  omega

theorem calls_reserve_1100 : ∃ c₀ c', CircBuf.reserve (⟨[], 0, 0, 0, 0⟩ : CircBuf Nat) id 1100 1 =
      some c₀ ∧
    c₀.calls 255 [.push [1, 2], .pop 1] = some (c', [.pushed 2, .popped [1]]) ∧
      c'.num_readable = 1 ∧ c'.num_writable = 1099 ∧ c'.capacity = 1100 :=
  calls_reserve ⟨[], 0, 0, 0, 0⟩ id 255 (by decide) (by decide) (by decide) [.push [1, 2], .pop 1]

/-- `reserve(0)` leaves a buffer on which no call of `write` or `read` ends: whatever is copied, a
position is taken modulo zero. -/
theorem call_reserve_zero (c : CircBuf α) (cell : Nat → α) (erased : α) (iBlockSize : Nat)
    (e : Fifo.Call α) : ∃ c₀, c.reserve cell 0 iBlockSize = some c₀ ∧ c₀.call erased e = none := by
  refine ⟨_, rfl, ?_⟩
  cases e <;>
    simp only [call, write, read, advance_write_pointer, advance_read_pointer, reduceIte,
      Option.bind_eq_bind, Option.bind_eq_none_iff] <;>
    simp

end CircBuf

end YModem.MyIO
