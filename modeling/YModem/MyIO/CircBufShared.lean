import YModem.MyIO.CircBuf

/-!
# The circular buffer between two threads

`CircBuf` says of itself that it is safe for one thread that reads and one that writes. Here the
two threads are cut at every load and store that the other one could see: of the two positions,
which are atomic, and of the single elements that `memcpy` and `memset` move. The steps of the two
interleave freely.
-/

namespace YModem.MyIO

open YModem.Lib YModem.Peer

variable {α : Type}

/-- The cells of `n` elements from `p` on, in the order in which they are touched. -/
def cellsFrom (p : Option Int) (n : Int) : Option (List Nat) :=
  match p with
  | some p => if 0 ≤ p ∧ 0 ≤ n then some ((List.range n.toNat).map (p.toNat + ·)) else none
  | none => none

/-- The cells of both ranges that a call of `write` or `read` of `buffer_size` elements touches. -/
def Pointers.cells (p : Pointers) (buffer_size : Nat) : Option (List Nat) := do
  let max_size := uadd p.pSizes.1 p.pSizes.2
  let buffer_size := if buffer_size > max_size then max_size else buffer_size
  let front ← cellsFrom (some p.first) (toInt (min buffer_size p.pSizes.1))
  let back ←
    if buffer_size > p.pSizes.1 then cellsFrom p.second ↑(buffer_size - p.pSizes.1) else some []
  return front ++ back

/-- Where the writer is in its call of `write`. -/
inductive Writer (α : Type) where
  | idle
  /-- `get_write_pointers` has loaded `read_pos`. -/
  | loaded (buffer : List α) (buffer_size rpos : Nat)
  /-- `stores` is left of the copies of the elements `taken`. -/
  | storing (stores : List (Nat × α)) (taken : List α)
  /-- `advance_write_pointer` has loaded `write_pos`. -/
  | advancing (taken : List α) (wpos : Nat)
deriving DecidableEq, Repr

/-- Where the reader is in its call of `read`. -/
inductive Reader (α : Type) where
  | idle
  /-- `get_read_pointers` has loaded `read_pos`. -/
  | loaded (buffer_size rpos : Nat)
  /-- The elements of the cells `todo` of `cells` are left to copy. -/
  | loading (todo cells : List Nat) (got : List α)
  /-- The cells `todo` are left to set to `0xFF`. -/
  | erasing (todo : List Nat) (got : List α)
  /-- `advance_read_pointer` has loaded `read_pos`. -/
  | advancing (got : List α) (rpos : Nat)
deriving DecidableEq, Repr

/-- The cells in which the writer still stores. -/
def Writer.cells : Writer α → List Nat
  | .storing stores _ => stores.map Prod.fst
  | _ => []

/-- The cells that the reader still loads or erases. -/
def Reader.cells : Reader α → List Nat
  | .loading _ cells _ => cells
  | .erasing todo _ => todo
  | _ => []

/-- The most steps that the writer still takes in its call. -/
def Writer.left : Writer α → Nat
  | .idle => 0
  | .loaded _ buffer_size _ => buffer_size + 3
  | .storing stores _ => stores.length + 2
  | .advancing _ _ => 1

/-- The most steps that the reader still takes in its call. -/
def Reader.left : Reader α → Nat
  | .idle => 0
  | .loaded buffer_size _ => 2 * buffer_size + 4
  | .loading todo cells _ => todo.length + cells.length + 3
  | .erasing todo _ => todo.length + 2
  | .advancing _ _ => 1

/-- The buffer and the two threads, with the elements that the calls of `write` that have
returned have taken, and those that the calls of `read` that have returned have given. -/
structure Shared (α : Type) where
  c : CircBuf α
  writer : Writer α
  reader : Reader α
  accepted : List α
  delivered : List α

namespace Shared

/-- A store in one cell; `none` when it is outside the array. -/
def store (s : Shared α) (i : Nat) (x : α) : Option (Shared α) :=
  if i < s.c.buf.length then some { s with c := { s.c with buf := s.c.buf.set i x } } else none

/-- The next step of the writer in its call. -/
def stepWriter (s : Shared α) : Option (Shared α) :=
  match s.writer with
  | .idle => none
  | .loaded buffer buffer_size rpos => do
    let cells ← { s.c with read_pos := rpos }.get_write_pointers.cells buffer_size
    return { s with writer := .storing (cells.zip buffer) (buffer.take cells.length) }
  | .storing ((i, x) :: stores) taken => do
    let s ← s.store i x
    return { s with writer := .storing stores taken }
  | .storing [] taken => some { s with writer := .advancing taken s.c.write_pos }
  | .advancing taken wpos => do
    let c ← { s.c with write_pos := wpos }.advance_write_pointer taken.length
    return { s with c := c, writer := .idle, accepted := s.accepted ++ taken }

/-- The next step of the reader in its call. -/
def stepReader (erased : α) (s : Shared α) : Option (Shared α) :=
  match s.reader with
  | .idle => none
  | .loaded buffer_size rpos => do
    let cells ← { s.c with read_pos := rpos }.get_read_pointers.cells buffer_size
    return { s with reader := .loading cells cells [] }
  | .loading (i :: todo) cells got => do
    let x ← s.c.buf[i]?
    return { s with reader := .loading todo cells (got ++ [x]) }
  | .loading [] cells got => some { s with reader := .erasing cells got }
  | .erasing (i :: todo) got => do
    let s ← s.store i erased
    return { s with reader := .erasing todo got }
  | .erasing [] got => some { s with reader := .advancing got s.c.read_pos }
  | .advancing got rpos => do
    let c ← { s.c with read_pos := rpos }.advance_read_pointer got.length
    return { s with c := c, reader := .idle, delivered := s.delivered ++ got }

/-- A thread begins a call, or goes on with it. -/
inductive Event (α : Type) where
  | write (buffer : List α) (buffer_size : Nat)
  | writer
  | read (buffer_size : Nat)
  | reader
deriving DecidableEq, Repr

def step (erased : α) (s : Shared α) : Event α → Option (Shared α)
  | .write buffer buffer_size =>
    match s.writer with
    | .idle =>
      if buffer_size ≤ buffer.length then
        some { s with writer := .loaded buffer buffer_size s.c.read_pos }
      else none
    | _ => none
  | .writer => s.stepWriter
  | .read buffer_size =>
    match s.reader with
    | .idle => some { s with reader := .loaded buffer_size s.c.read_pos }
    | _ => none
  | .reader => s.stepReader erased

/-- A buffer that no thread uses. -/
def quiet (c : CircBuf α) : Shared α := ⟨c, .idle, .idle, [], []⟩

end Shared

/-! ## The cells of a call -/

theorem cellsFrom_eq (p n : Nat) : cellsFrom (some p) n = some ((List.range n).map (p + ·)) := by
  simp only [cellsFrom]
  rw [if_pos (by omega), Int.toNat_natCast, Int.toNat_natCast]

theorem length_cellsFrom {p : Option Int} {n : Int} {cells : List Nat}
    (h : cellsFrom p n = some cells) : (cells.length : Int) = n := by
  cases p with
  | none => cases h
  | some p =>
    simp only [cellsFrom] at h
    split_ifs at h with hpos
    cases h
    rw [List.length_map, List.length_range, Int.toNat_of_nonneg hpos.2]

/-- A call touches no more cells than it has been asked for. -/
theorem Pointers.length_cells_le {p : Pointers} {n : Nat} {cells : List Nat}
    (h : p.cells n = some cells) : cells.length ≤ n := by
  simp only [Pointers.cells, Option.bind_eq_bind] at h
  generalize uadd p.pSizes.1 p.pSizes.2 = total at h
  generalize hk : (if n > total then total else n) = k at h
  have hle : k ≤ n := by
    split_ifs at hk <;> omega
  obtain ⟨front, hfront, h⟩ := Option.bind_eq_some_iff.mp h
  have hlen := length_cellsFrom hfront
  have hint : toInt (min k p.pSizes.1) ≤ (min k p.pSizes.1 : Nat) := by
    unfold toInt
    split_ifs <;> omega
  split_ifs at h with hgt
  · obtain ⟨back, hback, h⟩ := Option.bind_eq_some_iff.mp h
    have hrest := length_cellsFrom hback
    cases h
    rw [List.length_append]
    omega
  · cases h
    rw [List.length_append, List.length_nil]
    omega

/-- Two ranges that go on around the end are the cells from a position on. -/
theorem Pointers.cells_eq {p : Pointers} {size pos total n : Nat} (hfirst : p.first = ↑(pos % size))
    (hsum : uadd p.pSizes.1 p.pSizes.2 = total) (hle : total ≤ size) (hsize : size < INT_RANGE)
    (hmin : pos % size + min total p.pSizes.1 ≤ size)
    (hsecond : p.pSizes.1 < total → p.second = some 0 ∧ pos % size + p.pSizes.1 = size) :
    p.cells n = some (ringCells size pos (min n total)) := by
  generalize hs : p.pSizes.1 = s at *
  generalize hk : min n total = k
  have hclip : (if n > total then total else n) = k := by split_ifs <;> omega
  have hint : toInt (min k s) = (min k s : Nat) := CircBuf.toInt_eq (by omega)
  simp only [cells, hs, hsum, hclip, hfirst, hint, cellsFrom_eq, Option.bind_eq_bind,
    Option.bind_some]
  rcases Nat.lt_or_ge s k with hgt | hfit
  · obtain ⟨hptr, hend⟩ := hsecond (by omega)
    have hback : cellsFrom (some 0) ↑(k - s) = some (List.range (k - s)) := by
      rw [← Int.natCast_zero, cellsFrom_eq]
      simp
    rw [if_pos hgt, hptr, hback, Nat.min_eq_right hgt.le, Option.bind_some,
      ← ringCells_around hend (by omega), Nat.add_sub_cancel' hgt.le]
    rfl
  · rw [if_neg (by omega), Nat.min_eq_left hfit, ringCells_run (by omega)]
    simp

namespace CircBuf.Placed

variable {c : CircBuf α} {len pos : Nat}

/-- The cells that `write` stores in. -/
theorem write_cells (h : Placed c len) (hpos : c.write_pos = pos % c.size) (n : Nat) :
    c.get_write_pointers.cells n =
      some (ringCells c.size pos (min n (c.size - c.m_iBlockSize - len))) := by
  obtain ⟨hfirst, hsum, hmin, hsecond⟩ := h.write_ranges
  rw [h.num_writable_eq] at hsum hmin hsecond
  rw [hpos] at hfirst hmin hsecond
  exact Pointers.cells_eq hfirst hsum (by omega) h.size_lt hmin hsecond

/-- The cells that `read` loads and erases. -/
theorem read_cells (h : Placed c len) (hpos : c.read_pos = pos % c.size) (n : Nat) :
    c.get_read_pointers.cells n = some (ringCells c.size pos (min n len)) := by
  obtain ⟨hfirst, hsum, hmin, hsecond⟩ := h.read_ranges
  have hfits := h.fits
  rw [hpos] at hfirst hmin hsecond
  exact Pointers.cells_eq hfirst hsum (by omega) h.size_lt hmin hsecond

end CircBuf.Placed

namespace Shared

/-! ## The invariant -/

/-- The elements that are stored behind `write_pos` and not published. -/
def stored (s : Shared α) : List α :=
  match s.writer with
  | .storing stores taken => taken.take (taken.length - stores.length)
  | .advancing taken _ => taken
  | _ => []

/-- How many cells behind `read_pos` are erased and not given back. -/
def erased (s : Shared α) : Nat :=
  match s.reader with
  | .erasing todo got => got.length - todo.length
  | .advancing got _ => got.length
  | _ => 0

/-- The writer has room for what it takes: the `read_pos` that it has loaded may be an old one. -/
def WriterOk (s : Shared α) (cap : Nat) : Prop :=
  match s.writer with
  | .idle => True
  | .loaded buffer buffer_size rpos =>
    buffer_size ≤ buffer.length ∧ ∃ seen, seen ≤ s.delivered.length ∧ rpos = seen % s.c.size ∧
      s.accepted.length ≤ seen + cap
  | .storing stores taken =>
    s.accepted.length + taken.length ≤ s.delivered.length + cap ∧ stores.length ≤ taken.length ∧
      stores = (ringCells s.c.size (s.accepted.length + (taken.length - stores.length))
        stores.length).zip (taken.drop (taken.length - stores.length))
  | .advancing taken wpos =>
    s.accepted.length + taken.length ≤ s.delivered.length + cap ∧ wpos = s.c.write_pos

/-- The elements that the reader takes are there, and it has them before it erases their cells. -/
def ReaderOk (s : Shared α) : Prop :=
  match s.reader with
  | .idle => True
  | .loaded _ rpos => rpos = s.c.read_pos
  | .loading todo cells got =>
    got.length + todo.length = cells.length ∧
      s.delivered.length + cells.length ≤ s.accepted.length ∧
      cells = ringCells s.c.size s.delivered.length cells.length ∧
      todo = ringCells s.c.size (s.delivered.length + got.length) todo.length ∧
      got = (s.accepted.drop s.delivered.length).take got.length
  | .erasing todo got =>
    todo.length ≤ got.length ∧ s.delivered.length + got.length ≤ s.accepted.length ∧
      todo = ringCells s.c.size (s.delivered.length + (got.length - todo.length)) todo.length ∧
      got = (s.accepted.drop s.delivered.length).take got.length
  | .advancing got rpos =>
    s.delivered.length + got.length ≤ s.accepted.length ∧
      got = (s.accepted.drop s.delivered.length).take got.length ∧ rpos = s.c.read_pos

/-- The two positions count what was accepted and delivered. From the first cell that is not
erased to the last one that is stored, the buffer holds what was accepted and not delivered,
and what the writer is about to publish. -/
structure Inv (cap : Nat) (s : Shared α) : Prop where
  size_lt : s.c.size < INT_RANGE
  block_pos : 0 < s.c.m_iBlockSize
  size_eq : s.c.size = cap + s.c.m_iBlockSize
  length_buf : s.c.buf.length = s.c.size
  read_eq : s.c.read_pos = s.delivered.length % s.c.size
  write_eq : s.c.write_pos = s.accepted.length % s.c.size
  order : s.delivered = s.accepted.take s.delivered.length
  bound : s.accepted.length ≤ s.delivered.length + cap
  window : Window s.c.buf (s.delivered.length + s.erased)
    (s.accepted.drop (s.delivered.length + s.erased) ++ s.stored)
  writer : s.WriterOk cap
  reader : s.ReaderOk

variable {cap : Nat} {s s' : Shared α}

namespace Inv

theorem size_pos (h : Inv cap s) : 0 < s.c.size := by
  have hblock := h.block_pos
  have hsize := h.size_eq
  omega

theorem delivered_le (h : Inv cap s) : s.delivered.length ≤ s.accepted.length := by
  have hlen := congrArg List.length h.order
  rw [List.length_take] at hlen
  omega

/-- What a thread sees that has loaded `read_pos` when `seen` elements had been given. -/
theorem placed (h : Inv cap s) {seen : Nat} (hle : seen ≤ s.delivered.length)
    (hroom : s.accepted.length ≤ seen + cap) :
    { s.c with read_pos := seen % s.c.size }.Placed (s.accepted.length - seen) := by
  have hblock := h.block_pos
  have hsize := h.size_eq
  have hdel := h.delivered_le
  refine ⟨h.size_lt, h.block_pos, Nat.mod_lt _ h.size_pos, by dsimp only; omega, ?_⟩
  rw [h.write_eq, Nat.mod_add_mod]
  congr 1
  omega

/-- Only what has been accepted is erased. -/
theorem erased_le (h : Inv cap s) : s.delivered.length + s.erased ≤ s.accepted.length := by
  have hdel := h.delivered_le
  have hok := h.reader
  cases hr : s.reader with
  | erasing todo got =>
    simp only [ReaderOk, hr] at hok
    simp only [erased, hr]
    omega
  | advancing got rpos =>
    simp only [ReaderOk, hr] at hok
    simp only [erased, hr]
    exact hok.1
  | _ =>
    simp only [erased, hr]
    exact hdel

/-- There is room for what is stored. -/
theorem stored_le (h : Inv cap s) :
    s.accepted.length + s.stored.length ≤ s.delivered.length + cap := by
  have hok := h.writer
  cases hw : s.writer with
  | storing stores taken =>
    simp only [WriterOk, hw] at hok
    simp only [stored, hw, List.length_take]
    omega
  | advancing taken wpos =>
    simp only [WriterOk, hw] at hok
    simp only [stored, hw]
    exact hok.1
  | _ =>
    simp only [stored, hw]
    exact h.bound

/-- What is published behind the elements that the reader takes does not concern it. -/
theorem reader_publish (h : Inv cap s) (taken : List α) (w : Nat) :
    ReaderOk { s with
      c := { s.c with write_pos := w }, writer := .idle, accepted := s.accepted ++ taken } := by
  have hok := h.reader
  have htake {k : Nat} (hk : s.delivered.length + k ≤ s.accepted.length) :
      ((s.accepted ++ taken).drop s.delivered.length).take k =
        (s.accepted.drop s.delivered.length).take k := by
    rw [List.drop_append_of_le_length (by omega),
      List.take_append_of_le_length (by rw [List.length_drop]; omega)]
  cases hr : s.reader with
  | idle => simp only [ReaderOk]
  | loaded buffer_size rpos => simpa only [ReaderOk, hr] using hok
  | loading todo cells got =>
    simp only [ReaderOk, hr, List.length_append] at hok ⊢
    obtain ⟨hsum, hle, hcells, htodo, hgot⟩ := hok
    exact ⟨hsum, by omega, hcells, htodo, hgot.trans (htake (by omega)).symm⟩
  | erasing todo got =>
    simp only [ReaderOk, hr, List.length_append] at hok ⊢
    obtain ⟨hlen, hle, htodo, hgot⟩ := hok
    exact ⟨hlen, by omega, htodo, hgot.trans (htake hle).symm⟩
  | advancing got rpos =>
    simp only [ReaderOk, hr, List.length_append] at hok ⊢
    obtain ⟨hle, hgot, hrpos⟩ := hok
    exact ⟨by omega, hgot.trans (htake hle).symm, hrpos⟩

/-- Cells that the reader gives back only make more room for the writer. -/
theorem writer_release (h : Inv cap s) (got : List α) (r : Nat) :
    WriterOk { s with
      c := { s.c with read_pos := r }, reader := .idle, delivered := s.delivered ++ got } cap := by
  have hok := h.writer
  cases hw : s.writer with
  | idle => simp only [WriterOk]
  | loaded buffer buffer_size rpos =>
    simp only [WriterOk, hw, List.length_append] at hok ⊢
    obtain ⟨hbuf, seen, hseen, hrpos, hroom⟩ := hok
    exact ⟨hbuf, seen, by omega, hrpos, hroom⟩
  | storing stores taken =>
    simp only [WriterOk, hw, List.length_append] at hok ⊢
    exact ⟨by omega, hok.2⟩
  | advancing taken wpos =>
    simp only [WriterOk, hw, List.length_append] at hok ⊢
    exact ⟨by omega, hok.2⟩

/-! ## The steps of the writer -/

/-- A call of `write` begins. -/
theorem write (h : Inv cap s) {buffer : List α} {buffer_size : Nat} (hidle : s.writer = .idle)
    (hle : buffer_size ≤ buffer.length) :
    Inv cap { s with writer := .loaded buffer buffer_size s.c.read_pos } := by
  refine { h with window := ?_, writer := ⟨hle, s.delivered.length, le_rfl, h.read_eq, h.bound⟩ }
  have hwin := h.window
  rw [stored, hidle] at hwin
  exact hwin

theorem writer_loaded (h : Inv cap s) {buffer : List α} {buffer_size rpos : Nat}
    (hw : s.writer = .loaded buffer buffer_size rpos) :
    ∃ s', s.stepWriter = some s' ∧ Inv cap s' := by
  have hok := h.writer
  simp only [WriterOk, hw] at hok
  obtain ⟨hbuf, seen, hseen, rfl, hroom⟩ := hok
  have hdel := h.delivered_le
  have hsize := h.size_eq
  have hcells := (h.placed hseen hroom).write_cells h.write_eq buffer_size
  dsimp only at hcells
  generalize hk : min buffer_size (s.c.size - s.c.m_iBlockSize - (s.accepted.length - seen)) = k
    at hcells
  have hlen : (buffer.take k).length = k := List.length_take_of_le (by omega)
  have hcount : (ringCells s.c.size s.accepted.length k).length = k := by simp [ringCells]
  refine ⟨{ s with
      writer := .storing ((ringCells s.c.size s.accepted.length k).zip buffer) (buffer.take k) },
    ?_, ?_⟩
  · rw [stepWriter, hw]
    simp only [hcells, hcount, Option.bind_eq_bind, Option.bind_some]
    rfl
  · have hzip : ((ringCells s.c.size s.accepted.length k).zip buffer).length = k := by
      rw [List.length_zip, hcount]
      omega
    have hwin := h.window
    simp only [stored, hw] at hwin
    refine { h with window := ?_, writer := ?_ }
    · simp only [stored, hzip, hlen, Nat.sub_self, List.take_zero]
      exact hwin
    · simp only [WriterOk, hzip, hlen, Nat.sub_self, List.drop_zero]
      refine ⟨by omega, le_rfl, ?_⟩
      rw [List.zip_eq_zip_take_min, hcount, Nat.min_eq_left (by omega),
        List.take_of_length_le (by omega)]
      rfl

/-- A store behind the elements that are published lengthens the window. -/
theorem writer_store (h : Inv cap s) {i : Nat} {x : α} {stores : List (Nat × α)} {taken : List α}
    (hw : s.writer = .storing ((i, x) :: stores) taken) :
    ∃ s', s.stepWriter = some s' ∧ Inv cap s' := by
  have hok := h.writer
  simp only [WriterOk, hw, List.length_cons] at hok
  obtain ⟨hroom, hle, hstores⟩ := hok
  generalize hj : taken.length - (stores.length + 1) = j at hstores
  have hlt : j < taken.length := by omega
  rw [ringCells_succ, List.drop_eq_getElem_cons hlt, List.zip_cons_cons] at hstores
  obtain ⟨hcell, hrest⟩ := List.cons.inj hstores
  obtain ⟨rfl, rfl⟩ := Prod.mk.inj hcell
  have hsize := h.size_eq
  have hblock := h.block_pos
  have herased := h.erased_le
  have hbuf := h.length_buf
  have hnext : taken.length - stores.length = j + 1 := by omega
  have hwin := h.window
  simp only [stored, hw, List.length_cons, hj] at hwin
  have hcount : (s.accepted.drop (s.delivered.length + s.erased) ++ taken.take j).length =
      s.accepted.length - (s.delivered.length + s.erased) + j := by
    rw [List.length_append, List.length_drop, List.length_take_of_le hlt.le]
  have hset := hwin.set_snoc (x := taken[j]) (by omega)
  have hindex : s.delivered.length + s.erased +
      (s.accepted.length - (s.delivered.length + s.erased) + j) = s.accepted.length + j := by omega
  rw [hcount, hindex, hbuf, List.append_assoc, ← List.take_succ_eq_append_getElem hlt] at hset
  refine ⟨{ s with
      c := { s.c with buf := s.c.buf.set ((s.accepted.length + j) % s.c.size) taken[j] }
      writer := .storing stores taken }, ?_, ?_⟩
  · rw [stepWriter, hw]
    simp only [store, hbuf, if_pos (Nat.mod_lt _ h.size_pos), Option.bind_eq_bind, Option.bind_some]
    rfl
  · refine { h with length_buf := ?_, window := ?_, writer := ?_ }
    · rw [List.length_set, hbuf]
    · simp only [stored, hnext]
      exact hset
    · simp only [WriterOk, hnext]
      exact ⟨hroom, by omega, by rw [Nat.add_assoc] at hrest; exact hrest⟩

/-- `advance_write_pointer` loads `write_pos`. -/
theorem writer_stored (h : Inv cap s) {taken : List α} (hw : s.writer = .storing [] taken) :
    ∃ s', s.stepWriter = some s' ∧ Inv cap s' := by
  have hok := h.writer
  simp only [WriterOk, hw] at hok
  have hwin := h.window
  simp only [stored, hw, List.length_nil, Nat.sub_zero, List.take_length] at hwin
  refine ⟨{ s with writer := .advancing taken s.c.write_pos }, by rw [stepWriter, hw], ?_⟩
  exact { h with window := hwin, writer := ⟨hok.1, rfl⟩ }

/-- What is stored is published. -/
theorem writer_advancing (h : Inv cap s) {taken : List α} {wpos : Nat}
    (hw : s.writer = .advancing taken wpos) : ∃ s', s.stepWriter = some s' ∧ Inv cap s' := by
  have hok := h.writer
  simp only [WriterOk, hw] at hok
  obtain ⟨hroom, rfl⟩ := hok
  have hwin := h.window
  simp only [stored, hw] at hwin
  have hsize := h.size_eq
  have hrange : INT_RANGE + INT_RANGE = UINT_RANGE := by decide
  have hlt := h.size_lt
  have hblock := h.block_pos
  have hdel := h.delivered_le
  have herased := h.erased_le
  have hpos := Nat.mod_lt s.accepted.length h.size_pos
  have hadd : uadd s.c.write_pos taken.length % s.c.size =
      (s.accepted ++ taken).length % s.c.size := by
    rw [h.write_eq, uadd_eq (by omega), Nat.mod_add_mod, List.length_append]
  refine ⟨{ s with
      c := { s.c with write_pos := (s.accepted ++ taken).length % s.c.size }
      writer := .idle
      accepted := s.accepted ++ taken }, ?_, ?_⟩
  · rw [stepWriter, hw]
    simp only [CircBuf.advance_write_pointer, if_neg h.size_pos.ne', hadd, Option.bind_eq_bind,
      Option.bind_some]
    rfl
  · refine { h with
      write_eq := rfl, order := ?_, bound := ?_, window := ?_, writer := trivial,
      reader := h.reader_publish taken _ }
    · exact h.order.trans (List.take_append_of_le_length hdel).symm
    · rw [List.length_append]
      omega
    · rw [← List.drop_append_of_le_length herased] at hwin
      simp only [stored, List.append_nil]
      exact hwin

theorem writer_step (h : Inv cap s) (hbusy : s.writer ≠ .idle) :
    ∃ s', s.stepWriter = some s' ∧ Inv cap s' := by
  cases hw : s.writer with
  | idle => exact absurd hw hbusy
  | loaded buffer buffer_size rpos => exact h.writer_loaded hw
  | storing stores taken =>
    cases stores with
    | nil => exact h.writer_stored hw
    | cons store stores => exact h.writer_store hw
  | advancing taken wpos => exact h.writer_advancing hw

/-! ## The steps of the reader -/

/-- A call of `read` begins. -/
theorem read (h : Inv cap s) (buffer_size : Nat) (hidle : s.reader = .idle) :
    Inv cap { s with reader := .loaded buffer_size s.c.read_pos } := by
  have hwin := h.window
  simp only [erased, hidle] at hwin
  exact { h with window := hwin, reader := rfl }

theorem reader_loaded (h : Inv cap s) (x : α) {buffer_size rpos : Nat}
    (hr : s.reader = .loaded buffer_size rpos) :
    ∃ s', s.stepReader x = some s' ∧ Inv cap s' := by
  have hok := h.reader
  simp only [ReaderOk, hr] at hok
  have hdel := h.delivered_le
  have hcells := (h.placed le_rfl h.bound).read_cells rfl buffer_size
  rw [← h.read_eq, ← hok] at hcells
  dsimp only at hcells
  generalize hk : min buffer_size (s.accepted.length - s.delivered.length) = k at hcells
  have hcount : (ringCells s.c.size s.delivered.length k).length = k := by simp [ringCells]
  have hwin := h.window
  simp only [erased, hr] at hwin
  refine ⟨{ s with
      reader := .loading (ringCells s.c.size s.delivered.length k)
        (ringCells s.c.size s.delivered.length k) [] },
    ?_, { h with window := hwin, reader := ?_ }⟩
  · rw [stepReader, hr]
    simp only [hcells, Option.bind_eq_bind, Option.bind_some]
    rfl
  · simp only [ReaderOk, hcount, List.length_nil]
    exact ⟨Nat.zero_add _, by omega, trivial, rfl, rfl⟩

/-- The cell that is copied holds the next element that was accepted. -/
theorem reader_load (h : Inv cap s) (x : α) {i : Nat} {todo cells : List Nat} {got : List α}
    (hr : s.reader = .loading (i :: todo) cells got) :
    ∃ s', s.stepReader x = some s' ∧ Inv cap s' := by
  have hok := h.reader
  simp only [ReaderOk, hr, List.length_cons] at hok
  obtain ⟨hsum, hle, hcells, htodo, hgot⟩ := hok
  rw [ringCells_succ] at htodo
  obtain ⟨rfl, hrest⟩ := List.cons.inj htodo
  have hlt : s.delivered.length + got.length < s.accepted.length := by omega
  have hwin := h.window
  simp only [erased, hr, Nat.add_zero] at hwin
  have hcell : s.c.buf[(s.delivered.length + got.length) % s.c.size]? =
      some s.accepted[s.delivered.length + got.length] := by
    have hat := hwin got.length (by rw [List.length_append, List.length_drop]; omega)
    rw [h.length_buf, List.getElem_append_left (by rw [List.length_drop]; omega),
      List.getElem_drop] at hat
    exact hat
  refine ⟨{ s with
      reader := .loading todo cells (got ++ [s.accepted[s.delivered.length + got.length]]) },
    ?_, { h with window := hwin, reader := ?_ }⟩
  · rw [stepReader, hr]
    simp only [hcell, Option.bind_eq_bind, Option.bind_some]
    rfl
  · simp only [ReaderOk, List.length_append, List.length_singleton]
    refine ⟨by omega, hle, hcells, hrest, ?_⟩
    have hdrop : got.length < (s.accepted.drop s.delivered.length).length := by
      rw [List.length_drop]
      omega
    rw [List.take_succ_eq_append_getElem hdrop, ← hgot, List.getElem_drop]

/-- The cells of what was copied are erased next. -/
theorem reader_copied (h : Inv cap s) (x : α) {cells : List Nat} {got : List α}
    (hr : s.reader = .loading [] cells got) : ∃ s', s.stepReader x = some s' ∧ Inv cap s' := by
  have hok := h.reader
  simp only [ReaderOk, hr, List.length_nil, Nat.add_zero] at hok
  obtain ⟨hsum, hle, hcells, -, hgot⟩ := hok
  have hwin := h.window
  simp only [erased, hr] at hwin
  refine ⟨{ s with reader := .erasing cells got }, by rw [stepReader, hr],
    { h with window := ?_, reader := ?_ }⟩
  · simp only [erased, hsum, Nat.sub_self]
    exact hwin
  · simp only [ReaderOk, hsum, Nat.sub_self]
    exact ⟨le_rfl, hle, hcells, hsum ▸ hgot⟩

/-- A cell that is erased is the first one of the window. -/
theorem reader_erase (h : Inv cap s) (x : α) {i : Nat} {todo : List Nat} {got : List α}
    (hr : s.reader = .erasing (i :: todo) got) : ∃ s', s.stepReader x = some s' ∧ Inv cap s' := by
  have hok := h.reader
  simp only [ReaderOk, hr, List.length_cons] at hok
  obtain ⟨hlen, hle, htodo, hgot⟩ := hok
  generalize hj : got.length - (todo.length + 1) = j at htodo
  have hnext : got.length - todo.length = j + 1 := by omega
  rw [ringCells_succ] at htodo
  obtain ⟨rfl, hrest⟩ := List.cons.inj htodo
  have hlt : s.delivered.length + j < s.accepted.length := by omega
  have hwin := h.window
  simp only [erased, hr, List.length_cons, hj] at hwin
  rw [List.drop_eq_getElem_cons hlt, List.cons_append] at hwin
  have hbuf := h.length_buf
  have hsize := h.size_eq
  have hblock := h.block_pos
  have hstored := h.stored_le
  have hset := hwin.set_head (y := x) (by
    rw [List.length_append, List.length_drop]
    omega)
  rw [hbuf] at hset
  refine ⟨{ s with
      c := { s.c with buf := s.c.buf.set ((s.delivered.length + j) % s.c.size) x }
      reader := .erasing todo got }, ?_, ?_⟩
  · rw [stepReader, hr]
    simp only [store, hbuf, if_pos (Nat.mod_lt _ h.size_pos), Option.bind_eq_bind, Option.bind_some]
    rfl
  · refine { h with length_buf := ?_, window := ?_, reader := ?_ }
    · rw [List.length_set, hbuf]
    · simp only [erased, hnext]
      exact hset
    · simp only [ReaderOk, hnext]
      exact ⟨by omega, hle, hrest, hgot⟩

/-- `advance_read_pointer` loads `read_pos`. -/
theorem reader_erased (h : Inv cap s) (x : α) {got : List α} (hr : s.reader = .erasing [] got) :
    ∃ s', s.stepReader x = some s' ∧ Inv cap s' := by
  have hok := h.reader
  simp only [ReaderOk, hr] at hok
  have hwin := h.window
  simp only [erased, hr, List.length_nil, Nat.sub_zero] at hwin
  refine ⟨{ s with reader := .advancing got s.c.read_pos }, by rw [stepReader, hr], ?_⟩
  exact { h with window := hwin, reader := ⟨hok.2.1, hok.2.2.2, rfl⟩ }

/-- The cells that are erased are given back, and what was in them is delivered. -/
theorem reader_advancing (h : Inv cap s) (x : α) {got : List α} {rpos : Nat}
    (hr : s.reader = .advancing got rpos) : ∃ s', s.stepReader x = some s' ∧ Inv cap s' := by
  have hok := h.reader
  simp only [ReaderOk, hr] at hok
  obtain ⟨hle, hgot, rfl⟩ := hok
  have hwin := h.window
  simp only [erased, hr] at hwin
  have hsize := h.size_eq
  have hrange : INT_RANGE + INT_RANGE = UINT_RANGE := by decide
  have hlt := h.size_lt
  have hbound := h.bound
  have hpos := Nat.mod_lt s.delivered.length h.size_pos
  have hadd : uadd s.c.read_pos got.length % s.c.size =
      (s.delivered ++ got).length % s.c.size := by
    rw [h.read_eq, uadd_eq (by omega), Nat.mod_add_mod, List.length_append]
  refine ⟨{ s with
      c := { s.c with read_pos := (s.delivered ++ got).length % s.c.size }
      reader := .idle
      delivered := s.delivered ++ got }, ?_, ?_⟩
  · rw [stepReader, hr]
    simp only [CircBuf.advance_read_pointer, if_neg h.size_pos.ne', hadd, Option.bind_eq_bind,
      Option.bind_some]
    rfl
  · refine { h with
      read_eq := rfl, order := ?_, bound := ?_, window := ?_, reader := trivial,
      writer := h.writer_release got _ }
    · rw [List.length_append, List.take_add, ← h.order, ← hgot]
    · rw [List.length_append]
      dsimp only
      omega
    · simp only [erased, List.length_append, Nat.add_zero]
      exact hwin

theorem reader_step (h : Inv cap s) (x : α) (hbusy : s.reader ≠ .idle) :
    ∃ s', s.stepReader x = some s' ∧ Inv cap s' := by
  cases hr : s.reader with
  | idle => exact absurd hr hbusy
  | loaded buffer_size rpos => exact h.reader_loaded x hr
  | loading todo cells got =>
    cases todo with
    | nil => exact h.reader_copied x hr
    | cons i todo => exact h.reader_load x hr
  | erasing todo got =>
    cases todo with
    | nil => exact h.reader_erased x hr
    | cons i todo => exact h.reader_erase x hr
  | advancing got rpos => exact h.reader_advancing x hr

/-- The step: whichever thread goes on. -/
theorem step (h : Inv cap s) (x : α) {e : Event α} (hs : s.step x e = some s') : Inv cap s' := by
  cases e with
  | write buffer buffer_size =>
    simp only [Shared.step] at hs
    split at hs
    · next hidle =>
      split_ifs at hs with hle
      cases hs
      exact h.write hidle hle
    · cases hs
  | writer =>
    have hbusy : s.writer ≠ .idle := by
      intro hidle
      simp only [Shared.step, stepWriter, hidle] at hs
      cases hs
    obtain ⟨t, ht, hinv⟩ := h.writer_step hbusy
    cases ht.symm.trans hs
    exact hinv
  | read buffer_size =>
    simp only [Shared.step] at hs
    split at hs
    · next hidle =>
      cases hs
      exact h.read buffer_size hidle
    · cases hs
  | reader =>
    have hbusy : s.reader ≠ .idle := by
      intro hidle
      simp only [Shared.step, stepReader, hidle] at hs
      cases hs
    obtain ⟨t, ht, hinv⟩ := h.reader_step x hbusy
    cases ht.symm.trans hs
    exact hinv

/-- A buffer that is empty and that no thread uses. -/
theorem quiet {c : CircBuf α} (h : c.Holds []) (hsize : c.size = cap + c.m_iBlockSize)
    (hpos : c.read_pos = 0) : Inv cap (quiet c) where
  size_lt := h.size_lt
  block_pos := h.block_pos
  size_eq := hsize
  length_buf := h.length_buf
  read_eq := by rw [Shared.quiet, List.length_nil, Nat.zero_mod, hpos]
  write_eq := h.write_eq.trans (by rw [hpos]; rfl)
  order := rfl
  bound := Nat.zero_le _
  window := Window.nil
  writer := trivial
  reader := trivial

/-- What has been accepted and not delivered. -/
theorem queue_eq (h : Inv cap s) :
    s.accepted = s.delivered ++ s.accepted.drop s.delivered.length ∧
      (s.accepted.drop s.delivered.length).length ≤ cap := by
  have hbound := h.bound
  constructor
  · conv_lhs => rw [← List.take_append_drop s.delivered.length s.accepted, ← h.order]
  · rw [List.length_drop]
    omega

/-- When no thread is in a call, the buffer holds what has not been delivered. -/
theorem holds (h : Inv cap s) (hwriter : s.writer = .idle) (hreader : s.reader = .idle) :
    s.c.Holds (s.accepted.drop s.delivered.length) := by
  have hwin := h.window
  simp only [stored, erased, hwriter, hreader, Nat.add_zero, List.append_nil] at hwin
  have hplaced := h.placed le_rfl h.bound
  rw [← h.read_eq] at hplaced
  refine ⟨by rw [List.length_drop]; exact hplaced, h.length_buf, ?_⟩
  rw [h.read_eq, ← h.length_buf]
  exact Window.mod_iff.mpr hwin

end Inv

/-! ## The runs -/

/-- The steps as a relation. -/
def Step (x : α) (s : Shared α) (e : Event α) (s' : Shared α) : Prop := s.step x e = some s'

/-- The run, by the step. -/
theorem inv_of_run {c : CircBuf α} {cell : Nat → α} {x : α} {n iBlockSize : Nat} {c₀ : CircBuf α}
    {es : List (Event α)} (hn : 0 < n) (hblock : 0 < iBlockSize) (hlt : n + iBlockSize < INT_RANGE)
    (hres : c.reserve cell n iBlockSize = some c₀) (h : Run (Step x) (quiet c₀) es s) :
    Inv (n / iBlockSize * iBlockSize) s := by
  obtain ⟨c₁, hres', hholds, hbs, hsize, hpos⟩ := c.reserve_holds cell hn hblock hlt
  cases hres'.symm.trans hres
  exact h.invariant (fun hi hs => hi.step x hs) (.quiet hholds (by rw [hsize, hbs]) hpos)

/-- However the loads and stores of the two threads interleave, and whatever they write and read:
what the calls of `read` have given is the beginning of what the calls of `write` have taken, and
what is left is never more than the whole blocks in `n`. When both have returned, it is what the
buffer holds. -/
theorem run_faithful (c : CircBuf α) (cell : Nat → α) (x : α) {n iBlockSize : Nat} {c₀ : CircBuf α}
    {es : List (Event α)} (hn : 0 < n) (hblock : 0 < iBlockSize) (hlt : n + iBlockSize < INT_RANGE)
    (hres : c.reserve cell n iBlockSize = some c₀) (h : Run (Step x) (quiet c₀) es s) :
    ∃ queue, s.accepted = s.delivered ++ queue ∧ queue.length ≤ n / iBlockSize * iBlockSize ∧
      (s.writer = .idle → s.reader = .idle → s.c.Holds queue) := by
  have hinv := inv_of_run hn hblock hlt hres h
  obtain ⟨hqueue, hlen⟩ := hinv.queue_eq
  exact ⟨_, hqueue, hlen, hinv.holds⟩

/-! ## Races -/

namespace Inv

/-- The writer stores behind everything that has been accepted. -/
theorem writer_cells (h : Inv cap s) {i : Nat} (hi : i ∈ s.writer.cells) :
    ∃ a, s.accepted.length ≤ a ∧ a < s.delivered.length + cap ∧ a % s.c.size = i := by
  have hok := h.writer
  cases hw : s.writer with
  | storing stores taken =>
    simp only [WriterOk, hw] at hok
    obtain ⟨hroom, hle, hstores⟩ := hok
    rw [hw, Writer.cells, hstores, List.map_fst_zip (by simp [ringCells]; omega),
      mem_ringCells] at hi
    obtain ⟨j, hj, hcell⟩ := hi
    exact ⟨_, by omega, by omega, hcell⟩
  | _ => simp [hw, Writer.cells] at hi

/-- The reader touches cells of what has been accepted and not delivered. -/
theorem reader_cells (h : Inv cap s) {i : Nat} (hi : i ∈ s.reader.cells) :
    ∃ d, s.delivered.length ≤ d ∧ d < s.accepted.length ∧ d % s.c.size = i := by
  have hok := h.reader
  cases hr : s.reader with
  | loading todo cells got =>
    simp only [ReaderOk, hr] at hok
    obtain ⟨hsum, hle, hcells, -, -⟩ := hok
    rw [hr, Reader.cells, hcells, mem_ringCells] at hi
    obtain ⟨j, hj, hcell⟩ := hi
    exact ⟨_, by omega, by omega, hcell⟩
  | erasing todo got =>
    simp only [ReaderOk, hr] at hok
    obtain ⟨hlen, hle, htodo, -⟩ := hok
    rw [hr, Reader.cells, htodo, mem_ringCells] at hi
    obtain ⟨j, hj, hcell⟩ := hi
    exact ⟨_, by omega, by omega, hcell⟩
  | _ => simp [hr, Reader.cells] at hi

end Inv

/-- The elements are no atomic variables, and need not be: in no state that the threads reach is
there a cell in which the writer still stores and which the reader still loads or erases. -/
theorem run_raceFree (c : CircBuf α) (cell : Nat → α) (x : α) {n iBlockSize : Nat} {c₀ : CircBuf α}
    {es : List (Event α)} (hn : 0 < n) (hblock : 0 < iBlockSize) (hlt : n + iBlockSize < INT_RANGE)
    (hres : c.reserve cell n iBlockSize = some c₀) (h : Run (Step x) (quiet c₀) es s) :
    s.writer.cells.Disjoint s.reader.cells := by
  have hinv := inv_of_run hn hblock hlt hres h
  have hsize := hinv.size_eq
  have hpos := hinv.block_pos
  intro i hw hr
  obtain ⟨a, hacc, hroom, rfl⟩ := hinv.writer_cells hw
  obtain ⟨d, hdel, hlt, hcell⟩ := hinv.reader_cells hr
  exact mod_ne_of_lt (by omega) (by omega) hcell

/-! ## No thread waits for the other -/

theorem stepWriter_left (h : s.stepWriter = some s') :
    s'.writer.left < s.writer.left ∧ s'.reader = s.reader := by
  cases hw : s.writer with
  | idle =>
    simp only [stepWriter, hw] at h
    cases h
  | loaded buffer buffer_size rpos =>
    simp only [stepWriter, hw, Option.bind_eq_bind] at h
    obtain ⟨cells, hcells, h⟩ := Option.bind_eq_some_iff.mp h
    cases h
    have hlen := Pointers.length_cells_le hcells
    refine ⟨?_, rfl⟩
    simp only [Writer.left, List.length_zip]
    omega
  | storing stores taken =>
    cases stores with
    | nil =>
      simp only [stepWriter, hw] at h
      cases h
      exact ⟨Nat.lt_add_one 1, rfl⟩
    | cons store stores =>
      simp only [stepWriter, hw, Shared.store, Option.bind_eq_bind] at h
      split_ifs at h
      · cases h
        exact ⟨Nat.lt_add_one _, rfl⟩
      · cases h
  | advancing taken wpos =>
    simp only [stepWriter, hw, Option.bind_eq_bind] at h
    obtain ⟨c, -, h⟩ := Option.bind_eq_some_iff.mp h
    cases h
    exact ⟨Nat.zero_lt_one, rfl⟩

theorem stepReader_left {x : α} (h : s.stepReader x = some s') :
    s'.reader.left < s.reader.left ∧ s'.writer = s.writer := by
  cases hr : s.reader with
  | idle =>
    simp only [stepReader, hr] at h
    cases h
  | loaded buffer_size rpos =>
    simp only [stepReader, hr, Option.bind_eq_bind] at h
    obtain ⟨cells, hcells, h⟩ := Option.bind_eq_some_iff.mp h
    cases h
    have hlen := Pointers.length_cells_le hcells
    refine ⟨?_, rfl⟩
    simp only [Reader.left]
    omega
  | loading todo cells got =>
    cases todo with
    | nil =>
      simp only [stepReader, hr] at h
      cases h
      refine ⟨?_, rfl⟩
      simp only [Reader.left, List.length_nil]
      omega
    | cons i todo =>
      simp only [stepReader, hr, Option.bind_eq_bind] at h
      obtain ⟨y, -, h⟩ := Option.bind_eq_some_iff.mp h
      cases h
      refine ⟨?_, rfl⟩
      simp only [Reader.left, List.length_cons]
      omega
  | erasing todo got =>
    cases todo with
    | nil =>
      simp only [stepReader, hr] at h
      cases h
      exact ⟨Nat.lt_add_one 1, rfl⟩
    | cons i todo =>
      simp only [stepReader, hr, Shared.store, Option.bind_eq_bind] at h
      split_ifs at h
      · cases h
        exact ⟨Nat.lt_add_one _, rfl⟩
      · cases h
  | advancing got rpos =>
    simp only [stepReader, hr, Option.bind_eq_bind] at h
    obtain ⟨c, -, h⟩ := Option.bind_eq_some_iff.mp h
    cases h
    exact ⟨Nat.zero_lt_one, rfl⟩

namespace Event

/-- The steps in which a call goes on. -/
def byWriter : Event α → Bool
  | .writer => true
  | _ => false

def byReader : Event α → Bool
  | .reader => true
  | _ => false

end Event

/-- While no call begins, each thread takes the steps that are left of its call, and no others. -/
theorem run_left {x : α} {es : List (Event α)} (h : Run (Step x) s es s')
    (hgo : ∀ e ∈ es, e.byWriter ∨ e.byReader) :
    es.countP Event.byWriter + s'.writer.left ≤ s.writer.left ∧
      es.countP Event.byReader + s'.reader.left ≤ s.reader.left := by
  induction h with
  | refl => exact ⟨Nat.le_of_eq (Nat.zero_add _), Nat.le_of_eq (Nat.zero_add _)⟩
  | @tail t u es e hr hs ih =>
    obtain ⟨hwriter, hreader⟩ := ih fun e he => hgo e (by simp [he])
    rw [List.countP_append, List.countP_append, List.countP_singleton, List.countP_singleton]
    cases e with
    | writer =>
      obtain ⟨hlt, hsame⟩ := stepWriter_left hs
      simp only [Event.byWriter, Event.byReader, reduceIte, Bool.false_eq_true, hsame]
      omega
    | reader =>
      obtain ⟨hlt, hsame⟩ := stepReader_left hs
      simp only [Event.byWriter, Event.byReader, reduceIte, Bool.false_eq_true, hsame]
      omega
    | write buffer buffer_size =>
      simpa [Event.byWriter, Event.byReader] using hgo (.write buffer buffer_size)
    | read buffer_size => simpa [Event.byWriter, Event.byReader] using hgo (.read buffer_size)

/-- A thread that is in a call can always take its next step, whatever the other one does, and
returns after a number of its own steps that its call had when it began. -/
theorem run_waitFree (c : CircBuf α) (cell : Nat → α) (x : α) {n iBlockSize : Nat} {c₀ : CircBuf α}
    {es fs : List (Event α)} {t : Shared α} (hn : 0 < n) (hblock : 0 < iBlockSize)
    (hlt : n + iBlockSize < INT_RANGE) (hres : c.reserve cell n iBlockSize = some c₀)
    (h : Run (Step x) (quiet c₀) es s) (hrest : Run (Step x) s fs t)
    (hgo : ∀ e ∈ fs, e.byWriter ∨ e.byReader) :
    (t.writer ≠ .idle → (t.step x .writer).isSome) ∧ (t.reader ≠ .idle → (t.step x .reader).isSome) ∧
      fs.countP Event.byWriter + t.writer.left ≤ s.writer.left ∧
      fs.countP Event.byReader + t.reader.left ≤ s.reader.left := by
  have hinv := inv_of_run hn hblock hlt hres (h.append hrest)
  refine ⟨fun hbusy => ?_, fun hbusy => ?_, run_left hrest hgo⟩
  · obtain ⟨t', ht', -⟩ := hinv.writer_step hbusy
    exact Option.isSome_iff_exists.mpr ⟨t', ht'⟩
  · obtain ⟨t', ht', -⟩ := hinv.reader_step x hbusy
    exact Option.isSome_iff_exists.mpr ⟨t', ht'⟩

/-! ## A run with both threads in a call -/

/-- A buffer of five cells, and one call of `write` that has returned. -/
def bothBegin : List (Event Nat) :=
  [.write [7, 8] 2, .writer, .writer, .writer, .writer, .writer, .write [9] 1, .read 1]

/-- The writer has its room, and the reader its elements. -/
def bothGoOn : List (Event Nat) := [.reader, .writer]

def begun : Shared Nat :=
  ⟨⟨[7, 8, 2, 3, 4], 5, 1, 0, 2⟩, .loaded [9] 1 0, .loaded 1 0, [7, 8], []⟩

def gone : Shared Nat :=
  ⟨⟨[7, 8, 2, 3, 4], 5, 1, 0, 2⟩, .storing [(2, 9)] [9], .loading [0] [0] [], [7, 8], []⟩

theorem begun_of_run : Run (Step 255) (quiet ⟨[0, 1, 2, 3, 4], 5, 1, 0, 0⟩) bothBegin begun :=
  (Run.foldlM_iff (f := Shared.step 255)).mp rfl

theorem gone_of_run : Run (Step 255) begun bothGoOn gone :=
  (Run.foldlM_iff (f := Shared.step 255)).mp rfl

theorem run_faithful_gone : ∃ queue, gone.accepted = gone.delivered ++ queue ∧
    queue.length ≤ 4 / 1 * 1 ∧
      (gone.writer = .idle → gone.reader = .idle → gone.c.Holds queue) :=
  run_faithful ⟨[], 0, 0, 0, 0⟩ id 255 (show 0 < 4 by decide) (show 0 < 1 by decide) (by decide)
    rfl (begun_of_run.append gone_of_run)

theorem run_raceFree_gone : gone.writer.cells.Disjoint gone.reader.cells :=
  run_raceFree ⟨[], 0, 0, 0, 0⟩ id 255 (show 0 < 4 by decide) (show 0 < 1 by decide) (by decide)
    rfl (begun_of_run.append gone_of_run)

theorem run_waitFree_gone :
    (gone.writer ≠ .idle → (gone.step 255 .writer).isSome) ∧
      (gone.reader ≠ .idle → (gone.step 255 .reader).isSome) ∧
      bothGoOn.countP Event.byWriter + gone.writer.left ≤ begun.writer.left ∧
      bothGoOn.countP Event.byReader + gone.reader.left ≤ begun.reader.left :=
  run_waitFree ⟨[], 0, 0, 0, 0⟩ id 255 (show 0 < 4 by decide) (show 0 < 1 by decide) (by decide)
    rfl begun_of_run gone_of_run (by decide)

end Shared

end YModem.MyIO
