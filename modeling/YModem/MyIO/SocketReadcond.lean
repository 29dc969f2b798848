import YModem.Lib.Bytes

/-!
# `wcsReadcond` (`Ensc351/SocketReadcond.c`)

A read of at least `min` bytes from a socket, put together from several calls of `read()`. What the
kernel answers to these calls is a list that they consume; a call for which there is no answer in
the list is still under way. The other system calls succeed on a socket, but for a `SO_RCVTIMEO`
whose microseconds are out of range.
-/

namespace YModem.MyIO.SocketReadcond

open YModem.Lib

/-- `errno`; EAGAIN is the same number as EWOULDBLOCK. -/
inductive Errno where
  | EINTR
  | EWOULDBLOCK
  | EINVAL
  | other (number : Nat)
deriving DecidableEq, Repr

/-- What the kernel answers to a `read()`: an error, or the bytes it has, of which the call takes
as many as it asks for. No bytes stand for the end of the stream. -/
abbrev ReadResult := Except Errno (List UInt8)

/-- A `struct timeval` that `SO_RCVTIMEO` accepts. -/
structure Timeval where
  tv_sec : Int
  tv_usec : Int
  inRange : 0 ≤ tv_usec ∧ tv_usec < 1000000

/-- The settings of a socket. -/
structure SockOpts where
  rcvtimeo : Timeval
  rcvlowat : Int
  nonblock : Bool

/-- The socket, the memory at `buf` and `errno`, and the bytes that `read()` has taken from the
socket. -/
structure Call where
  opts : SockOpts
  buf : List UInt8
  errno : Errno
  taken : List UInt8

/-- Why a call has not returned. -/
inductive Stopped where
  /-- A `read()` is under way. -/
  | waiting
  /-- `PE` exits. -/
  | exited
deriving DecidableEq, Repr

namespace Call

variable (c : Call)

/-- `read(fd, buf + offset, request)`. -/
def read (offset request : Nat) : ReadResult → Int × Call
  | .error e => (-1, { c with errno := e })
  | .ok bytes =>
    let bytes := bytes.take request
    (bytes.length, { c with buf := overwrite c.buf offset bytes, taken := c.taken ++ bytes })

/-- `SO_RCVTIMEO` from tenths of a second. -/
def setRcvtimeo (time : Int) : Except Stopped Call :=
  let tv_usec := time.tmod 10 * 100000
  if h : 0 ≤ tv_usec ∧ tv_usec < 1000000 then
    .ok { c with opts.rcvtimeo := ⟨time.tdiv 10, tv_usec, h⟩ }
  else .error .exited

def setRcvlowat (lowat : Int) : Call := { c with opts.rcvlowat := lowat }

def setNonblock (nonblock : Bool) : Call := { c with opts.nonblock := nonblock }

end Call

/-- The local variables. -/
structure Locals where
  call : Call
  bytesRead : Int
  bytesSoFar : Nat
  errnoHold : Errno

/-- The two loops. -/
def readMin (n min : Nat) : List ReadResult → Locals → Except Stopped (Locals × List ReadResult)
  | [], _ => .error .waiting
  | result :: results, l =>
    let (bytesRead, call) := l.call.read l.bytesSoFar (n - l.bytesSoFar) result
    let l := { l with call := call, bytesRead := bytesRead }
    if bytesRead = -1 ∧ call.errno = .EINTR then readMin n min results l
    else if bytesRead = -1 then .ok ({ l with errnoHold := call.errno }, results)
    else if bytesRead ≠ 0 then
      let l := { l with bytesSoFar := l.bytesSoFar + bytesRead.toNat }
      if l.bytesSoFar < min then readMin n min results l else .ok (l, results)
    else .ok (l, results)

/-- "attempt to read everything off the socket with a non-blocking read()". -/
def readRest (n : Nat) (l : Locals) : List ReadResult → Except Stopped Locals
  | [] => .error .waiting
  | result :: _ =>
    let flags := l.call.opts.nonblock
    let call := (l.call.setRcvlowat 1).setNonblock true
    let (bytesRead, call) := call.read l.bytesSoFar (n - l.bytesSoFar) result
    let l := { l with call := call.setNonblock flags }
    if bytesRead = -1 then
      if call.errno = .EWOULDBLOCK then .ok { l with bytesRead := l.bytesSoFar }
      else .ok { l with bytesRead := -1, errnoHold := call.errno }
    else .ok { l with bytesRead := bytesRead + l.bytesSoFar }

/-- "reset the socket". -/
def resetSocket (hold : SockOpts) (l : Locals) : Int × Call :=
  let call := { l.call with opts.rcvtimeo := hold.rcvtimeo, opts.rcvlowat := hold.rcvlowat }
  (l.bytesRead, if l.bytesRead = -1 then { call with errno := l.errnoHold } else call)

/-- A read of at least `min` bytes, with the timeout set. -/
def readAtLeast (n min : Nat) (hold : SockOpts) (results : List ReadResult) (c : Call) :
    Except Stopped (Int × Call) := do
  let (l, results) ← readMin n min results ⟨c.setRcvlowat min, 0, 0, c.errno⟩
  let l := if l.bytesRead ≠ -1 then { l with bytesRead := l.bytesSoFar } else l
  let l ← if l.bytesRead = -1 ∧ l.errnoHold = .EWOULDBLOCK then readRest n l results else .ok l
  return resetSocket hold l

def wcsReadcond (n min : Nat) (time timeout : Int) (results : List ReadResult) (c : Call) :
    Except Stopped (Int × Call) :=
  if time ≠ timeout then .ok (-1, { c with errno := .EINVAL })
  else if min ≠ 0 then
    if time ≠ 0 then do
      let call ← c.setRcvtimeo time
      readAtLeast n min c.opts results call
    else if min = c.opts.rcvlowat then
      match results with
      | [] => .error .waiting
      | result :: _ => .ok (c.read 0 n result)
    else readAtLeast n min c.opts results c
  else do
    let l ← readRest n ⟨c, 0, 0, c.errno⟩ results
    return resetSocket c.opts l

/-! ## One `read()` -/

/-- The bytes taken lie at `buf`, one behind the other, and nothing else has changed there. -/
structure Call.Kept (n : Nat) (buf : List UInt8) (c : Call) : Prop where
  le : c.taken.length ≤ n
  stored : c.buf = overwrite buf 0 c.taken

section

variable {n min : Nat} {buf : List UInt8} {c : Call} {results rest : List ReadResult} {l l' : Locals}
  {e : Errno} {bytes : List UInt8}

theorem Call.kept_fresh (h : c.taken = []) : c.Kept n c.buf := by
  refine ⟨by simp [h], ?_⟩
  rw [h, overwrite_nil]

theorem Call.Kept.read (h : c.Kept n buf) (hbuf : n ≤ buf.length) (result : ReadResult) :
    (c.read c.taken.length (n - c.taken.length) result).2.Kept n buf := by
  obtain ⟨hle, hstored⟩ := h
  cases result with
  | error e => exact ⟨hle, hstored⟩
  | ok bytes =>
    have htake := List.length_take_le (n - c.taken.length) bytes
    refine ⟨?_, ?_⟩
    · change (c.taken ++ bytes.take (n - c.taken.length)).length ≤ n
      rw [List.length_append]
      omega
    · change overwrite c.buf c.taken.length (bytes.take (n - c.taken.length)) =
        overwrite buf 0 (c.taken ++ bytes.take (n - c.taken.length))
      have hfits : 0 + c.taken.length ≤ buf.length := by omega
      rw [hstored, ← overwrite_overwrite_adjacent hfits, Nat.zero_add]

/-! ## The two loops -/

/-- An error, seen by the loops. -/
def Locals.saw (l : Locals) (e : Errno) : Locals :=
  { l with call := { l.call with errno := e }, bytesRead := -1 }

/-- A read of as many of `bytes` as there is room for. -/
def Locals.took (n : Nat) (l : Locals) (bytes : List UInt8) : Locals :=
  { l with
    call := (l.call.read l.bytesSoFar (n - l.bytesSoFar) (.ok bytes)).2
    bytesRead := (bytes.take (n - l.bytesSoFar)).length
    bytesSoFar := l.bytesSoFar + (bytes.take (n - l.bytesSoFar)).length }

theorem readMin_interrupted :
    readMin n min (.error .EINTR :: results) l = readMin n min results (l.saw .EINTR) := by
  simp [readMin, Call.read, Locals.saw]

theorem readMin_error (he : e ≠ .EINTR) : readMin n min (.error e :: results) l =
    .ok ({ l.saw e with errnoHold := e }, results) := by
  simp [readMin, Call.read, Locals.saw, he]

theorem readMin_ok : readMin n min (.ok bytes :: results) l =
    if bytes.take (n - l.bytesSoFar) ≠ [] ∧ (l.took n bytes).bytesSoFar < min then
      readMin n min results (l.took n bytes)
    else .ok (l.took n bytes, results) := by
  have hnot : ∀ b : List UInt8, (b.length : Int) ≠ -1 := fun b => by omega
  have hzero : ∀ b : List UInt8, (b.length : Int) = 0 ↔ b = [] := fun b => by
    rw [Int.natCast_eq_zero, List.length_eq_zero_iff]
  simp only [readMin, Locals.took, Call.read, hnot, hzero, ne_eq, false_and, if_false,
    Int.toNat_natCast]
  by_cases hnil : bytes.take (n - l.bytesSoFar) = []
  · simp only [hnil, not_true, if_false, false_and, List.length_nil, Nat.add_zero]
  · simp only [hnil, not_false_iff, if_true, true_and]
    exact if_congr Iff.rfl rfl rfl

theorem Call.Kept.saw (h : l.call.Kept n buf) : (l.saw e).call.Kept n buf := ⟨h.le, h.stored⟩

theorem took_count (h : l.bytesSoFar = l.call.taken.length) :
    (l.took n bytes).bytesSoFar = (l.took n bytes).call.taken.length := by
  simp [Locals.took, Call.read, h]

theorem Call.Kept.took (h : l.call.Kept n buf) (hbuf : n ≤ buf.length)
    (hcount : l.bytesSoFar = l.call.taken.length) : (l.took n bytes).call.Kept n buf := by
  have hread := h.read hbuf (.ok bytes)
  rwa [← hcount] at hread

/-- There are too few bytes for the request to have cut them. -/
theorem took_all (hmin : min ≤ n) (hlt : (l.took n bytes).bytesSoFar < min) :
    bytes.take (n - l.bytesSoFar) = bytes := by
  refine List.take_of_length_le (Nat.le_of_not_lt fun hcut => ?_)
  simp only [Locals.took, List.length_take] at hlt
  omega

theorem took_bytesSoFar (hall : bytes.take (n - l.bytesSoFar) = bytes) :
    (l.took n bytes).bytesSoFar = l.bytesSoFar + bytes.length := by
  simp only [Locals.took, hall]

/-- The loops read on behind such a result, as long as there is not enough. -/
def goesOn : ReadResult → Bool
  | .error e => e = .EINTR
  | .ok bytes => bytes ≠ []

/-- The bytes of the results. -/
def bytesIn : List ReadResult → Nat
  | [] => 0
  | .error _ :: results => bytesIn results
  | .ok bytes :: results => bytes.length + bytesIn results

@[simp]
theorem bytesIn_error : bytesIn (.error e :: results) = bytesIn results := rfl

@[simp]
theorem bytesIn_ok : bytesIn (.ok bytes :: results) = bytes.length + bytesIn results := rfl

/-- Results that do not let the loops end, up to an error that does. -/
structure Fails (min k : Nat) (results rest : List ReadResult) (e : Errno)
    (pre : List ReadResult) : Prop where
  results : results = pre ++ .error e :: rest
  goesOn : ∀ r ∈ pre, goesOn r = true
  lt : k + bytesIn pre < min
  ne : e ≠ .EINTR

theorem Fails.interrupted {k : Nat} {pre : List ReadResult} (h : Fails min k results rest e pre) :
    Fails min k (.error .EINTR :: results) rest e (.error .EINTR :: pre) := by
  refine ⟨by rw [h.results, List.cons_append], ?_, ?_, h.ne⟩
  · exact List.forall_mem_cons.mpr ⟨rfl, h.goesOn⟩
  · rw [bytesIn_error]
    exact h.lt

theorem Fails.ok {k : Nat} {pre : List ReadResult} (hne : bytes ≠ [])
    (h : Fails min (k + bytes.length) results rest e pre) :
    Fails min k (.ok bytes :: results) rest e (.ok bytes :: pre) := by
  refine ⟨by rw [h.results, List.cons_append], ?_, ?_, h.ne⟩
  · exact List.forall_mem_cons.mpr ⟨by simpa [SocketReadcond.goesOn] using hne, h.goesOn⟩
  · rw [bytesIn_ok, ← Nat.add_assoc]
    exact h.lt

/-- How the loops end: with enough bytes or at the end of the stream, or with an error behind
results that are not enough. -/
inductive Ended (min k : Nat) (results rest : List ReadResult) (l : Locals) : Prop where
  | satisfied (hread : l.bytesRead ≠ -1)
  | failed (pre : List ReadResult) (e : Errno) (hfails : Fails min k results rest e pre)
      (hread : l.bytesRead = -1) (he : l.errnoHold = e) (hcount : l.bytesSoFar = k + bytesIn pre)

/-- The loops, from the locals `l` to the locals `l'`. -/
structure Loops (n min : Nat) (buf : List UInt8) (l : Locals) (results rest : List ReadResult)
    (l' : Locals) : Prop where
  count : l'.bytesSoFar = l'.call.taken.length
  kept : l'.call.Kept n buf
  opts : l'.call.opts = l.call.opts
  ended : Ended min l.bytesSoFar results rest l'

theorem readMin_spec (hbuf : n ≤ buf.length) (hmin : min ≤ n)
    (hcount : l.bytesSoFar = l.call.taken.length) (hkept : l.call.Kept n buf)
    (hlt : l.bytesSoFar < min) (h : readMin n min results l = .ok (l', rest)) :
    Loops n min buf l results rest l' := by
  induction results generalizing l with
  | nil => cases h
  | cons result results ih =>
    cases result with
    | error e =>
      by_cases he : e = .EINTR
      · subst he
        rw [readMin_interrupted] at h
        obtain ⟨hc, hk, ho, hended⟩ := ih (l := l.saw .EINTR) hcount hkept.saw hlt h
        refine ⟨hc, hk, ho, ?_⟩
        cases hended with
        | satisfied hread => exact .satisfied hread
        | failed pre e hfails hread he hcount =>
          exact .failed _ e hfails.interrupted hread he (by rw [bytesIn_error]; exact hcount)
      · rw [readMin_error he] at h
        cases h
        exact ⟨hcount, hkept.saw, rfl, .failed [] e ⟨rfl, nofun, hlt, he⟩ rfl rfl rfl⟩
    | ok bytes =>
      rw [readMin_ok] at h
      split_ifs at h with hmore
      · obtain ⟨hc, hk, ho, hended⟩ := ih (took_count hcount) (hkept.took hbuf hcount) hmore.2 h
        refine ⟨hc, hk, ho, ?_⟩
        cases hended with
        | satisfied hread => exact .satisfied hread
        | failed pre e hfails hread he hcount' =>
          have hall := took_all hmin hmore.2
          rw [took_bytesSoFar hall] at hfails hcount'
          rw [hall] at hmore
          refine .failed _ e (hfails.ok hmore.1) hread he ?_
          rw [hcount', bytesIn_ok, Nat.add_assoc]
      · cases h
        refine ⟨took_count hcount, hkept.took hbuf hcount, rfl, .satisfied ?_⟩
        change ((bytes.take (n - l.bytesSoFar)).length : Int) ≠ -1
        omega

theorem Fails.of_error {k : Nat} {pre : List ReadResult} {e₀ : Errno}
    (h : Fails min k results rest e (.error e₀ :: pre)) :
    ∃ results', results = .error .EINTR :: results' ∧ Fails min k results' rest e pre := by
  have hfirst : e₀ = .EINTR := by simpa [SocketReadcond.goesOn] using h.goesOn _ List.mem_cons_self
  refine ⟨_, by rw [h.results, hfirst, List.cons_append], rfl, ?_, ?_, h.ne⟩
  · exact fun r hr => h.goesOn r (List.mem_cons_of_mem _ hr)
  · simpa only [bytesIn_error] using h.lt

theorem Fails.of_ok {k : Nat} {pre : List ReadResult}
    (h : Fails min k results rest e (.ok bytes :: pre)) : bytes ≠ [] ∧
    ∃ results', results = .ok bytes :: results' ∧
      Fails min (k + bytes.length) results' rest e pre := by
  refine ⟨?_, _, by rw [h.results, List.cons_append], rfl, ?_, ?_, h.ne⟩
  · simpa [SocketReadcond.goesOn] using h.goesOn _ List.mem_cons_self
  · exact fun r hr => h.goesOn r (List.mem_cons_of_mem _ hr)
  · rw [Nat.add_assoc, ← bytesIn_ok]
    exact h.lt

theorem readMin_fails {pre : List ReadResult} (hmin : min ≤ n)
    (h : Fails min l.bytesSoFar results rest e pre) :
    ∃ l', readMin n min results l = .ok (l', rest) ∧ l'.bytesRead = -1 ∧ l'.errnoHold = e ∧
      l'.bytesSoFar = l.bytesSoFar + bytesIn pre := by
  induction pre generalizing l results with
  | nil =>
    rw [h.results, List.nil_append, readMin_error h.ne]
    exact ⟨_, rfl, rfl, rfl, rfl⟩
  | cons r pre ih =>
    cases r with
    | error e₀ =>
      obtain ⟨results', rfl, htail⟩ := h.of_error
      obtain ⟨l', hrun, hread, he, hcount⟩ := ih (l := l.saw .EINTR) htail
      refine ⟨l', by rw [readMin_interrupted, hrun], hread, he, ?_⟩
      rw [hcount, bytesIn_error]
      rfl
    | ok bytes =>
      obtain ⟨hne, results', rfl, htail⟩ := h.of_ok
      have hlt : l.bytesSoFar + bytes.length < min := Nat.lt_of_le_of_lt (Nat.le_add_right _ _) htail.lt
      have hall : bytes.take (n - l.bytesSoFar) = bytes := List.take_of_length_le (by omega)
      have hsum := took_bytesSoFar hall
      obtain ⟨l', hrun, hread, he, hcount⟩ := ih (l := l.took n bytes) (by rwa [hsum])
      refine ⟨l', ?_, hread, he, by rw [hcount, hsum, bytesIn_ok, Nat.add_assoc]⟩
      rw [readMin_ok, hall, hsum, if_pos ⟨hne, hlt⟩, hrun]

/-! ## The read without blocking -/

/-- The read without blocking, from the locals `l` to the locals `l'`. -/
structure Rests (n : Nat) (buf : List UInt8) (l : Locals) (results : List ReadResult) (l' : Locals) :
    Prop where
  kept : l'.call.Kept n buf
  nonblock : l'.call.opts.nonblock = l.call.opts.nonblock
  ended : l'.bytesRead = l'.call.taken.length ∨
    l'.bytesRead = -1 ∧ l'.call.taken = l.call.taken ∧
      ∃ e rest, results = .error e :: rest ∧ e ≠ .EWOULDBLOCK

theorem readRest_spec (hbuf : n ≤ buf.length) (hcount : l.bytesSoFar = l.call.taken.length)
    (hkept : l.call.Kept n buf) (h : readRest n l results = .ok l') :
    Rests n buf l results l' := by
  cases results with
  | nil => cases h
  | cons result rest =>
    cases result with
    | error e =>
      by_cases he : e = .EWOULDBLOCK
      · simp only [readRest, Call.read, he, reduceIte, Except.ok.injEq] at h
        subst h
        exact ⟨⟨hkept.le, hkept.stored⟩, rfl, .inl (congrArg _ hcount)⟩
      · simp only [readRest, Call.read, he, reduceIte, Except.ok.injEq] at h
        subst h
        exact ⟨⟨hkept.le, hkept.stored⟩, rfl, .inr ⟨rfl, rfl, e, rest, rfl, he⟩⟩
    | ok bytes =>
      have hread := hkept.read hbuf (.ok bytes)
      rw [← hcount] at hread
      have hnot : ((bytes.take (n - l.bytesSoFar)).length : Int) ≠ -1 := by omega
      simp only [readRest, Call.read, hnot, if_false, Except.ok.injEq] at h
      subst h
      refine ⟨⟨hread.le, hread.stored⟩, rfl, .inl ?_⟩
      change ((bytes.take (n - l.bytesSoFar)).length : Int) + l.bytesSoFar =
        (l.call.taken ++ bytes.take (n - l.bytesSoFar)).length
      rw [List.length_append, hcount]
      omega

/-! ## The whole call -/

theorem bind_eq_ok {α β ε : Type} {x : Except ε α} {f : α → Except ε β} {b : β} :
    (x >>= f) = .ok b ↔ ∃ a, x = .ok a ∧ f a = .ok b := by
  cases x with
  | error e => exact ⟨nofun, fun ⟨_, h, _⟩ => nomatch h⟩
  | ok a => exact ⟨fun h => ⟨a, rfl, h⟩, fun ⟨_, h, hf⟩ => by cases h; exact hf⟩

/-- The loops stop at an error behind bytes that they have taken. Only behind EWOULDBLOCK is there
a further read, and it keeps the count unless it fails with anything but EWOULDBLOCK. -/
def Breaks (min : Nat) (results : List ReadResult) : Prop :=
  ∃ pre e rest, Fails min 0 results rest e pre ∧ 0 < bytesIn pre ∧
    (e = .EWOULDBLOCK → ∃ e' rest', rest = .error e' :: rest' ∧ e' ≠ .EWOULDBLOCK)

/-- What a call has done when it returns. -/
structure Returned (n : Nat) (buf : List UInt8) (opts : SockOpts) (broken : Prop) (bytesRead : Int)
    (c : Call) : Prop where
  kept : c.Kept n buf
  opts : c.opts = opts
  count : bytesRead = c.taken.length ∨ bytesRead = -1 ∧ (c.taken = [] ∨ broken)

theorem Returned.mono {opts : SockOpts} {broken broken' : Prop} {bytesRead : Int}
    (h : Returned n buf opts broken bytesRead c) (hb : broken → broken') :
    Returned n buf opts broken' bytesRead c :=
  ⟨h.kept, h.opts, h.count.imp_right (And.imp_right (Or.imp_right hb))⟩

theorem resetSocket_returned {hold : SockOpts} {broken : Prop} (hkept : l.call.Kept n buf)
    (hnon : l.call.opts.nonblock = hold.nonblock)
    (hcount : l.bytesRead = l.call.taken.length ∨
      l.bytesRead = -1 ∧ (l.call.taken = [] ∨ broken)) :
    Returned n buf hold broken (resetSocket hold l).1 (resetSocket hold l).2 := by
  have hopts : (⟨hold.rcvtimeo, hold.rcvlowat, l.call.opts.nonblock⟩ : SockOpts) = hold := by
    rw [hnon]
  unfold resetSocket
  split_ifs
  · exact ⟨⟨hkept.le, hkept.stored⟩, hopts, hcount⟩
  · exact ⟨⟨hkept.le, hkept.stored⟩, hopts, hcount⟩

/-- The loops of a call that has taken nothing yet. -/
theorem readMin_start (hbuf : n ≤ buf.length) (hmin : min ≤ n) (hpos : 0 < min)
    (hkept : c.Kept n buf) (hfresh : c.taken = [])
    (h : readMin n min results ⟨c.setRcvlowat min, 0, 0, c.errno⟩ = .ok (l, rest)) :
    Loops n min buf ⟨c.setRcvlowat min, 0, 0, c.errno⟩ results rest l := by
  have hcount : 0 = (c.setRcvlowat min).taken.length := by
    change 0 = c.taken.length
    rw [hfresh, List.length_nil]
  exact readMin_spec hbuf hmin hcount ⟨hkept.le, hkept.stored⟩ hpos h

theorem readAtLeast_returned {hold : SockOpts} {bytesRead : Int} {c' : Call}
    (hbuf : n ≤ buf.length) (hmin : min ≤ n) (hpos : 0 < min) (hkept : c.Kept n buf)
    (hfresh : c.taken = []) (hnon : c.opts.nonblock = hold.nonblock)
    (h : readAtLeast n min hold results c = .ok (bytesRead, c')) :
    Returned n buf hold (Breaks min results) bytesRead c' := by
  obtain ⟨⟨l, rest⟩, hloops, h⟩ := bind_eq_ok.mp h
  have hl := readMin_start hbuf hmin hpos hkept hfresh hloops
  have hnon' : l.call.opts.nonblock = hold.nonblock := by rw [hl.opts]; exact hnon
  cases hl.ended with
  | satisfied hread =>
    have hnot : (l.bytesSoFar : Int) ≠ -1 := by omega
    simp only [hread, hnot, ne_eq, not_false_iff, if_true, false_and, reduceIte] at h
    cases h
    exact resetSocket_returned (l := { l with bytesRead := l.bytesSoFar }) hl.kept hnon'
      (.inl (congrArg _ hl.count))
  | failed pre e hfails hread he hcount =>
    have htaken : l.call.taken.length = bytesIn pre := by
      rw [← hl.count, hcount]
      exact Nat.zero_add _
    -- nothing taken, or a call that breaks off
    have hbroken : (e = .EWOULDBLOCK → ∃ e' rest', rest = .error e' :: rest' ∧ e' ≠ .EWOULDBLOCK) →
        l.call.taken = [] ∨ Breaks min results := by
      intro hlost
      rcases Nat.eq_zero_or_pos (bytesIn pre) with hzero | hsome
      · exact .inl (List.length_eq_zero_iff.mp (htaken.trans hzero))
      · exact .inr ⟨pre, e, rest, hfails, hsome, hlost⟩
    by_cases hwould : e = .EWOULDBLOCK
    · simp only [hread, he, hwould, ne_eq, not_true, true_and, reduceIte] at h
      obtain ⟨l', hrest, h⟩ := bind_eq_ok.mp h
      cases h
      have hr := readRest_spec hbuf hl.count hl.kept hrest
      refine resetSocket_returned hr.kept (hr.nonblock.trans hnon') ?_
      rcases hr.ended with hended | ⟨hminus, hsame, e', rest', hres, hne⟩
      · exact .inl hended
      · rw [hsame]
        exact .inr ⟨hminus, hbroken fun _ => ⟨e', rest', hres, hne⟩⟩
    · simp only [hread, he, hwould, ne_eq, not_true, and_false, reduceIte] at h
      cases h
      exact resetSocket_returned hl.kept hnon' (.inr ⟨hread, hbroken fun hw => absurd hw hwould⟩)

@[simp]
theorem resetSocket_taken {hold : SockOpts} : (resetSocket hold l).2.taken = l.call.taken := by
  unfold resetSocket
  split_ifs <;> rfl

theorem readRest_error (he : e ≠ .EWOULDBLOCK) : ∃ l', readRest n l (.error e :: rest) = .ok l' ∧
    l'.bytesRead = -1 ∧ l'.call.taken = l.call.taken := by
  simp only [readRest, Call.read, he, reduceIte]
  exact ⟨_, rfl, rfl, rfl⟩

theorem readAtLeast_breaks {hold : SockOpts} (hbuf : n ≤ buf.length) (hmin : min ≤ n)
    (hpos : 0 < min) (hkept : c.Kept n buf) (hfresh : c.taken = []) (h : Breaks min results) :
    ∃ c', readAtLeast n min hold results c = .ok (-1, c') ∧ c'.taken ≠ [] := by
  obtain ⟨pre, e, rest, hfails, hsome, hlost⟩ := h
  obtain ⟨l, hloops, hread, he, hcount⟩ :=
    readMin_fails (l := ⟨c.setRcvlowat min, 0, 0, c.errno⟩) hmin hfails
  have hl := readMin_start hbuf hmin hpos hkept hfresh hloops
  have htaken : l.call.taken ≠ [] := by
    rw [← List.length_pos_iff, ← hl.count, hcount]
    exact Nat.lt_of_lt_of_le hsome (Nat.le_add_left _ _)
  by_cases hwould : e = .EWOULDBLOCK
  · obtain ⟨e', rest', rfl, hne⟩ := hlost hwould
    obtain ⟨l', hrest, hread', hsame⟩ := readRest_error (n := n) (l := l) hne
    refine ⟨(resetSocket hold l').2, bind_eq_ok.mpr ⟨_, hloops, ?_⟩, ?_⟩
    · simp only [hread, he, hwould, ne_eq, not_true, true_and, reduceIte]
      refine bind_eq_ok.mpr ⟨l', hrest, ?_⟩
      rw [← hread']
      rfl
    · rw [resetSocket_taken, hsame]
      exact htaken
  · refine ⟨(resetSocket hold l).2, bind_eq_ok.mpr ⟨_, hloops, ?_⟩, ?_⟩
    · simp only [hread, he, hwould, ne_eq, not_true, and_false, reduceIte]
      refine bind_eq_ok.mpr ⟨l, rfl, ?_⟩
      rw [← hread]
      rfl
    · rw [resetSocket_taken]
      exact htaken

/-- The calls that lose bytes: the loops run, on a timeout that the socket accepts, and break off. -/
structure Loses (min : Nat) (time : Int) (opts : SockOpts) (results : List ReadResult) : Prop where
  loops : time = 0 → (min : Int) ≠ opts.rcvlowat
  accepted : 0 ≤ time.tmod 10
  breaks : Breaks min results

theorem Breaks.pos (h : Breaks min results) : 0 < min := by
  obtain ⟨pre, e, rest, hfails, -, -⟩ := h
  exact Nat.zero_lt_of_lt hfails.lt

theorem setRcvtimeo_ok {time : Int} (h : 0 ≤ time.tmod 10) :
    ∃ rcvtimeo, c.setRcvtimeo time = .ok { c with opts.rcvtimeo := rcvtimeo } := by
  have hlt : time.tmod 10 < 10 := Int.tmod_lt_of_pos time (by decide)
  have hrange : 0 ≤ time.tmod 10 * 100000 ∧ time.tmod 10 * 100000 < 1000000 := by omega
  exact ⟨_, dif_pos hrange⟩

theorem setRcvtimeo_exits {time : Int} (h : ¬ 0 ≤ time.tmod 10) :
    c.setRcvtimeo time = .error .exited :=
  dif_neg (by omega)

theorem wcsReadcond_returned {time bytesRead : Int} {c' : Call} (hbuf : n ≤ c.buf.length)
    (hmin : min ≤ n) (hfresh : c.taken = [])
    (h : wcsReadcond n min time time results c = .ok (bytesRead, c')) :
    Returned n c.buf c.opts (Loses min time c.opts results) bytesRead c' := by
  have hkept := Call.kept_fresh (n := n) hfresh
  unfold wcsReadcond at h
  rw [if_neg (not_not_intro rfl)] at h
  split_ifs at h with hzero htime hlowat
  · by_cases hok : 0 ≤ time.tmod 10
    · obtain ⟨rcvtimeo, hset⟩ := setRcvtimeo_ok (c := c) hok
      obtain ⟨call, hset', h⟩ := bind_eq_ok.mp h
      rw [hset] at hset'
      cases hset'
      refine Returned.mono (readAtLeast_returned (c := { c with opts.rcvtimeo := rcvtimeo }) hbuf
        hmin (Nat.pos_of_ne_zero hzero) ⟨hkept.le, hkept.stored⟩ hfresh rfl h) fun hb => ?_
      exact ⟨fun ht => absurd ht htime, hok, hb⟩
    · rw [setRcvtimeo_exits hok] at h
      cases h
  · -- one read() does it
    cases results with
    | nil => cases h
    | cons result rest =>
      have hread := hkept.read hbuf result
      simp only [hfresh, List.length_nil, Nat.sub_zero] at hread
      cases result with
      | error e =>
        cases h
        exact ⟨hread, rfl, .inr ⟨rfl, .inl hfresh⟩⟩
      | ok bytes =>
        cases h
        refine ⟨hread, rfl, .inl ?_⟩
        rw [hfresh, List.nil_append]
  · refine Returned.mono (readAtLeast_returned hbuf hmin (Nat.pos_of_ne_zero hzero) hkept hfresh
      rfl h) fun hb => ?_
    exact ⟨fun _ => hlowat, by simp [not_not.mp htime], hb⟩
  · obtain ⟨l, hrest, h⟩ := bind_eq_ok.mp h
    cases h
    have hr := readRest_spec (l := ⟨c, 0, 0, c.errno⟩) hbuf (by simp [hfresh]) hkept hrest
    refine resetSocket_returned hr.kept hr.nonblock ?_
    rcases hr.ended with hended | ⟨hminus, hsame, -⟩
    · exact .inl hended
    · exact .inr ⟨hminus, .inl (hsame.trans hfresh)⟩

theorem wcsReadcond_loses {time : Int} (hbuf : n ≤ c.buf.length) (hmin : min ≤ n)
    (hfresh : c.taken = []) (h : Loses min time c.opts results) :
    ∃ c', wcsReadcond n min time time results c = .ok (-1, c') ∧ c'.taken ≠ [] := by
  have hkept := Call.kept_fresh (n := n) hfresh
  have hpos := h.breaks.pos
  unfold wcsReadcond
  rw [if_neg (not_not_intro rfl), if_pos (Nat.ne_of_gt hpos)]
  by_cases htime : time = 0
  · rw [if_neg (not_not_intro htime), if_neg (h.loops htime)]
    exact readAtLeast_breaks hbuf hmin hpos hkept hfresh h.breaks
  · rw [if_pos htime]
    obtain ⟨rcvtimeo, hset⟩ := setRcvtimeo_ok (c := c) h.accepted
    rw [hset]
    exact readAtLeast_breaks hbuf hmin hpos ⟨hkept.le, hkept.stored⟩ hfresh h.breaks

/-- A call that has lost no bytes and left the socket as it was. -/
structure Keeps (buf : List UInt8) (opts : SockOpts) (bytesRead : Int) (c : Call) : Prop where
  count : c.taken ≠ [] → bytesRead = c.taken.length
  stored : c.buf = overwrite buf 0 c.taken
  failed : bytesRead = -1 → c.taken = []
  opts : c.opts = opts

theorem wcsReadcond_keeps_iff {time : Int} (hmin : min ≤ n) (hbuf : n ≤ c.buf.length)
    (hfresh : c.taken = []) :
    (∀ bytesRead c', wcsReadcond n min time time results c = .ok (bytesRead, c') →
      Keeps c.buf c.opts bytesRead c') ↔ ¬ Loses min time c.opts results := by
  constructor
  · intro hkeeps hloses
    obtain ⟨c', hrun, htaken⟩ := wcsReadcond_loses hbuf hmin hfresh hloses
    exact htaken ((hkeeps _ _ hrun).failed rfl)
  · intro hnot bytesRead c' hrun
    obtain ⟨hkept, hopts, hcount⟩ := wcsReadcond_returned hbuf hmin hfresh hrun
    rcases hcount with hcount | ⟨hminus, hnone | hloses⟩
    · refine ⟨fun _ => hcount, hkept.stored, fun hminus => ?_, hopts⟩
      omega
    · exact ⟨fun hsome => absurd hnone hsome, hkept.stored, fun _ => hnone, hopts⟩
    · exact absurd hloses hnot

end

/-- The settings of a new socket. -/
def newSocket : SockOpts := ⟨⟨0, 0, by decide⟩, 1, false⟩

theorem wcsReadcond_keeps_iff_two :
    (∀ bytesRead c', wcsReadcond 2 2 0 0 [.ok [0x41], .error .EINTR, .ok [0x42]]
        ⟨newSocket, [0, 0], .other 0, []⟩ = .ok (bytesRead, c') →
      Keeps [0, 0] newSocket bytesRead c') ↔
    ¬ Loses 2 0 newSocket [.ok [0x41], .error .EINTR, .ok [0x42]] :=
  wcsReadcond_keeps_iff (c := ⟨newSocket, [0, 0], .other 0, []⟩) (by decide) (by decide) rfl

/-- One byte, and then the connection is reset (ECONNRESET): the byte is taken, the call fails. -/
theorem reset_loses_byte :
    ∃ c', wcsReadcond 2 2 0 0 [.ok [0x41], .error (.other 104)]
        ⟨newSocket, [0, 0], .other 0, []⟩ = .ok (-1, c') ∧ c'.taken = [0x41] ∧
      ¬ Keeps [0, 0] newSocket (-1) c' := by
  refine ⟨_, rfl, rfl, fun h => ?_⟩
  cases h.failed rfl

/-! ## A call that returns -/

section

variable {n min : Nat} {c : Call} {results : List ReadResult} {l : Locals}

/-- A `read()` that is not just interrupted. -/
def answers : ReadResult → Bool
  | .error e => e ≠ .EINTR
  | .ok _ => true

theorem ne_nil_of_answers (h : 0 < results.countP answers) : results ≠ [] := by
  rintro rfl
  exact Nat.lt_irrefl _ h

/-- Each answer but the last one brings a byte. -/
theorem readMin_returns (hlt : l.bytesSoFar < min)
    (h : min < l.bytesSoFar + results.countP answers) :
    ∃ l' rest, readMin n min results l = .ok (l', rest) ∧ rest ≠ [] := by
  induction results generalizing l with
  | nil =>
    rw [List.countP_nil] at h
    omega
  | cons result results ih =>
    cases result with
    | error e =>
      by_cases he : e = .EINTR
      · subst he
        rw [List.countP_cons_of_neg (by decide)] at h
        rw [readMin_interrupted]
        exact ih (l := l.saw .EINTR) hlt h
      · rw [List.countP_cons_of_pos (by simpa [answers] using he)] at h
        exact ⟨_, results, readMin_error he, ne_nil_of_answers (by omega)⟩
    | ok bytes =>
      rw [List.countP_cons_of_pos rfl] at h
      rw [readMin_ok]
      split_ifs with hmore
      · have hpos := List.length_pos_iff.mpr hmore.1
        refine ih hmore.2 ?_
        change min < l.bytesSoFar + (bytes.take (n - l.bytesSoFar)).length + _
        omega
      · exact ⟨_, results, rfl, ne_nil_of_answers (by omega)⟩

theorem readRest_returns (h : results ≠ []) : ∃ l', readRest n l results = .ok l' := by
  cases results with
  | nil => exact absurd rfl h
  | cons result rest =>
    unfold readRest
    dsimp only
    split_ifs <;> exact ⟨_, rfl⟩

theorem readAtLeast_returns {hold : SockOpts} (hpos : 0 < min)
    (h : min < results.countP answers) : ∃ r, readAtLeast n min hold results c = .ok r := by
  obtain ⟨l, rest, hloops, hrest⟩ :=
    readMin_returns (n := n) (l := ⟨c.setRcvlowat min, 0, 0, c.errno⟩) hpos (Nat.lt_add_left 0 h)
  have hlast : ∀ l : Locals, ∃ r : Int × Call,
      (if l.bytesRead = -1 ∧ l.errnoHold = .EWOULDBLOCK then do
        let l ← readRest n l rest
        return resetSocket hold l
      else do
        let l ← (.ok l : Except Stopped Locals)
        return resetSocket hold l) = .ok r := by
    intro l
    split_ifs
    · obtain ⟨l', hl'⟩ := readRest_returns (n := n) (l := l) hrest
      exact ⟨_, bind_eq_ok.mpr ⟨l', hl', rfl⟩⟩
    · exact ⟨_, rfl⟩
  obtain ⟨r, hr⟩ := hlast _
  exact ⟨r, bind_eq_ok.mpr ⟨_, hloops, hr⟩⟩

theorem wcsReadcond_returns {time : Int} (htime : 0 ≤ time.tmod 10)
    (h : min < results.countP answers) : ∃ r, wcsReadcond n min time time results c = .ok r := by
  have hsome : results ≠ [] := ne_nil_of_answers (Nat.zero_lt_of_lt h)
  unfold wcsReadcond
  rw [if_neg (not_not_intro rfl)]
  split_ifs with hzero hnot hlowat
  · obtain ⟨rcvtimeo, hset⟩ := setRcvtimeo_ok (c := c) htime
    rw [hset]
    exact readAtLeast_returns (Nat.pos_of_ne_zero hzero) h
  · cases results with
    | nil => exact absurd rfl hsome
    | cons result rest => exact ⟨_, rfl⟩
  · exact readAtLeast_returns (Nat.pos_of_ne_zero hzero) h
  · obtain ⟨l, hrest⟩ := readRest_returns (n := n) (l := ⟨c, 0, 0, c.errno⟩) hsome
    exact ⟨_, bind_eq_ok.mpr ⟨l, hrest, rfl⟩⟩

end

end YModem.MyIO.SocketReadcond
