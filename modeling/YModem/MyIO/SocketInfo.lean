import YModem.Lib.CondVar
import YModem.Lib.Run
import YModem.Peer.Base

/-!
# The monitor of a socket (`socketInfoClass` of `myIO.cpp`)

One `SocketInfo` belongs to the descriptor that is read; the paired descriptor is the one
that is written and drained. A member function is cut where it gives up `socketInfoMutex`
and where it calls the kernel with the mutex held; every piece is one step, and the steps
of any number of threads interleave freely. Next to the members of the class, `SocketInfo`
keeps the bytes that the kernel holds for the descriptor and what the calls have returned.
-/

namespace YModem.MyIO

open YModem.Lib YModem.Peer

/-- The two implementations: the one of `Ensc351ymodLib`, and the one of
`Ensc351Part3-soln`, which waits without a time limit. -/
inductive Version where
  | lib
  | part3
deriving DecidableEq, Repr

/-- The number of values of an `int` that are not negative. -/
abbrev INT_RANGE : Nat := 0x80000000

/-- The arguments of a call of `reading`, and the thread that makes it. `myRead` calls it
with `min` 1 and both times 0. -/
structure ReadCall where
  tid : Nat
  n : Nat
  min : Nat
  time : Nat
  timeout : Nat
  n_lt : n < INT_RANGE
  min_lt : min < INT_RANGE
deriving DecidableEq, Repr

/-- What a call has returned: bytes accepted or delivered, or -1, or 0 from `draining`. -/
inductive Return where
  | wrote (bytes : List UInt8)
  | writeFailed
  | read (r : ReadCall) (bytes : List UInt8)
  | readFailed (r : ReadCall)
  | drained (tid : Nat)
deriving DecidableEq, Repr

/-- The thread that holds `socketInfoMutex` between two steps is in a call of the kernel:
`write`, `read` on the fast path of `reading`, or `read` behind its wait. -/
inductive Holder where
  | free
  | writing (buf : List UInt8)
  | reading (r : ReadCall)
  | waited (r : ReadCall)
deriving DecidableEq, Repr

/-- What `read` returns: a number of bytes, -1 with `ECONNRESET`, or -1 with another
error. -/
inductive Answer where
  | bytes (k : Nat)
  | reset
  | error
deriving DecidableEq, Repr

/-- A buffer of the kernel, whose size is an `int` there. -/
structure Kernel where
  capacity : Nat
  capacity_lt : capacity < INT_RANGE

/-- `+=` and `-=` on an `unsigned`. -/
def uadd (a b : Nat) : Nat := (a + b) % UINT_RANGE

def usub (a b : Nat) : Nat := (a + (UINT_RANGE - b)) % UINT_RANGE

structure SocketInfo where
  totalWritten : Nat
  maxTotalCanRead : Nat
  cvDrain : CondVar Nat
  cvRead : CondVar ReadCall
  socketInfoMutex : Holder
  pair : Int
  queue : List UInt8
  returns : List Return

namespace SocketInfo

/-- A new object, whose paired descriptor is `pairInit`. -/
def init (pairInit : Nat) : SocketInfo := ⟨0, 0, [], [], .free, pairInit, [], []⟩

variable (v : Version) (pick : Nat) (r : ReadCall) (m : SocketInfo)

/-! ## The member functions -/

/-- `draining`, up to the wait or the return. -/
def draining (tid : Nat) : SocketInfo :=
  if 0 ≤ m.pair ∧ m.maxTotalCanRead < m.totalWritten then
    { m with cvDrain := m.cvDrain.wait tid }
  else { m with returns := m.returns ++ [.drained tid] }

/-- `writing`, up to the call of `write`. -/
def writing (buf : List UInt8) : SocketInfo := { m with socketInfoMutex := .writing buf }

/-- `writing`, behind `write`, which has returned `written`. -/
def afterWrite (buf : List UInt8) (written : Option Nat) : SocketInfo :=
  match written with
  | none => { m with socketInfoMutex := .free, returns := m.returns ++ [.writeFailed] }
  | some k =>
    let m := { m with
      socketInfoMutex := .free
      queue := m.queue ++ buf.take k
      returns := m.returns ++ [.wrote (buf.take k)] }
    if k > 0 then
      { m with totalWritten := uadd m.totalWritten k, cvRead := m.cvRead.notifyOne pick }
    else m

/-- The predicate of the wait in `reading`. -/
def Satisfied : Prop := r.min ≤ m.totalWritten ∨ m.pair < 0

instance : Decidable (m.Satisfied r) := inferInstanceAs (Decidable (_ ∨ _))

/-- `reading`, behind the `read` of the fast path. -/
def afterFastRead (a : Answer) : SocketInfo :=
  match a with
  | .bytes k =>
    let m := { m with
      socketInfoMutex := .free
      queue := m.queue.drop k
      returns := m.returns ++ [.read r (m.queue.take k)] }
    if k > 0 then
      let m := { m with totalWritten := usub m.totalWritten k }
      if m.totalWritten ≤ m.maxTotalCanRead then { m with cvDrain := m.cvDrain.notifyAll } else m
    else m
  | _ => { m with socketInfoMutex := .free, returns := m.returns ++ [.readFailed r] }

/-- The end of the waiting path. -/
def leaveWait : SocketInfo :=
  let m := { m with socketInfoMutex := .free, maxTotalCanRead := usub m.maxTotalCanRead r.n }
  if 0 < m.totalWritten ∨ m.pair = -2 then { m with cvRead := m.cvRead.notifyOne pick } else m

/-- `reading`, behind the `read` of the waiting path. -/
def afterRead (a : Answer) : SocketInfo :=
  match a with
  | .bytes k => leaveWait pick r { m with
      totalWritten := usub m.totalWritten k
      queue := m.queue.drop k
      returns := m.returns ++ [.read r (m.queue.take k)] }
  | .reset => leaveWait pick r { m with returns := m.returns ++ [.read r []] }
  | .error => leaveWait pick r { m with returns := m.returns ++ [.readFailed r] }

/-- `reading`, behind the wait: the library calls `read` only if there is something to
read. -/
def afterWait : SocketInfo :=
  if v = .lib ∧ m.totalWritten = 0 then m.afterRead pick r (.bytes 0)
  else { m with socketInfoMutex := .waited r }

/-- `reading`, up to the wait, the call of `read` or the return. -/
def reading : SocketInfo :=
  if m.pair = -2 then { m with returns := m.returns ++ [.read r []] }
  else if m.maxTotalCanRead = 0 ∧ r.min ≤ m.totalWritten then
    if r.min = 0 ∧ m.totalWritten = 0 then { m with returns := m.returns ++ [.read r []] }
    else { m with socketInfoMutex := .reading r }
  else
    let m := { m with
      maxTotalCanRead := uadd m.maxTotalCanRead r.n
      cvDrain := m.cvDrain.notifyAll }
    if m.Satisfied r then m.afterWait v pick r else { m with cvRead := m.cvRead.wait r }

/-- The call of `reading` exits the process: Part 3 knows no times on the waiting path. -/
def exits : Prop :=
  v = .part3 ∧ (r.time ≠ 0 ∨ r.timeout ≠ 0) ∧ m.pair ≠ -2 ∧
    ¬ (m.maxTotalCanRead = 0 ∧ r.min ≤ m.totalWritten)

instance : Decidable (m.exits v r) := inferInstanceAs (Decidable (_ ∧ _))

/-- `closing`, on the object of the descriptor that is closed. The kernel discards what it
still holds for it. -/
def closing : SocketInfo :=
  let m := { m with pair := -1, queue := [] }
  if m.maxTotalCanRead < m.totalWritten then { m with cvDrain := m.cvDrain.notifyAll } else m

/-- `closing`, on the object of the paired descriptor. -/
def closingPair : SocketInfo :=
  let m := { m with pair := -2 }
  if m.maxTotalCanRead > 0 then { m with cvRead := m.cvRead.notifyOne pick } else m

end SocketInfo

/-! ## The steps -/

/-- What the kernel may answer to a blocking `write` of `buf`: an error, or a number of
bytes for which there is room. -/
def Kernel.accepts (K : Kernel) (m : SocketInfo) (buf : List UInt8) : Option Nat → Bool
  | none => true
  | some k => decide (k ≤ buf.length ∧ m.queue.length + k ≤ K.capacity)

/-- What the kernel may answer to a blocking `read`: no bytes only at the end of the
stream, and `ECONNRESET` only there. -/
def SocketInfo.delivers (m : SocketInfo) (n : Nat) : Answer → Bool
  | .bytes k => decide (k ≤ n ∧ k ≤ m.queue.length ∧
      (k = 0 → n = 0 ∨ (m.queue = [] ∧ m.pair = -2)))
  | .reset => decide (m.queue = [] ∧ m.pair = -2)
  | .error => true

/-- The steps of the threads. `pick` is the waiter that a `notify_one` of the step picks. -/
inductive Event where
  /-- A thread in `myWrite` gets the mutex and calls `write`. -/
  | write (buf : List UInt8)
  | wrote (written : Option Nat) (pick : Nat)
  /-- A thread in `myRead` or `myReadcond` gets the mutex. -/
  | read (r : ReadCall) (pick : Nat)
  | gotRead (a : Answer) (pick : Nat)
  /-- A reader that has been notified gets the mutex again. -/
  | readWakes (tid : Nat) (pick : Nat)
  /-- The time of a reader that has not been notified is over, and it gets the mutex. -/
  | readTimesOut (tid : Nat) (pick : Nat)
  /-- A thread in `myTcdrain` gets the mutex. -/
  | tcdrain (tid : Nat)
  | drainWakes (tid : Nat)
  | close
  | closePair (pick : Nat)
deriving DecidableEq, Repr

/-- The thread is in no call on this object. -/
def SocketInfo.idle (m : SocketInfo) (tid : Nat) : Bool :=
  m.cvRead.all (fun w => w.who.tid != tid) && m.cvDrain.all (fun w => w.who != tid)

/-- One step, if it can be taken. A descriptor is closed when all other calls that use it
have returned, and not used any more. -/
def step (v : Version) (K : Kernel) (m : SocketInfo) (e : Event) : Option SocketInfo :=
  match e, m.socketInfoMutex with
  | .write buf, .free => if 0 ≤ m.pair then some (m.writing buf) else none
  | .wrote written pick, .writing buf =>
    if K.accepts m buf written then some (m.afterWrite pick buf written) else none
  | .read r pick, .free =>
    if m.pair ≠ -1 ∧ m.idle r.tid ∧ ¬ m.exits v r then some (m.reading v pick r) else none
  | .gotRead a _, .reading r =>
    if m.delivers r.n a then some (m.afterFastRead r a) else none
  | .gotRead a pick, .waited r =>
    if m.delivers r.n a then some (m.afterRead pick r a) else none
  | .readWakes tid pick, .free =>
    match m.cvRead.waiter (·.tid == tid) with
    | some ⟨r, true⟩ =>
      let m := { m with cvRead := m.cvRead.leave (·.tid == tid) }
      some (if m.Satisfied r then m.afterWait v pick r else { m with cvRead := m.cvRead.wait r })
    | _ => none
  | .readTimesOut tid pick, .free =>
    match v, m.cvRead.waiter (·.tid == tid) with
    | .lib, some ⟨r, false⟩ =>
      some ({ m with cvRead := m.cvRead.leave (·.tid == tid) }.afterWait v pick r)
    | _, _ => none
  | .tcdrain tid, .free =>
    if m.pair ≠ -2 ∧ m.idle tid then some (m.draining tid) else none
  | .drainWakes tid, .free =>
    match m.cvDrain.waiter (· == tid) with
    | some ⟨_, true⟩ => some { m with
        cvDrain := m.cvDrain.leave (· == tid)
        returns := m.returns ++ [.drained tid] }
    | _ => none
  | .close, .free => if 0 ≤ m.pair ∧ m.cvRead = [] then some m.closing else none
  | .closePair pick, .free =>
    if 0 ≤ m.pair ∧ m.cvDrain = [] then some (m.closingPair pick) else none
  | _, _ => none

/-- The steps as a relation. -/
def Step (v : Version) (K : Kernel) (m : SocketInfo) (e : Event) (m' : SocketInfo) : Prop :=
  step v K m e = some m'

end YModem.MyIO
