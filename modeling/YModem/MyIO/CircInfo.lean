import YModem.MyIO.CircBuf
import YModem.MyIO.Counters

/-!
# The monitor over a circular buffer (`socketInfoClass` with `CIRCBUF`)

With `CIRCBUF`, the bytes of a socket are in a `CircBuf` of 1100 cells inside the object, and
`write` and `read` of the kernel are calls of its member functions. These never block, so that no
step ends with `socketInfoMutex` held.
-/

namespace YModem.MyIO

open YModem.Lib YModem.Peer

structure CircInfo where
  totalWritten : Nat
  maxTotalCanRead : Nat
  cvDrain : CondVar Nat
  cvRead : CondVar ReadCall
  circBuffer : CircBuf UInt8
  pair : Int
  returns : List Return

namespace CircInfo

/-- A new object. `cell` is what its array holds. -/
def init (cell : Nat → UInt8) (pairInit : Nat) : Option CircInfo := do
  let c ← CircBuf.reserve ⟨[], 0, 0, 0, 0⟩ cell 1100 1
  return ⟨0, 0, [], [], c, pairInit, []⟩

variable (pick : Nat) (r : ReadCall) (m : CircInfo)

/-! ## The member functions -/

def draining (tid : Nat) : CircInfo :=
  if 0 ≤ m.pair ∧ m.maxTotalCanRead < m.totalWritten then
    { m with cvDrain := m.cvDrain.wait tid }
  else { m with returns := m.returns ++ [.drained tid] }

def writing (buf : List UInt8) : Option CircInfo := do
  let (c, written) ← m.circBuffer.write buf buf.length
  let m := { m with circBuffer := c, returns := m.returns ++ [.wrote (buf.take written)] }
  return if written > 0 then
      { m with totalWritten := uadd m.totalWritten written, cvRead := m.cvRead.notifyOne pick }
    else m

def Satisfied : Prop := r.min ≤ m.totalWritten ∨ m.pair < 0

instance : Decidable (m.Satisfied r) := inferInstanceAs (Decidable (_ ∨ _))

/-- `reading`, on the fast path. -/
def fastRead : Option CircInfo := do
  let (c, bytes) ← m.circBuffer.read 0xFF r.n
  let m := { m with circBuffer := c, returns := m.returns ++ [.read r bytes] }
  return if bytes.length > 0 then
      let m := { m with totalWritten := usub m.totalWritten bytes.length }
      if m.totalWritten ≤ m.maxTotalCanRead then { m with cvDrain := m.cvDrain.notifyAll } else m
    else m

/-- `reading`, behind the wait. -/
def afterWait : Option CircInfo := do
  let (c, bytes) ← m.circBuffer.read 0xFF r.n
  let m := { m with
    circBuffer := c
    totalWritten := usub m.totalWritten bytes.length
    returns := m.returns ++ [.read r bytes]
    maxTotalCanRead := usub m.maxTotalCanRead r.n }
  return if 0 < m.totalWritten ∨ m.pair = -2 then { m with cvRead := m.cvRead.notifyOne pick }
    else m

/-- `reading`, up to the wait or the return. -/
def reading : Option CircInfo :=
  if m.pair = -2 then some { m with returns := m.returns ++ [.read r []] }
  else if m.maxTotalCanRead = 0 ∧ r.min ≤ m.totalWritten then
    if r.min = 0 ∧ m.totalWritten = 0 then some { m with returns := m.returns ++ [.read r []] }
    else m.fastRead r
  else
    let m := { m with
      maxTotalCanRead := uadd m.maxTotalCanRead r.n
      cvDrain := m.cvDrain.notifyAll }
    if m.Satisfied r then m.afterWait pick r else some { m with cvRead := m.cvRead.wait r }

/-- The call of `reading` exits the process. -/
def exits : Prop :=
  (r.time ≠ 0 ∨ r.timeout ≠ 0) ∧ m.pair ≠ -2 ∧ ¬ (m.maxTotalCanRead = 0 ∧ r.min ≤ m.totalWritten)

instance : Decidable (m.exits r) := inferInstanceAs (Decidable (_ ∧ _))

/-- `closing`, on the object of the descriptor that is closed. -/
def closing : CircInfo :=
  let m := { m with pair := -1 }
  if m.maxTotalCanRead < m.totalWritten then { m with cvDrain := m.cvDrain.notifyAll } else m

/-- `closing`, on the object of the paired descriptor. -/
def closingPair : CircInfo :=
  let m := { m with pair := -2 }
  if m.maxTotalCanRead > 0 then { m with cvRead := m.cvRead.notifyOne pick } else m

/-- The thread is in no call on this object. -/
def idle (tid : Nat) : Bool :=
  m.cvRead.all (fun w => w.who.tid != tid) && m.cvDrain.all (fun w => w.who != tid)

/-! ## The steps -/

inductive Event where
  | write (buf : List UInt8) (pick : Nat)
  | read (r : ReadCall) (pick : Nat)
  | readWakes (tid : Nat) (pick : Nat)
  | tcdrain (tid : Nat)
  | drainWakes (tid : Nat)
  | close
  | closePair (pick : Nat)
deriving DecidableEq, Repr

/-- One step, under the conditions of the monitor over the kernel. -/
def step (e : Event) : Option CircInfo :=
  match e with
  | .write buf pick => if 0 ≤ m.pair then m.writing pick buf else none
  | .read r pick => if m.pair ≠ -1 ∧ m.idle r.tid ∧ ¬ m.exits r then m.reading pick r else none
  | .readWakes tid pick =>
    match m.cvRead.waiter (·.tid == tid) with
    | some ⟨r, true⟩ =>
      let m := { m with cvRead := m.cvRead.leave (·.tid == tid) }
      if m.Satisfied r then m.afterWait pick r else some { m with cvRead := m.cvRead.wait r }
    | _ => none
  | .tcdrain tid => if m.pair ≠ -2 ∧ m.idle tid then some (m.draining tid) else none
  | .drainWakes tid =>
    match m.cvDrain.waiter (· == tid) with
    | some ⟨_, true⟩ => some { m with
        cvDrain := m.cvDrain.leave (· == tid)
        returns := m.returns ++ [.drained tid] }
    | _ => none
  | .close => if 0 ≤ m.pair ∧ m.cvRead = [] then some m.closing else none
  | .closePair pick => if 0 ≤ m.pair ∧ m.cvDrain = [] then some (m.closingPair pick) else none

/-- The steps as a relation. -/
def Step (m : CircInfo) (e : Event) (m' : CircInfo) : Prop := m.step e = some m'

/-! ## The monitor over the kernel -/

/-- The object of the monitor over a kernel that holds the bytes `queue`. -/
def view (queue : List UInt8) : SocketInfo where
  totalWritten := m.totalWritten
  maxTotalCanRead := m.maxTotalCanRead
  cvDrain := m.cvDrain
  cvRead := m.cvRead
  socketInfoMutex := .free
  pair := m.pair
  queue := queue
  returns := m.returns

end CircInfo

/-- A kernel whose buffer is as large as the circular one. -/
def circKernel : Kernel := ⟨1100, by decide⟩

/-- The steps of the monitor over it. -/
abbrev QueueStep : SocketInfo → Event → SocketInfo → Prop := Step .part3 circKernel

namespace CircInfo

/-- The circular buffer holds what the kernel would hold. -/
structure Sim (m : CircInfo) (queue : List UInt8) : Prop where
  counted : Counted circKernel (m.view queue)
  closed : ClosedIdle (m.view queue)
  known : PairKnown (m.view queue)
  /-- Only a reader that asks for a byte waits. -/
  patient : ∀ r ∈ m.cvRead.map Waiter.who, 0 < r.min
  holds : m.pair ≠ -1 → m.circBuffer.Holds queue
  size_eq : m.circBuffer.size = 1101
  block_eq : m.circBuffer.m_iBlockSize = 1

/-- A step of the monitor over the circular buffer, and its steps over the kernel. -/
def Simulates (m : CircInfo) (queue : List UInt8) (m' : CircInfo) : Prop :=
  ∃ es queue', Run QueueStep (m.view queue) es (m'.view queue') ∧ Sim m' queue'

variable {m m' : CircInfo} {queue : List UInt8} {pick : Nat} {r : ReadCall}

namespace Sim

/-- What is true of the monitor over the kernel after its steps. -/
theorem of_run {es : List MyIO.Event} {queue' : List UInt8} (h : Sim m queue)
    (hr : Run QueueStep (m.view queue) es (m'.view queue'))
    (hpatient : ∀ r ∈ m'.cvRead.map Waiter.who, 0 < r.min)
    (hholds : m'.pair ≠ -1 → m'.circBuffer.Holds queue') (hsize : m'.circBuffer.size = 1101)
    (hblock : m'.circBuffer.m_iBlockSize = 1) : Sim m' queue' where
  counted := h.counted.run hr
  closed := hr.invariant ClosedIdle.step h.closed
  known := hr.invariant PairKnown.step h.known
  patient := hpatient
  holds := hholds
  size_eq := hsize
  block_eq := hblock

/-- A call of `write` returns at once: a kernel with as much room accepts as many bytes. -/
theorem write (h : Sim m queue) {buf : List UInt8} (hp : 0 ≤ m.pair)
    (hs : m.writing pick buf = some m') :
    Simulates m queue m' := by
  have hholds := h.holds (by omega)
  have hnum := hholds.num_writable_eq
  have hfits := hholds.fits
  rw [h.size_eq, h.block_eq] at hnum hfits
  obtain ⟨c, hw, hc, hsize, hblock⟩ := hholds.write buf le_rfl
  generalize hk : min buf.length m.circBuffer.num_writable = k at hw hc
  have haccepts : circKernel.accepts ((m.view queue).writing buf) buf (some k) = true := by
    have hcap : circKernel.capacity = 1100 := rfl
    have hqueue : ((m.view queue).writing buf).queue = queue := rfl
    refine decide_eq_true ?_
    rw [hcap, hqueue]
    omega
  have hwrite : MyIO.Step .part3 circKernel (m.view queue) (.write buf)
      ((m.view queue).writing buf) := if_pos hp
  have hwrote : MyIO.Step .part3 circKernel ((m.view queue).writing buf) (.wrote (some k) pick)
      (((m.view queue).writing buf).afterWrite pick buf (some k)) := if_pos haccepts
  rw [writing, hw] at hs
  simp only [Option.bind_eq_bind, Option.bind_some, Option.pure_def, Option.some.injEq] at hs
  have hview : ((m.view queue).writing buf).afterWrite pick buf (some k) =
      m'.view (queue ++ buf.take k) := by
    subst hs
    simp only [SocketInfo.afterWrite]
    split_ifs <;> rfl
  have hsame : m'.circBuffer = c ∧ m'.cvRead.map Waiter.who = m.cvRead.map Waiter.who := by
    subst hs
    split_ifs
    · exact ⟨rfl, CondVar.map_who_notifyOne pick⟩
    · exact ⟨rfl, rfl⟩
  rw [hview] at hwrote
  have hrun := (Run.single hwrite).tail hwrote
  refine ⟨_, _, hrun, h.of_run hrun ?_ ?_ ?_ ?_⟩
  · rw [hsame.2]
    exact h.patient
  · rw [hsame.1]
    exact fun _ => hc
  · rw [hsame.1, hsize, h.size_eq]
  · rw [hsame.1, hblock, h.block_eq]

end Sim

/-! ## The calls of `read` -/

/-- As many bytes as a call of `read` takes out of the circular buffer. -/
def count (queue : List UInt8) (n : Nat) : Nat := (queue.take n).length

theorem take_count (n : Nat) : queue.take (count queue n) = queue.take n :=
  List.take_eq_take_iff.mpr (by rw [count, List.length_take]; omega)

theorem drop_count (n : Nat) : queue.drop (count queue n) = queue.drop n :=
  List.drop_eq_drop_iff.mpr (by rw [count, List.length_take]; omega)

/-- A kernel may answer so many, when there is a byte or the stream has ended. -/
theorem delivers_count {s : SocketInfo} (hqueue : s.queue = queue)
    (hsome : s.pair = -2 ∨ queue ≠ []) (n : Nat) : s.delivers n (.bytes (count queue n)) = true := by
  refine decide_eq_true ?_
  rw [hqueue, count, List.length_take]
  refine ⟨Nat.min_le_left .., Nat.min_le_right .., fun hzero => ?_⟩
  rcases Nat.eq_zero_or_pos n with hn | hn
  · exact .inl hn
  · have hempty : queue = [] := List.length_eq_zero_iff.mp (by omega)
    exact .inr ⟨hempty, hsome.resolve_right (not_not.mpr hempty)⟩

/-- What a read leaves. -/
structure Left (m : CircInfo) (queue : List UInt8) (n : Nat) (m' : CircInfo) : Prop where
  who_eq : m'.cvRead.map Waiter.who = m.cvRead.map Waiter.who
  holds : m'.circBuffer.Holds (queue.drop n)
  size_eq : m'.circBuffer.size = m.circBuffer.size
  block_eq : m'.circBuffer.m_iBlockSize = m.circBuffer.m_iBlockSize

/-- The read of the fast path. -/
theorem fastRead_step (pick : Nat) (hholds : m.circBuffer.Holds queue) (hsome : m.pair = -2 ∨ queue ≠ [])
    (hs : m.fastRead r = some m') :
    MyIO.Step .part3 circKernel { m.view queue with socketInfoMutex := .reading r }
      (.gotRead (.bytes (count queue r.n)) pick) (m'.view (queue.drop r.n)) ∧
      Left m queue r.n m' := by
  obtain ⟨c, hr, hc, hsize, hblock⟩ := hholds.read 0xFF r.n
  have hcount : (queue.take r.n).length = count queue r.n := rfl
  rw [fastRead, hr] at hs
  simp only [Option.bind_eq_bind, Option.bind_some, Option.pure_def, Option.some.injEq] at hs
  constructor
  · have hview : SocketInfo.afterFastRead r { m.view queue with socketInfoMutex := .reading r }
        (.bytes (count queue r.n)) = m'.view (queue.drop r.n) := by
      subst hs
      simp only [SocketInfo.afterFastRead, view, take_count, drop_count, hcount]
      split_ifs <;> rfl
    rw [← hview]
    exact if_pos (delivers_count rfl hsome r.n)
  · subst hs
    split_ifs <;> exact ⟨rfl, hc, hsize, hblock⟩

/-- The read behind the wait. -/
theorem afterWait_step (hholds : m.circBuffer.Holds queue) (hsome : m.pair = -2 ∨ queue ≠ [])
    (hs : m.afterWait pick r = some m') :
    MyIO.Step .part3 circKernel { m.view queue with socketInfoMutex := .waited r }
      (.gotRead (.bytes (count queue r.n)) pick) (m'.view (queue.drop r.n)) ∧
      Left m queue r.n m' := by
  obtain ⟨c, hr, hc, hsize, hblock⟩ := hholds.read 0xFF r.n
  have hcount : (queue.take r.n).length = count queue r.n := rfl
  rw [afterWait, hr] at hs
  simp only [Option.bind_eq_bind, Option.bind_some, Option.pure_def, Option.some.injEq] at hs
  constructor
  · have hview : SocketInfo.afterRead pick r { m.view queue with socketInfoMutex := .waited r }
        (.bytes (count queue r.n)) = m'.view (queue.drop r.n) := by
      subst hs
      simp only [SocketInfo.afterRead, SocketInfo.leaveWait, view, take_count, drop_count, hcount]
      split_ifs <;> rfl
    rw [← hview]
    exact if_pos (delivers_count rfl hsome r.n)
  · subst hs
    split_ifs
    · exact ⟨CondVar.map_who_notifyOne pick, hc, hsize, hblock⟩
    · exact ⟨rfl, hc, hsize, hblock⟩

namespace Sim

/-- There is a byte for a reader that asks for one and need not wait. -/
theorem some_byte (h : Sim m queue) (hp : m.pair ≠ -1) (hmin : 0 < r.min)
    (hsat : r.min ≤ m.totalWritten ∨ m.pair < 0) : m.pair = -2 ∨ queue ≠ [] := by
  have hknown : 0 ≤ m.pair ∨ m.pair = -1 ∨ m.pair = -2 := h.known
  have hwritten : m.totalWritten = queue.length := h.counted.written hp
  rcases hsat with hle | hneg
  · right
    rintro rfl
    rw [List.length_nil] at hwritten
    omega
  · omega

theorem of_left {es : List MyIO.Event} {n : Nat} (h : Sim m queue)
    (hr : Run QueueStep (m.view queue) es (m'.view (queue.drop n)))
    (hl : Left m queue n m') : Simulates m queue m' := by
  refine ⟨es, _, hr, h.of_run hr ?_ (fun _ => hl.holds) ?_ ?_⟩
  · rw [hl.who_eq]
    exact h.patient
  · rw [hl.size_eq, h.size_eq]
  · rw [hl.block_eq, h.block_eq]

/-- A call of `read`: the kernel is asked where the circular buffer is. -/
theorem read (h : Sim m queue) (hp : m.pair ≠ -1) (hi : m.idle r.tid = true) (hx : ¬ m.exits r)
    (hmin : 0 < r.min) (hs : m.reading pick r = some m') : Simulates m queue m' := by
  have hstep : MyIO.Step .part3 circKernel (m.view queue) (.read r pick)
      ((m.view queue).reading .part3 pick r) := if_pos ⟨hp, hi, fun hex => hx hex.2⟩
  rw [reading] at hs
  dsimp only at hs
  split_ifs at hs with hclosed hfast hnone hsat
  · have hread : (m.view queue).reading .part3 pick r = m'.view queue := by
      cases hs
      exact if_pos hclosed
    rw [hread] at hstep
    cases hs
    exact ⟨_, _, .single hstep, h.of_run (.single hstep) h.patient h.holds h.size_eq h.block_eq⟩
  · omega
  · have hread : (m.view queue).reading .part3 pick r =
        { m.view queue with socketInfoMutex := .reading r } :=
      (if_neg hclosed).trans ((if_pos hfast).trans (if_neg hnone))
    rw [hread] at hstep
    obtain ⟨hgot, hleft⟩ := fastRead_step pick (h.holds hp)
      (h.some_byte hp hmin (.inl hfast.2)) hs
    exact h.of_left ((Run.single hstep).tail hgot) hleft
  · have hread : (m.view queue).reading .part3 pick r =
        { view { m with
            maxTotalCanRead := uadd m.maxTotalCanRead r.n
            cvDrain := m.cvDrain.notifyAll } queue with socketInfoMutex := .waited r } :=
      (if_neg hclosed).trans ((if_neg hfast).trans ((if_pos hsat).trans (if_neg (by simp))))
    rw [hread] at hstep
    obtain ⟨hgot, hleft⟩ := afterWait_step
      (m := { m with
        maxTotalCanRead := uadd m.maxTotalCanRead r.n
        cvDrain := m.cvDrain.notifyAll })
      (h.holds hp) (h.some_byte hp hmin hsat) hs
    exact h.of_left ((Run.single hstep).tail hgot)
      ⟨hleft.who_eq, hleft.holds, hleft.size_eq, hleft.block_eq⟩
  · have hread : (m.view queue).reading .part3 pick r = m'.view queue := by
      cases hs
      exact (if_neg hclosed).trans ((if_neg hfast).trans (if_neg hsat))
    rw [hread] at hstep
    cases hs
    refine ⟨_, _, .single hstep, h.of_run (.single hstep) ?_ h.holds h.size_eq h.block_eq⟩
    rw [CondVar.map_who_wait, List.forall_mem_append, List.forall_mem_singleton]
    exact ⟨h.patient, hmin⟩

/-- A reader that has been notified goes on, or waits again. -/
theorem readWakes (h : Sim m queue) {tid : Nat} (hs : m.step (.readWakes tid pick) = some m') :
    Simulates m queue m' := by
  simp only [CircInfo.step] at hs
  split at hs
  case h_1 r hw =>
    obtain ⟨-, before, after, hcv, hleave⟩ := CondVar.leave_spec hw
    have hmin : 0 < r.min := h.patient r (by rw [hcv]; simp)
    have hpatient : ∀ r ∈ (before ++ after).map Waiter.who, 0 < r.min := by
      intro r' hr'
      refine h.patient r' ?_
      rw [hcv]
      simp only [List.map_append, List.map_cons, List.mem_append, List.mem_cons] at hr' ⊢
      tauto
    have hp : m.pair ≠ -1 := by
      intro hclosed
      have hnone : m.cvRead = [] := (h.closed hclosed).2
      simp [hcv] at hnone
    rw [hleave] at hs
    have hstep : MyIO.step .part3 circKernel (m.view queue) (.readWakes tid pick) =
        some (if (view { m with cvRead := before ++ after } queue).Satisfied r then
          (view { m with cvRead := before ++ after } queue).afterWait .part3 pick r
        else view { m with cvRead := CondVar.wait (before ++ after) r } queue) := by
      simp only [view, MyIO.step, hw, hleave]
      exact congrArg some (if_congr Iff.rfl rfl rfl)
    split_ifs at hs with hsat
    · replace hstep := hstep.trans (congrArg some (if_pos hsat))
      have hwait : (view { m with cvRead := before ++ after } queue).afterWait .part3 pick r =
          { view { m with cvRead := before ++ after } queue with socketInfoMutex := .waited r } :=
        if_neg (by simp)
      rw [hwait] at hstep
      obtain ⟨hgot, hleft⟩ := afterWait_step (m := { m with cvRead := before ++ after })
        (h.holds hp) (h.some_byte hp hmin hsat) hs
      have hone : Run QueueStep _ _ _ := Run.single hstep
      have hrun := hone.tail hgot
      refine ⟨_, _, hrun, h.of_run hrun ?_ (fun _ => hleft.holds) ?_ ?_⟩
      · rw [hleft.who_eq]
        exact hpatient
      · rw [hleft.size_eq, h.size_eq]
      · rw [hleft.block_eq, h.block_eq]
    · replace hstep := hstep.trans (congrArg some (if_neg hsat))
      cases hs
      refine ⟨_, _, .single hstep, h.of_run (.single hstep) ?_ h.holds h.size_eq h.block_eq⟩
      rw [CondVar.map_who_wait, List.forall_mem_append, List.forall_mem_singleton]
      exact ⟨hpatient, hmin⟩
  case h_2 => cases hs

/-- A step that does not use the buffer. -/
theorem of_step {e : MyIO.Event} (h : Sim m queue)
    (hs : MyIO.Step .part3 circKernel (m.view queue) e (m'.view queue))
    (hwho : m'.cvRead.map Waiter.who = m.cvRead.map Waiter.who)
    (hbuf : m'.circBuffer = m.circBuffer) (hopen : m'.pair ≠ -1 → m.pair ≠ -1) :
    Simulates m queue m' := by
  refine ⟨_, _, .single hs, h.of_run (.single hs) ?_ ?_ ?_ ?_⟩
  · rw [hwho]
    exact h.patient
  · rw [hbuf]
    exact fun hp => h.holds (hopen hp)
  · rw [hbuf, h.size_eq]
  · rw [hbuf, h.block_eq]

theorem tcdrain (h : Sim m queue) {tid : Nat} (hp : m.pair ≠ -2) (hi : m.idle tid = true) :
    Simulates m queue (m.draining tid) := by
  have hstep : MyIO.Step .part3 circKernel (m.view queue) (.tcdrain tid)
      ((m.view queue).draining tid) := if_pos ⟨hp, hi⟩
  have hview : (m.view queue).draining tid = (m.draining tid).view queue := by
    by_cases hwait : 0 ≤ m.pair ∧ m.maxTotalCanRead < m.totalWritten
    · rw [show m.draining tid = { m with cvDrain := m.cvDrain.wait tid } from if_pos hwait]
      exact if_pos hwait
    · rw [show m.draining tid = { m with returns := m.returns ++ [.drained tid] } from if_neg hwait]
      exact if_neg hwait
  rw [hview] at hstep
  refine h.of_step hstep ?_ ?_ ?_ <;> unfold draining <;> split_ifs <;> first | rfl | exact id

theorem drainWakes (h : Sim m queue) {tid : Nat} (hs : m.step (.drainWakes tid) = some m') :
    Simulates m queue m' := by
  simp only [CircInfo.step] at hs
  split at hs
  case h_1 who hw =>
    cases hs
    have hstep : MyIO.Step .part3 circKernel (m.view queue) (.drainWakes tid)
        (view { m with
          cvDrain := m.cvDrain.leave (· == tid)
          returns := m.returns ++ [.drained tid] } queue) := by
      simp only [view, MyIO.Step, MyIO.step, hw]
    exact h.of_step hstep rfl rfl id
  case h_2 => cases hs

theorem closePair (h : Sim m queue) (hp : 0 ≤ m.pair) (hd : m.cvDrain = []) (pick : Nat) :
    Simulates m queue (m.closingPair pick) := by
  have hstep : MyIO.Step .part3 circKernel (m.view queue) (.closePair pick)
      ((m.view queue).closingPair pick) := if_pos ⟨hp, hd⟩
  have hview : (m.view queue).closingPair pick = (m.closingPair pick).view queue := by
    by_cases hmax : m.maxTotalCanRead > 0
    · rw [show m.closingPair pick = { m with pair := -2, cvRead := m.cvRead.notifyOne pick } from if_pos hmax]
      exact if_pos hmax
    · rw [show m.closingPair pick = { m with pair := -2 } from if_neg hmax]
      exact if_neg hmax
  rw [hview] at hstep
  refine h.of_step hstep ?_ ?_ fun _ => by omega
  · simp only [closingPair]
    split_ifs
    · exact CondVar.map_who_notifyOne pick
    · rfl
  · simp only [closingPair]
    split_ifs <;> rfl

/-- A descriptor that is closed: the bytes that the buffer still holds are never read. -/
theorem close (h : Sim m queue) (hp : 0 ≤ m.pair) (hr : m.cvRead = []) :
    Simulates m queue m.closing := by
  have hstep : MyIO.Step .part3 circKernel (m.view queue) .close (m.view queue).closing :=
    if_pos ⟨hp, hr⟩
  have hview : (m.view queue).closing = m.closing.view [] := by
    by_cases hlt : m.maxTotalCanRead < m.totalWritten
    · rw [show m.closing = { m with pair := -1, cvDrain := m.cvDrain.notifyAll } from if_pos hlt]
      exact if_pos hlt
    · rw [show m.closing = { m with pair := -1 } from if_neg hlt]
      exact if_neg hlt
  have hsame : m.closing.cvRead = m.cvRead ∧ m.closing.pair = -1 ∧
      m.closing.circBuffer = m.circBuffer := by
    simp only [closing]
    split_ifs <;> exact ⟨rfl, rfl, rfl⟩
  rw [hview] at hstep
  refine ⟨_, _, .single hstep, h.of_run (.single hstep) ?_ ?_ ?_ ?_⟩
  · rw [hsame.1]
    exact h.patient
  · exact fun hopen => absurd hsame.2.1 hopen
  · rw [hsame.2.2, h.size_eq]
  · rw [hsame.2.2, h.block_eq]

/-- The step: every step over the circular buffer is steps over a kernel with as large a buffer. -/
theorem step (h : Sim m queue) {e : Event} (hmin : ∀ r pick, e = .read r pick → 0 < r.min)
    (hs : Step m e m') : Simulates m queue m' := by
  unfold Step at hs
  cases e with
  | write buf pick =>
    simp only [CircInfo.step] at hs
    split_ifs at hs with hp
    exact h.write hp hs
  | read r pick =>
    simp only [CircInfo.step] at hs
    split_ifs at hs with hp
    exact h.read hp.1 hp.2.1 hp.2.2 (hmin r pick rfl) hs
  | readWakes tid pick => exact h.readWakes hs
  | tcdrain tid =>
    simp only [CircInfo.step] at hs
    split_ifs at hs with hp
    cases hs
    exact h.tcdrain hp.1 hp.2
  | drainWakes tid => exact h.drainWakes hs
  | close =>
    simp only [CircInfo.step] at hs
    split_ifs at hs with hp
    cases hs
    exact h.close hp.1 hp.2
  | closePair pick =>
    simp only [CircInfo.step] at hs
    split_ifs at hs with hp
    cases hs
    exact h.closePair hp.1 hp.2 pick

theorem init {cell : Nat → UInt8} {pairInit : Nat} (hm : CircInfo.init cell pairInit = some m) :
    m.view [] = .init pairInit ∧ Sim m [] := by
  obtain ⟨c, hres, hholds, hblock, hsize, -⟩ :=
    CircBuf.reserve_holds ⟨[], 0, 0, 0, 0⟩ cell (n := 1100) (by decide) Nat.one_pos (by decide)
  rw [CircInfo.init, hres] at hm
  cases hm
  exact ⟨rfl, counted_init circKernel pairInit, closedIdle_init pairInit,
    .inl (Int.natCast_nonneg pairInit), fun r hr => absurd hr List.not_mem_nil, fun _ => hholds,
    hsize, hblock⟩

end Sim

/-- The run, by the step. With readers that ask for a byte, as those of `myRead` do, every run over
the circular buffer is one of the monitor over a kernel with a buffer of 1100 bytes: its calls
return the same, and its counters, waiters and bytes are those that it ends with there. -/
theorem run_simulates {cell : Nat → UInt8} {pairInit : Nat} {m₀ : CircInfo} {es : List Event}
    (hinit : init cell pairInit = some m₀) (h : Run Step m₀ es m)
    (hmin : ∀ r pick, Event.read r pick ∈ es → 0 < r.min) :
    ∃ fs s, Run QueueStep (.init pairInit) fs s ∧ s = m.view s.queue ∧
      (m.pair ≠ -1 → m.circBuffer.Holds s.queue) := by
  obtain ⟨hview, hsim⟩ := Sim.init hinit
  suffices hrun : ∃ fs queue, Run QueueStep (.init pairInit) fs (m.view queue) ∧
      Sim m queue by
    obtain ⟨fs, queue, hrun, hsim⟩ := hrun
    exact ⟨fs, _, hrun, rfl, hsim.holds⟩
  induction h with
  | refl => exact ⟨[], [], hview ▸ .refl, hsim⟩
  | tail hr hs ih =>
    obtain ⟨fs, queue, hrun, hsim⟩ := ih fun r pick hmem => hmin r pick (by simp [hmem])
    obtain ⟨fs', queue', hrun', hsim'⟩ := hsim.step (fun r pick he => hmin r pick (by simp [he])) hs
    exact ⟨_, _, hrun.append hrun', hsim'⟩

theorem one_lt_intRange : 1 < INT_RANGE := by decide

/-- A read of 900 of 1000 bytes, one that waits for more, and a write that goes on at the beginning
of the array. The last read gives what is left, so that `tcdrain` returns. -/
def wrapAround : List Event :=
  [.write (List.replicate 1000 1) 0, .read ⟨1, 900, 1, 0, 0, by decide, one_lt_intRange⟩ 0,
    .read ⟨1, 300, 200, 0, 0, by decide, by decide⟩ 0, .write (List.replicate 600 2) 0,
    .readWakes 1 0, .tcdrain 3, .read ⟨2, 500, 1, 0, 0, by decide, one_lt_intRange⟩ 0, .drainWakes 3]

set_option maxRecDepth 4000 in
theorem wrapAround_run : ∃ m₀ m, init (fun _ => 0) 4 = some m₀ ∧ Run Step m₀ wrapAround m ∧
    m.circBuffer.write_pos = 499 ∧ m.returns.length = 6 := by
  have hrun : ((init (fun _ => 0) 4).bind fun m₀ => (wrapAround.foldlM step m₀).map fun m =>
      (m.circBuffer.write_pos, m.returns.length)) = some (499, 6) := by decide +kernel
  obtain ⟨m₀, hinit, hrun⟩ := Option.bind_eq_some_iff.mp hrun
  obtain ⟨m, hm, hend⟩ := Option.map_eq_some_iff.mp hrun
  obtain ⟨hpos, hlen⟩ := Prod.mk.inj hend
  exact ⟨m₀, m, hinit, Run.foldlM_iff.mp hm, hpos, hlen⟩

theorem run_simulates_wraps : ∃ m₀ m fs s, init (fun _ => 0) 4 = some m₀ ∧
    Run Step m₀ wrapAround m ∧ m.circBuffer.write_pos = 499 ∧ m.returns.length = 6 ∧
    Run QueueStep (.init 4) fs s ∧ s = m.view s.queue ∧
      (m.pair ≠ -1 → m.circBuffer.Holds s.queue) := by
  obtain ⟨m₀, m, hinit, hrun, hpos, hlen⟩ := wrapAround_run
  have hmin : ∀ r pick, Event.read r pick ∈ wrapAround → 0 < r.min := by
    intro r pick hmem
    simp only [wrapAround, List.mem_cons, Event.read.injEq, reduceCtorEq, false_or, List.not_mem_nil,
      or_false] at hmem
    rcases hmem with ⟨rfl, -⟩ | ⟨rfl, -⟩ | ⟨rfl, -⟩ <;> decide
  obtain ⟨fs, s, hs⟩ := run_simulates hinit hrun hmin
  exact ⟨m₀, m, fs, s, hinit, hrun, hpos, hlen, hs⟩

end CircInfo

end YModem.MyIO
