import YModem.UartAxi.Stall

/-!
# The calls of the device file (`uart_read`, `uart_write` and `uart_poll`)

Around the driver of `Driver`: the callers, who wait on `readable` and `writeable`, and the two
`wake_up_interruptible` that wake them. `wait_event_interruptible` puts the caller on the wait
queue before it looks at the condition, so that a wake-up between the look and `schedule` only
sends it around once more.
-/

namespace YModem.UartAxi

open YModem.Lib

/-- Where a caller is on its way to a queue that is not empty, or not full. -/
inductive Wait where
  /-- Before the first look. -/
  | checks
  /-- Before `prepare_to_wait`. -/
  | prepares
  /-- On the wait queue, before the condition; woken since or not. -/
  | queued (woken : Bool)
  | asleep
deriving DecidableEq, Repr

/-- What comes of an access. -/
inductive Waited where
  | goes
  /-- `-EAGAIN`. -/
  | again
  | stays (w : Wait)
  /-- The caller is asleep. -/
  | blocked
deriving DecidableEq, Repr

namespace Wait

/-- One access, where `ready` is the condition and `nonblock` is `O_NONBLOCK`. -/
def look (ready nonblock : Bool) : Wait → Waited
  | .checks => if ready then .goes else if nonblock then .again else .stays .prepares
  | .prepares => .stays (.queued false)
  | .queued woken => if ready then .goes else .stays (if woken then .prepares else .asleep)
  | .asleep => .blocked

/-- `wake_up_interruptible`, or a signal. -/
def wake : Wait → Wait
  | .queued _ => .queued true
  | .asleep => .prepares
  | w => w

theorem ready_of_goes {ready nonblock : Bool} {w : Wait} (h : w.look ready nonblock = .goes) :
    ready = true := by
  cases w <;> cases ready <;> cases nonblock <;> simp_all [look]

/-- A caller falls asleep on the condition only. -/
theorem not_ready_of_asleep {ready nonblock : Bool} {w : Wait}
    (h : w.look ready nonblock = .stays .asleep) : ready = false := by
  cases w <;> cases ready <;> cases nonblock <;> simp_all [look]

theorem wake_ne_asleep (w : Wait) : w.wake ≠ .asleep := by
  cases w <;> simp [wake]

end Wait

/-- Where `uart_read` is. -/
inductive Read where
  | idle
  /-- It holds `read_lock`. -/
  | waits (count : Nat) (nonblock : Bool) (w : Wait)
  /-- Before `kfifo_to_user`, and in it: so many bytes are copied. -/
  | copies (count : Nat)
  | copying (count n : Nat)
deriving DecidableEq, Repr

/-- What a call returns. -/
inductive Return where
  | read (count : Nat) (bytes : List UInt8)
  | again
  | interrupted
deriving DecidableEq, Repr

/-- The bytes that a call has copied to the user. -/
def Return.bytes : Return → List UInt8
  | .read _ bytes => bytes
  | _ => []

/-- The driver with its callers, and what has gone through it. -/
structure Device where
  uart : Uart
  reader : Read
  /-- The caller of `uart_write` before it finds the queue not full. -/
  writer : Option (Bool × Wait)
  /-- `uart_received` is before `wake_up_interruptible`. -/
  isrWakes : Bool
  returned : List Return
  /-- The bytes from the line. -/
  received : List UInt8
  /-- Those that `uart_isr` has read, and whether `kfifo_in` had room for them. -/
  taken : List (UInt8 × Bool)
  /-- The bytes that `uart_write` has stored, and those that `kfifo_out` has given. -/
  stored : List UInt8
  dequeued : List UInt8
deriving DecidableEq

namespace Device

variable (d : Device)

/-- The conditions of the two waits. -/
def readable : Bool := !d.uart.in_fifo.isEmpty

def writeable : Bool := decide (d.uart.out_fifo.length < FIFO_SIZE)

/-- `wake_up_interruptible(&uart->readable)`. -/
def wakeReadable : Device :=
  match d.reader with
  | .waits count nonblock w => { d with reader := .waits count nonblock w.wake }
  | _ => d

/-- `wake_up_interruptible(&uart->writeable)`. -/
def wakeWriteable : Device := { d with writer := d.writer.map fun w => (w.1, w.2.wake) }

/-- One access of `uart_read`. -/
def uart_read : Option Device :=
  match d.reader with
  | .idle => none
  | .waits count nonblock w =>
    match w.look d.readable nonblock with
    | .goes => some { d with reader := .copies count }
    | .again => some { d with reader := .idle, returned := d.returned ++ [.again] }
    | .stays w => some { d with reader := .waits count nonblock w }
    | .blocked => none
  | .copies count => some { d with reader := .copying count (min count d.uart.in_fifo.length) }
  | .copying count n => some { d with
      uart := { d.uart with in_fifo := d.uart.in_fifo.drop n }
      reader := .idle
      returned := d.returned ++ [.read count (d.uart.in_fifo.take n)] }

/-- One access of `uart_write` before `kfifo_from_user`. -/
def uart_write : Option Device :=
  match d.writer with
  | none => none
  | some (nonblock, w) =>
    match w.look d.writeable nonblock with
    | .goes => do
      let u ← d.uart.step .writeBegins
      return { d with uart := u, writer := none }
    | .again => some { d with writer := none, returned := d.returned ++ [.again] }
    | .stays w => some { d with writer := some (nonblock, w) }
    | .blocked => none

/-- `uart_poll`: the bits for reading, and those for writing. -/
def uart_poll : Bool × Bool := (d.readable, true)

/-- One access of `uart_isr`. -/
def uart_isr : Option Device :=
  if d.isrWakes then some { d.wakeReadable with isrWakes := false }
  else do
    let u ← d.uart.step .isr
    match d.uart.isr, d.uart.rbr with
    | .whileReady, data_in :: _ => return { d with
        uart := u
        isrWakes := true
        taken := d.taken ++ [(data_in, decide (d.uart.in_fifo.length < FIFO_SIZE))] }
    | _, _ => return { d with uart := u }

/-- One access of `uart_tasklet_func`. -/
def uart_tasklet_func : Option Device := do
  let u ← d.uart.step .tasklet
  let d' := { d with uart := u }
  match d.uart.tasklet, d.uart.out_fifo with
  | .out, data :: _ => return { d' with dequeued := d.dequeued ++ [data] }
  | .wake, _ => return if d.writeable then d'.wakeWriteable else d'
  | _, _ => return d'

end Device

/-- What can happen next. -/
inductive DeviceEvent where
  /-- `uart_read` and `uart_write` take their locks. -/
  | readBegins (count : Nat) (nonblock : Bool)
  | writeBegins (nonblock : Bool)
  | read
  | write
  /-- A signal for a caller that is asleep, and the return of one that has a signal. -/
  | readSignal
  | writeSignal
  | readInterrupted
  | writeInterrupted
  /-- A step of the driver or the UART, but for the look of `uart_write` at the queue. -/
  | uart (e : Event)
deriving DecidableEq, Repr

def Device.step (d : Device) : DeviceEvent → Option Device
  | .readBegins count nonblock =>
    if d.reader = .idle then some { d with reader := .waits count nonblock .checks } else none
  | .writeBegins nonblock =>
    if d.writer = none ∧ d.uart.write = .idle then some { d with writer := some (nonblock, .checks) }
    else none
  | .read => d.uart_read
  | .write => d.uart_write
  | .readSignal => some d.wakeReadable
  | .writeSignal => some d.wakeWriteable
  | .readInterrupted =>
    match d.reader with
    | .waits _ _ (.queued _) =>
      if d.readable then none
      else some { d with reader := .idle, returned := d.returned ++ [.interrupted] }
    | _ => none
  | .writeInterrupted =>
    match d.writer with
    | some (_, .queued _) =>
      if d.writeable then none
      else some { d with writer := none, returned := d.returned ++ [.interrupted] }
    | _ => none
  | .uart .writeBegins => none
  | .uart .isr => d.uart_isr
  | .uart .tasklet => d.uart_tasklet_func
  | .uart (.copies bytes) => do
    let u ← d.uart.step (.copies bytes)
    return { d with uart := u, stored := d.stored ++ bytes }
  | .uart (.received data) => do
    let u ← d.uart.step (.received data)
    return { d with uart := u, received := d.received ++ [data] }
  | .uart e => do
    let u ← d.uart.step e
    return { d with uart := u }

/-- After `uart_init`. -/
def Device.init (txEmpty : Bool) : Device :=
  ⟨.init txEmpty, .idle, none, false, [], [], [], [], []⟩

/-- The steps as a relation. -/
def DeviceStep (d : Device) (e : DeviceEvent) (d' : Device) : Prop := d.step e = some d'

end YModem.UartAxi
