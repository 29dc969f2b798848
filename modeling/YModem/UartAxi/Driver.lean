import YModem.Lib.Run

/-!
# The UART driver (`uartAxi/Debug/main.c`)

`uart_write`, `uart_isr` and `uart_tasklet_func` run interleaved, each one between two of its
accesses to what they share: the two queues, the state of the tasklet and the registers. The
UART raises its transmitter-empty interrupt when the holding register becomes empty and
withdraws it when the identification register that reports it is read. The receive FIFO is
set to a trigger level, so there may be received bytes that no interrupt reports.
-/

namespace YModem.UartAxi

/-- The size of the kernel FIFOs. -/
abbrev FIFO_SIZE : Nat := 256

/-- `kfifo_in` of one byte, which stores nothing in a full queue. -/
def kfifo_in (fifo : List UInt8) (data : UInt8) : List UInt8 :=
  if fifo.length < FIFO_SIZE then fifo ++ [data] else fifo

/-- `UART_INTID_..`: what the identification register reports. -/
inductive Intid where
  | modemStatus
  | txEmpty
  | rxData
  | charTo
deriving DecidableEq, Repr

/-- Where `uart_write` is. -/
inductive Write where
  | idle
  /-- It holds the lock and has found the queue not full. -/
  | locked
  /-- `kfifo_from_user` has returned. -/
  | copied
deriving DecidableEq, Repr

/-- Where `uart_isr` is. -/
inductive Isr where
  | idle
  /-- It has read the identification register. -/
  | ifReady (intid : Intid)
  /-- In the loop of the first branch. -/
  | whileReady
deriving DecidableEq, Repr

/-- Where `uart_tasklet_func` is. -/
inductive Tasklet where
  | idle
  /-- Before the two parts of the condition of its loop. -/
  | whileNotEmpty
  | whileReady
  /-- Before `kfifo_out`. -/
  | out
  /-- In `uart_send`, before the condition of its loop and before its `iowrite32`. -/
  | sendReady (data : UInt8)
  | sendWrite (data : UInt8)
  /-- Behind the loop. -/
  | wake
deriving DecidableEq, Repr

/-- The driver data and the UART. -/
structure Uart where
  out_fifo : List UInt8
  in_fifo : List UInt8
  /-- `tasklet_schedule` was called and the tasklet has not been started since. -/
  scheduled : Bool
  write : Write
  isr : Isr
  tasklet : Tasklet
  /-- The holding register is full. -/
  busy : Bool
  /-- The transmitter-empty interrupt is pending. -/
  txEmpty : Bool
  /-- Received bytes that were not read. -/
  rbr : List UInt8
  /-- The values written to the holding register. -/
  thr : List UInt8
deriving DecidableEq

namespace Uart

def tx_ready (u : Uart) : Bool := !u.busy

def rx_ready (u : Uart) : Bool := !u.rbr.isEmpty

def tasklet_schedule (u : Uart) : Uart := { u with scheduled := true }

/-- `uart_received`. -/
def uart_received (u : Uart) (data : UInt8) : Uart := { u with in_fifo := kfifo_in u.in_fifo data }

/-- One access of `uart_isr` behind its first one. -/
def uart_isr (u : Uart) : Option Uart :=
  match u.isr with
  | .idle => none
  | .ifReady _ =>
    if u.rx_ready then some { u with isr := .whileReady }
    else some { u.tasklet_schedule with isr := .idle }
  | .whileReady =>
    match u.rbr with
    | [] => some { u with isr := .idle }
    | data_in :: rbr => some ({ u with rbr := rbr }.uart_received data_in)

/-- One access of `uart_tasklet_func`. -/
def uart_tasklet_func (u : Uart) : Option Uart :=
  match u.tasklet with
  | .idle => none
  | .whileNotEmpty =>
    if u.out_fifo.isEmpty then some { u with tasklet := .wake } else some { u with tasklet := .whileReady }
  | .whileReady =>
    if u.tx_ready then some { u with tasklet := .out } else some { u with tasklet := .wake }
  | .out =>
    match u.out_fifo with
    | [] => some { u with tasklet := .whileNotEmpty }
    | data :: out_fifo => some { u with out_fifo := out_fifo, tasklet := .sendReady data }
  | .sendReady data =>
    if u.tx_ready then some { u with tasklet := .sendWrite data }
    else some { u with tasklet := .whileNotEmpty }
  | .sendWrite data =>
    some { u with thr := u.thr ++ [data], busy := true, tasklet := .sendReady data }
  | .wake => some { u with tasklet := .idle }

end Uart

/-- What can happen next. -/
inductive Event where
  /-- `uart_write` takes the lock and finds the queue not full. -/
  | writeBegins
  /-- `kfifo_from_user` has copied `bytes`. -/
  | copies (bytes : List UInt8)
  /-- `uart_write` schedules the tasklet and returns the lock. -/
  | writeEnds
  /-- `uart_isr` is entered and reads the identification register. -/
  | interrupt (intid : Intid)
  | isr
  /-- The kernel starts the tasklet. -/
  | starts
  | tasklet
  /-- The holding register becomes empty. -/
  | transmitted
  | received (data : UInt8)
deriving DecidableEq, Repr

def Event.receives : Event → Bool
  | .received _ => true
  | _ => false

/-- An interrupt that the identification register can report. -/
def Uart.reports (u : Uart) : Intid → Bool
  | .modemStatus => true
  | .txEmpty => u.txEmpty
  | .rxData | .charTo => u.rx_ready

def Uart.step (u : Uart) : Event → Option Uart
  | .writeBegins =>
    if u.write = .idle ∧ u.out_fifo.length < FIFO_SIZE then some { u with write := .locked } else none
  | .copies bytes =>
    if u.write = .locked ∧ u.out_fifo.length + bytes.length ≤ FIFO_SIZE then
      some { u with out_fifo := u.out_fifo ++ bytes, write := .copied }
    else none
  | .writeEnds => if u.write = .copied then some { u.tasklet_schedule with write := .idle } else none
  | .interrupt intid =>
    if u.isr = .idle ∧ u.reports intid then
      some { u with
        isr := .ifReady intid
        txEmpty := if intid = .txEmpty then false else u.txEmpty }
    else none
  | .isr => u.uart_isr
  | .starts =>
    if u.scheduled ∧ u.tasklet = .idle then some { u with scheduled := false, tasklet := .whileNotEmpty }
    else none
  | .tasklet => u.uart_tasklet_func
  | .transmitted => if u.busy then some { u with busy := false, txEmpty := true } else none
  | .received data => some { u with rbr := u.rbr ++ [data] }

/-- After `init_uart`, with or without a first transmitter-empty interrupt. -/
def Uart.init (txEmpty : Bool) : Uart :=
  ⟨[], [], false, .idle, .idle, .idle, false, txEmpty, [], []⟩

end YModem.UartAxi
