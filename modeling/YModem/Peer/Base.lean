import Mathlib.Logic.Basic
import Mathlib.Tactic.Simps.Basic
import YModem.Peer.Crc

/-!
# What both peers share (`PeerY.h`, `PeerY.cpp`)

The constants of the protocol, the events of the charts and the base class of
`SenderY` and `ReceiverY`. Next to the members of the class, `PeerY` keeps the list
of the calls that leave the process or that a statement about a run refers to; the
code itself never reads it.

`VNS_errorReporter` exits the process, so a checked call that fails ends the run:
such calls are taken to succeed here.
-/

namespace YModem.Peer

abbrev DATA_POS : Nat := 3
abbrev PAST_CHUNK : Nat := DATA_POS + CHUNK_SZ
abbrev REST_BLK_SZ_CRC : Nat := CHUNK_SZ + 4
abbrev BLK_SZ_CRC : Nat := 1 + REST_BLK_SZ_CRC
abbrev BUF_SZ : Nat := BLK_SZ_CRC + 30

/-- The error bound: the number of errors in a row that are allowed. -/
abbrev errB : Nat := 10

/-- The number of values of an `unsigned`. -/
abbrev UINT_RANGE : Nat := 0x100000000

abbrev SOH : UInt8 := 0x01
abbrev EOT : UInt8 := 0x04
abbrev ACK : UInt8 := 0x06
abbrev NAK : UInt8 := 0x15
abbrev CAN : UInt8 := 0x18
abbrev CTRL_Z : UInt8 := 0x1A
/-- The character `'C'`, the value of `NCGbyte`. -/
abbrev NCG : UInt8 := 0x43

abbrev TM_SOH : Int := 9
abbrev TM_VL : Int := 150
abbrev TM_2CHAR : Int := 4
abbrev TM_CHAR : Int := 2
abbrev uSECS_PER_UNIT : Int := 100000

/-- The events: continue, a byte from the medium, a timeout, a keyboard cancel. -/
inductive Mesg where
  | cont
  | ser (c : UInt8)
  | tm
  | kbC
deriving DecidableEq, Repr

/-- One entry of the record of calls. -/
inductive Call where
  | sendByte (byte : UInt8)
  | cans
  | purge
  | clearCan
  | result (text : String)
  /-- A whole block written to the medium, by `sendBlkPrepNext` when `fresh` and by
  `resendBlk` otherwise. -/
  | sendBlk (fresh : Bool) (blk : List UInt8)
  /-- `getRestBlk`: the bytes read and the flags it left. -/
  | getRestBlk (rest : List UInt8) (goodBlk goodBlk1st : Bool)
  | checkForAnotherFile (anotherFile : UInt8)
  /-- An input file opened: the descriptor held before and the new one. -/
  | openFile (name : List UInt8) (held fd : Int)
  /-- An output file created: its name, the size announced for it, the descriptor held
  before and the new one. -/
  | creat (name : List UInt8) (size held fd : Int)
  | write (fd : Int) (data : List UInt8)
  | close (fd rc : Int)
deriving DecidableEq, Repr

/-- The bytes sent by `sendByte`. -/
def sentBytes (calls : List Call) : List UInt8 :=
  calls.filterMap fun
    | .sendByte byte => some byte
    | _ => none

@[simp] theorem sentBytes_append (calls new : List Call) :
    sentBytes (calls ++ new) = sentBytes calls ++ sentBytes new := List.filterMap_append

structure PeerY where
  result : String
  errCnt : Nat
  transferringFileD : Int
  kbCan : Bool
  absoluteTimeout : Int
  holdTimeout : Int
  calls : List Call
deriving DecidableEq, Repr

namespace PeerY

/-- A freshly constructed `PeerY`. -/
def init : PeerY := ⟨"", 0, -1, false, 0, 0, []⟩

@[simps] def log (p : PeerY) (call : Call) : PeerY :=
  { p with calls := p.calls ++ [call] }

@[simps] def sendByte (p : PeerY) (byte : UInt8) : PeerY :=
  { p with calls := p.calls ++ [.sendByte byte] }

/-- `result += text`. -/
@[simps] def addResult (p : PeerY) (text : String) : PeerY :=
  { p with result := p.result ++ text, calls := p.calls ++ [.result text] }

/-- `result = text`. -/
@[simps] def setResult (p : PeerY) (text : String) : PeerY :=
  { p with result := text, calls := p.calls ++ [.result text] }

/-- `++errCnt` on an `unsigned`. -/
@[simps] def incErrCnt (p : PeerY) : PeerY :=
  { p with errCnt := (p.errCnt + 1) % UINT_RANGE }

/-- `tm`, with the elapsed time at the call. -/
@[simps] def tm (p : PeerY) (elapsed timeoutUnits : Int) : PeerY :=
  { p with absoluteTimeout := elapsed + timeoutUnits * uSECS_PER_UNIT }

@[simps] def tmRed (p : PeerY) (unitsToReduce : Int) : PeerY :=
  { p with absoluteTimeout := p.absoluteTimeout - unitsToReduce * uSECS_PER_UNIT }

@[simps] def tmPush (p : PeerY) (elapsed timeoutUnits : Int) : PeerY :=
  { p with
    holdTimeout := p.absoluteTimeout
    absoluteTimeout := elapsed + timeoutUnits * uSECS_PER_UNIT }

@[simps] def tmPop (p : PeerY) : PeerY :=
  { p with absoluteTimeout := p.holdTimeout }

end PeerY

/-- `result` after `n` files. -/
def doneText : Nat → String
  | 0 => ""
  | n + 1 => doneText n ++ "Done, "

end YModem.Peer
