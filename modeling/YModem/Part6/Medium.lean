import YModem.Lib.Bytes
import YModem.Lib.Run
import YModem.MyIO.SocketInfo
import YModem.Peer.Timeout

/-!
# The medium of Part 6 (`Ensc351Part6/src/Medium.cpp`)

One thread forwards what comes from either terminal, in the versions that drop bytes and add
glitches: neither `USE_PART2A_S2_TO_R1` nor `USE_PART2A_R1_TO_S2` is defined. What comes from
terminal 2 is counted in an `unsigned`, and two more hold the positions of the next byte to
corrupt and of the next byte to drop.
-/

namespace YModem.Part6

open YModem.Lib YModem.Peer YModem.SmartState YModem.MyIO

abbrev T2toT1_CORRUPT_FIRST_BYTE : Nat := 264
abbrev T2toT1_CORRUPT_BYTE : Nat := 790
abbrev T2toT1_DROP_FIRST_BYTE : Nat := 659
abbrev T2toT1_DROP_BYTE : Nat := 790
abbrev T2toT1_GLITCH_BYTES : Nat := 35
abbrev T1toT2_CORRUPT_BYTE : Nat := 6
abbrev T1toT2_DROP_BYTE : Nat := 7
abbrev T1toT2_GLITCH_BYTE : Nat := 4
abbrev T1toT2_SEND_GLITCH_ACK : Nat := 50
abbrev mediumBufSz : Nat := 160

/-- What the medium writes, and where. -/
inductive MediumWrite where
  | logFile (bytes : List UInt8)
  | term1 (bytes : List UInt8)
  | term2 (bytes : List UInt8)
deriving DecidableEq, Repr

/-- What `myRead(Term2D, bytesReceived, 70)` delivers while the socket is open. -/
structure FromTerm2 where
  bytes : List UInt8
  pos : 0 < bytes.length
  le : bytes.length ≤ 70
deriving DecidableEq, Repr

/-- What a call reads from one of the terminals. -/
inductive MediumMsg where
  | fromTerm2 (r : FromTerm2)
  | fromTerm1 (byteReceived : UInt8)
deriving DecidableEq, Repr

structure Medium where
  fromT2ByteCount : Nat
  corruptThreshold : Nat
  dropThreshold : Nat
  fromT2Glitch : Bool
  glitchCount : UInt8
  fromT1ByteCount : Nat
  sentCount : Nat
  sendExtraAck : Bool
  writes : List MediumWrite
deriving DecidableEq, Repr

/-- `numOfByteReceived-1-(fromT2ByteCount-threshold)`, an `unsigned` that is kept in an `int`. -/
def byteAt (numOfByteReceived fromT2ByteCount threshold : Nat) : Int :=
  toInt (usub (numOfByteReceived - 1) (usub fromT2ByteCount threshold))

namespace Medium

def init : Medium :=
  ⟨0, T2toT1_CORRUPT_FIRST_BYTE, T2toT1_DROP_FIRST_BYTE, false, 0, 0, 0, false, []⟩

variable (m : Medium)

/-- `write(logFileD, ..)` and `myWrite(Term1D, ..)`. -/
@[simps] def toTerm1 (bytes : List UInt8) : Medium :=
  { m with writes := m.writes ++ [.logFile bytes, .term1 bytes] }

@[simps] def toTerm2 (bytes : List UInt8) : Medium :=
  { m with writes := m.writes ++ [.logFile bytes, .term2 bytes] }

/-- `fromT2ByteCount += numOfByteReceived`. -/
@[simps] def countBytes (r : FromTerm2) : Medium :=
  { m with fromT2ByteCount := uadd m.fromT2ByteCount r.bytes.length }

/-- The byte to corrupt, when there is one. -/
def byteToCorrupt (r : FromTerm2) : Option Int :=
  if m.fromT2ByteCount ≥ m.corruptThreshold then
    some (byteAt r.bytes.length m.fromT2ByteCount m.corruptThreshold)
  else none

def byteToDrop (r : FromTerm2) : Option Int :=
  if m.fromT2ByteCount ≥ m.dropThreshold then
    some (byteAt r.bytes.length m.fromT2ByteCount m.dropThreshold)
  else none

/-- "deal with corrupt byte": the medium, `bytesReceived` and `fromT2GlitchBytes`. -/
def corruptByte (r : FromTerm2) (bytesReceived : List UInt8) :
    Except Fault (Medium × List UInt8 × Nat) :=
  match m.byteToCorrupt r with
  | none => .ok (m, bytesReceived, 0)
  | some i =>
    if 0 ≤ i ∧ i < mediumBufSz then
      .ok ({ m with
        corruptThreshold := uadd m.corruptThreshold T2toT1_CORRUPT_BYTE
        fromT2Glitch := !m.fromT2Glitch },
        bytesReceived.modify i.toNat (~~~ ·),
        if m.fromT2Glitch then T2toT1_GLITCH_BYTES else 0)
    else .error .undefinedBehaviour

/-- "deal with drop byte": the medium, `bytesReceived` and `drop`. -/
def dropByte (r : FromTerm2) (bytesReceived : List UInt8) :
    Except Fault (Medium × List UInt8 × Nat) :=
  match m.byteToDrop r with
  | none => .ok (m, bytesReceived, 0)
  | some i =>
    if 0 ≤ i ∧ i < mediumBufSz then
      -- `memmove` within `bytesReceived`
      .ok ({ m with dropThreshold := uadd m.dropThreshold T2toT1_DROP_BYTE },
        overwrite bytesReceived i.toNat
          ((bytesReceived.drop (i.toNat + 1)).take (mediumBufSz - 1 - i.toNat)), 1)
    else .error .undefinedBehaviour

/-- The extra ACK, when one is due. -/
def extraAck : Medium :=
  if m.sendExtraAck then { m.toTerm2 [ACK] with sendExtraAck := false } else m

/-- The bytes behind the first one. A length of -1 is `SIZE_MAX` for the two writes; they write
nothing and return -1, which is what `PE_NOT` compares with. -/
def writeRest (bytesReceived : List UInt8) (len : Int) : Medium :=
  if len < 0 then m else m.toTerm1 ((bytesReceived.drop 1).take len.toNat)

/-- What is written at the end of a call: the first byte, an extra ACK, and the others. -/
def passOn (bytesReceived : List UInt8) (fromT2bytesToWrite : Int) : Medium :=
  ((m.toTerm1 (bytesReceived.take 1)).extraAck).writeRest bytesReceived (fromT2bytesToWrite - 1)

def MsgFromTerm2 (r : FromTerm2) : Except Fault Medium := do
  let bytesReceived := overwrite (List.replicate mediumBufSz CAN) 0 r.bytes
  let m := m.countBytes r
  let (m, bytesReceived, fromT2GlitchBytes) ← m.corruptByte r bytesReceived
  let (m, bytesReceived, drop) ← m.dropByte r bytesReceived
  return m.passOn bytesReceived (r.bytes.length - drop + fromT2GlitchBytes)

/-- The glitch, every fourth time that a byte is passed on. -/
def sendGlitch : Medium :=
  if m.sentCount % T1toT2_GLITCH_BYTE = 0 then
    { m.toTerm2 [m.glitchCount] with glitchCount := m.glitchCount + 1 }
  else m

def MsgFromTerm1 (byteReceived : UInt8) : Medium :=
  let m := { m with fromT1ByteCount := uadd m.fromT1ByteCount 1 }
  if m.fromT1ByteCount % T1toT2_DROP_BYTE = 0 then m
  else
    let m := { m with sentCount := uadd m.sentCount 1 }.sendGlitch
    let byteReceived := if m.fromT1ByteCount % T1toT2_CORRUPT_BYTE = 0 then NAK else byteReceived
    let m :=
      if m.fromT1ByteCount % T1toT2_SEND_GLITCH_ACK = 0 then { m with sendExtraAck := true }
      else m
    m.toTerm2 [byteReceived]

def msg : MediumMsg → Except Fault Medium
  | .fromTerm2 r => m.MsgFromTerm2 r
  | .fromTerm1 byteReceived => .ok (m.MsgFromTerm1 byteReceived)

/-- The loop in `start`. -/
def run (msgs : List MediumMsg) : Except Fault Medium := msgs.foldlM msg m

end Medium

/-- The byte stream from terminal 2. -/
def input (msgs : List MediumMsg) : List UInt8 :=
  msgs.flatMap fun
    | .fromTerm2 r => r.bytes
    | .fromTerm1 _ => []

end YModem.Part6
