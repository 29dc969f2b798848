import YModem.Peer.Base
import YModem.SmartState.Refinement

/-!
# The arrows of the two drawn charts

An arrow of `ySender.smc` or `yReceiver.smc` is for one of the messages TM, SER, KB_C and CONT, of
which SER has a byte that the guard can test.
-/

namespace YModem.Peer.Drawn

open YModem.Lib YModem.SmartState

variable {σ ε γ : Type} (target : Option σ)

/-- An arrow for SER, with a guard on the byte and the context. -/
def ser (guard : UInt8 → γ → Bool) (action : ε → γ → Except Fault γ) : Arrow σ Mesg ε γ Fault where
  target := target
  guard mesg ctx :=
    match mesg with
    | .ser c => guard c ctx
    | _ => false
  action := action

/-- An arrow for TM. -/
def tm (guard : γ → Bool) (action : ε → γ → Except Fault γ) : Arrow σ Mesg ε γ Fault where
  target := target
  guard mesg ctx :=
    match mesg with
    | .tm => guard ctx
    | _ => false
  action := action

/-- An arrow for KB_C. -/
def kbC (guard : γ → Bool) (action : ε → γ → Except Fault γ) : Arrow σ Mesg ε γ Fault where
  target := target
  guard mesg ctx :=
    match mesg with
    | .kbC => guard ctx
    | _ => false
  action := action

/-- An arrow for CONT. -/
def cont (guard : γ → Bool) (action : ε → γ → Except Fault γ) : Arrow σ Mesg ε γ Fault where
  target := target
  guard mesg ctx :=
    match mesg with
    | .cont => guard ctx
    | _ => false
  action := action

end YModem.Peer.Drawn
