import YModem.Peer.TransferCommon
import YModem.Receiver.Ends
import YModem.Sender.Ends

/-!
# The event loop over the two charts

A turn that reads a byte and the command "&c" posts two events, and the guard of the loop
is not asked again in between. Exactly the turns whose byte has just ended the session post
the KB_C to a stopped machine.
-/

namespace YModem.Session

open YModem.Lib YModem.Peer YModem.SmartState

instance : PeerContext Sender.SenderY := ⟨Sender.SenderY.toPeerY, Sender.SenderY.peer⟩

instance : PeerContext Receiver.ReceiverY := ⟨Receiver.ReceiverY.toPeerY, Receiver.ReceiverY.peer⟩

/-- "&c" is not read together with a byte that ends the session. -/
def SafeForSender (m : Sender.Machine) (t : Turn Sender.Env) : Prop :=
  ∀ c serEnv, t.Both c serEnv → ¬ Sender.EndsOn serEnv c (Sender.configOf m)

def SafeForReceiver (m : Receiver.Machine) (t : Turn Receiver.Env) : Prop :=
  ∀ c serEnv, t.Both c serEnv → ¬ Receiver.EndsOn serEnv c (Receiver.configOf m)

theorem sender_turn_settled {m m' : Sender.Machine} {t : Turn Sender.Env} (hm : Sender.Settled m)
    (h : TurnStep Sender.ySenderSS m t m') : Sender.Settled m' :=
  h.invariant (fun hs hst => (Sender.step_trans hs hst).1) (fun hs => hs.withCtx _) hm

theorem receiver_turn_settled {m m' : Receiver.Machine} {t : Turn Receiver.Env}
    (hm : Receiver.Settled m) (h : TurnStep Receiver.yReceiverSS m t m') : Receiver.Settled m' :=
  h.invariant (fun hs hst => (Receiver.step_trans hs hst).1) (fun hs => hs.withCtx _) hm

theorem sender_postsRunning_iff {m : Sender.Machine} {t : Turn Sender.Env} (hm : Sender.Settled m)
    (hr : m.running = true) : PostsRunning Sender.ySenderSS m t ↔ SafeForSender m t := by
  rw [postsRunning_iff hr]
  refine forall₃_congr fun c serEnv _ => ?_
  rw [Sender.endsOn_iff hm]
  simp

theorem receiver_postsRunning_iff {m : Receiver.Machine} {t : Turn Receiver.Env}
    (hm : Receiver.Settled m) (hr : m.running = true) :
    PostsRunning Receiver.yReceiverSS m t ↔ SafeForReceiver m t := by
  rw [postsRunning_iff hr]
  refine forall₃_congr fun c serEnv _ => ?_
  rw [Receiver.endsOn_iff hm]
  simp

/-- **The event loops of both peers.** They post to a stopped machine exactly in the turns that
read "&c" behind a byte that ends the session. -/
theorem posts_running_iff {files : List Sender.File} {ms : Sender.Machine} {mr : Receiver.Machine}
    (hs : Sender.Started files ms) (hr : Receiver.Started mr) (ts : List (Turn Sender.Env))
    (tr : List (Turn Receiver.Env)) :
    (AtEveryTurn Sender.ySenderSS (PostsRunning Sender.ySenderSS) ms ts ↔
      AtEveryTurn Sender.ySenderSS SafeForSender ms ts) ∧
    (AtEveryTurn Receiver.yReceiverSS (PostsRunning Receiver.yReceiverSS) mr tr ↔
      AtEveryTurn Receiver.yReceiverSS SafeForReceiver mr tr) := by
  constructor
  · refine AtEveryTurn.congr fun hrun hrunning => sender_postsRunning_iff ?_ hrunning
    exact hrun.invariant sender_turn_settled hs.settled
  · refine AtEveryTurn.congr fun hrun hrunning => receiver_postsRunning_iff ?_ hrunning
    exact hrun.invariant receiver_turn_settled hr.settled

/-- A turn in which a CAN byte is read, and whatever the console delivers. -/
def canTurn {ε : Type} (env : ε) (console : Option (Option UInt8 × Option UInt8)) : Turn ε :=
  ⟨0, .ready (some (some CAN)) console env env⟩

/-- The second CAN byte is read together with "&c". -/
def twoCans {ε : Type} (env : ε) : List (Turn ε) :=
  [canTurn env none, canTurn env (some (some 38, some 99))]

theorem canTurn_eq {σ ε γ : Type} [DecidableEq σ] [PeerContext γ] {ch : Chart σ Mesg ε γ} {env : ε}
    {m m' : StateMgr σ Mesg γ} (h : ch.Step m (env, .ser CAN) m') :
    turn ch m (canTurn env none) = .ok m' := by
  show [(env, Mesg.ser CAN)].foldlM (post ch) m = .ok m'
  rw [List.foldlM_cons, post_ser (by simp), show ch.postEvent env (.ser CAN) m = .ok m' from h]
  rfl

/-- Where the second turn is not safe, the loop throws. -/
theorem twoCans_throws {σ ε γ : Type} [DecidableEq σ] [PeerContext γ] {ch : Chart σ Mesg ε γ}
    {env : ε} {m m' : StateMgr σ Mesg γ} (hr : m.running = true) (hr' : m'.running = true)
    (h : ch.Step m (env, .ser CAN) m')
    (hn : ¬ PostsRunning ch m' (canTurn env (some (some 38, some 99)))) :
    transferCommon ch m (twoCans env) = .error .notRunning ∧
      ¬ AtEveryTurn ch (PostsRunning ch) m (twoCans env) := by
  have hstep : TurnStep ch m (canTurn env none) m' := ⟨hr, canTurn_eq h⟩
  have hrun : Run (TurnStep ch) m [canTurn env none] m' := .single hstep
  refine ⟨transferCommon_throws hrun hr' (turn_throws hr' hn), fun hall => hn ?_⟩
  exact hall [canTurn env none] _ [] m' rfl hrun hr'

theorem sender_twoCans_throws {files : List Sender.File} {m : Sender.Machine}
    (h₀ : Sender.Started files m) :
    transferCommon Sender.ySenderSS m (twoCans .calm) = .error .notRunning ∧
      ¬ AtEveryTurn Sender.ySenderSS (PostsRunning Sender.ySenderSS) m (twoCans .calm) := by
  have hm := h₀.settled
  obtain ⟨env, blkBufs, hstart⟩ := h₀
  obtain ⟨-, s, -, hc⟩ := Sender.start_inv hstart
  have hr : m.running = true := by rw [hm.running_eq, hc]; rfl
  have hfirst := @Sender.postEvent_can .calm .statC none (Sender.startedCtx env s) rfl m.posted
  rw [← hc, ← hm.shape] at hfirst
  have hstep : Sender.ySenderSS.Step m (.calm, .ser CAN) _ := hfirst
  have hm' := (Sender.step_trans hm hstep).1
  refine twoCans_throws hr rfl hfirst ?_
  rw [sender_postsRunning_iff hm' rfl]
  intro hsafe
  refine hsafe CAN .calm ⟨_, _, rfl, rfl⟩ ?_
  rw [Sender.configOf_machine]
  exact .rcvCancelled (.inr (by decide))

theorem receiver_twoCans_throws {m : Receiver.Machine} (h₀ : Receiver.Started m) :
    transferCommon Receiver.yReceiverSS m (twoCans (.calm [])) = .error .notRunning ∧
      ¬ AtEveryTurn Receiver.yReceiverSS (PostsRunning Receiver.yReceiverSS) m
        (twoCans (.calm [])) := by
  have hm := h₀.settled
  obtain ⟨env, rcvBlk, hc⟩ := h₀.config
  have hr : m.running = true := by rw [hm.running_eq, hc]; rfl
  have ht := @Receiver.Trans.interrupted (.calm []) .firstByteStat none
    (Receiver.startedCtx env rcvBlk) rfl
  rw [← hc] at ht
  obtain ⟨m', hstep, hc'⟩ := ht.step hm
  have hm' := (Receiver.step_trans hm hstep).1
  have hr' : m'.running = true := by rw [hm'.running_eq, hc']; rfl
  refine twoCans_throws hr hr' hstep ?_
  rw [receiver_postsRunning_iff hm' hr']
  intro hsafe
  refine hsafe CAN (.calm []) ⟨_, _, rfl, rfl⟩ ?_
  rw [hc']
  exact .sndCancelled

/-- A sender of one file that has just been started. -/
private theorem sender_starts : ∃ m, Sender.Started [⟨[97], by decide, [98]⟩] m := by
  have hrun : (Sender.ySenderSS.session .calm (.init [⟨[97], by decide, [98]⟩] fun _ => .blank)
      []).toOption.any (fun m => m.running) = true := by decide +kernel
  obtain ⟨m, _, hstart, -⟩ := Chart.run_of_session hrun
  exact ⟨m, _, _, hstart⟩

theorem posts_running_iff_started : ∃ ms mr,
    (AtEveryTurn Sender.ySenderSS (PostsRunning Sender.ySenderSS) ms (twoCans .calm) ↔
      AtEveryTurn Sender.ySenderSS SafeForSender ms (twoCans .calm)) ∧
    (AtEveryTurn Receiver.yReceiverSS (PostsRunning Receiver.yReceiverSS) mr (twoCans (.calm [])) ↔
      AtEveryTurn Receiver.yReceiverSS SafeForReceiver mr (twoCans (.calm []))) := by
  obtain ⟨m, hm⟩ := sender_starts
  exact ⟨m, Receiver.startedMachine, posts_running_iff hm Receiver.started_startedMachine _ _⟩

/-- Both peers throw when "&c" is read together with the second CAN byte. -/
theorem kbC_posted_to_stopped_machine :
    (∃ m, Sender.Started [⟨[97], by decide, [98]⟩] m ∧
      transferCommon Sender.ySenderSS m (twoCans .calm) = .error .notRunning ∧
      ¬ AtEveryTurn Sender.ySenderSS (PostsRunning Sender.ySenderSS) m (twoCans .calm)) ∧
    ∃ m, Receiver.Started m ∧
      transferCommon Receiver.yReceiverSS m (twoCans (.calm [])) = .error .notRunning ∧
      ¬ AtEveryTurn Receiver.yReceiverSS (PostsRunning Receiver.yReceiverSS) m
        (twoCans (.calm [])) := by
  obtain ⟨m, hm⟩ := sender_starts
  exact ⟨⟨m, hm, sender_twoCans_throws hm⟩, _, Receiver.started_startedMachine,
    receiver_twoCans_throws Receiver.started_startedMachine⟩

end YModem.Session
