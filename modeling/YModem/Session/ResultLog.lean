import YModem.Receiver.Accept
import YModem.Sender.Can

/-!
# The reported result only grows

Every transition of the receiver appends to `result` or leaves it alone. So does every
transition of the sender but one: a KB_C in `StatC`, which the chart enters again for each
further file, assigns.
-/

namespace YModem.Session

open YModem.Lib YModem.Peer YModem.SmartState

/-- The old text is a prefix of the new one. -/
def Grows (text text' : String) : Prop := ∃ more, text' = text ++ more

theorem Grows.refl (text : String) : Grows text text := ⟨"", String.append_empty.symm⟩

theorem Grows.append (text more : String) : Grows text (text ++ more) := ⟨more, rfl⟩

theorem Grows.of_eq {text text' : String} (h : text' = text) : Grows text text' :=
  h ▸ Grows.refl text

/-! ## The receiver -/

section

open Receiver

variable {env : Receiver.Env} {mesg : Mesg} {r r' : ReceiverY} {leaf : Option RState}

@[simp] theorem getRestBlk_result (env : Receiver.Env) (r : ReceiverY) :
    (r.getRestBlk env).result = r.result := by
  have h := getRestBlk_spec env r
  generalize r.getRestBlk env = r' at h
  cases h <;> rfl

@[simp] theorem receiver_closeTransferredFile_result (env : Receiver.Env) (r : ReceiverY) :
    (r.closeTransferredFile env).result = r.result := by
  have h := closeTransferredFile_spec env r
  generalize r.closeTransferredFile env = r' at h
  cases h <;> rfl

theorem statBlk_grows (h : StatBlk env r leaf r') : Grows r.result r'.result := by
  cases h with
  | again | noFile => exact .of_eq rfl
  | opened r₁ _ _ _ _ ho _ =>
    obtain ⟨_, _, _, rfl⟩ := openFileForTransfer_spec.mp ho
    exact .of_eq rfl
  | creatError r₁ _ _ _ _ ho _ =>
    obtain ⟨_, _, _, rfl⟩ := openFileForTransfer_spec.mp ho
    exact .append _ _
  | gaveUp => split_ifs <;> exact .append _ _

/-- Every transition of the receiver. -/
theorem receiver_grows {v v' : Receiver.Config} (h : Receiver.Trans env mesg v v') :
    Grows v.ctx.result v'.ctx.result := by
  cases h with
  | kbCancelImmediate | kbCancelDelayed | excessiveEOTs | endOfSession => exact .append _ _
  | dataBlk =>
    rw [dataBlkRead_eq]
    exact .of_eq (getRestBlk_result _ _)
  | @secondEOT _ r =>
    refine ⟨"Done, ", ?_⟩
    simp [acknowledgeEOT]
  | @closeError _ r => exact ⟨"CloseError", by simp⟩
  | statBlk _ hblk =>
    have hgrows := statBlk_grows hblk
    rw [statBlkRead_eq] at hgrows
    simpa using hgrows
  | blkWhenDone _ hblk => simpa using statBlk_grows hblk
  | retry =>
    dsimp only
    split_ifs <;> exact .of_eq rfl
  | gaveUp =>
    dsimp only
    split_ifs <;> exact .append _ _
  | answered =>
    rw [answerDataBlk_eq]
    exact .of_eq rfl
  | @abandoned _ r =>
    dsimp only
    split_ifs
    · exact ⟨"LossOfSyncronization", by simp⟩
    · exact ⟨"ExcessiveErrors", by simp⟩
  | @sndCancelled _ r => exact ⟨"SndCancelled", by simp⟩
  | _ => exact .of_eq rfl

end

/-! ## The sender -/

section

open Sender

variable {env : Sender.Env} {mesg : Mesg} {s s' : SenderY} {v v' : Sender.Config}

theorem sender_closeTransferredFile_result (h : s.closeTransferredFile env = .ok s') :
    s'.result = s.result := by
  rcases SenderY.closeTransferredFile_spec.mp h with ⟨-, rfl⟩ | ⟨-, -, rfl⟩ <;> rfl

theorem sendBlkPrepNext_result (h : s.sendBlkPrepNext = .ok s') : s'.result = s.result := by
  cases SenderY.nextSent h <;> rfl

theorem prepStatBlk_result (h : s.prepStatBlk env = .ok s') : s'.result = s.result := by
  cases SenderY.statPrepared h <;> rfl

theorem cancel_result {text : String} (h : cancel env text s = .ok s') :
    s'.result = s.result ++ text := by
  obtain ⟨s₁, hs₁, heq⟩ := bind_inv h
  cases heq
  have hr := sender_closeTransferredFile_result hs₁
  exact congrArg (· ++ text) hr

/-- The transition that assigns to `result`. -/
def Assigns (v : Sender.Config) (mesg : Mesg) : Prop := v.leaf = some .statC ∧ mesg = .kbC

/-- Every other transition of the sender. -/
theorem sender_grows (h : Sender.Trans env mesg v v') (hne : ¬ Assigns v mesg) :
    Grows v.ctx.result v'.ctx.result := by
  cases h with
  | kbCancelOpenErr | kbCancelStatC => exact absurd ⟨rfl, rfl⟩ hne
  | statSent _ hs | firstBlkSent _ _ hs | blkAcked _ _ hs =>
    have hr := sendBlkPrepNext_result hs
    exact .of_eq hr
  | noBlk _ _ hs | lastBlkAcked _ _ hs =>
    have hr := sender_closeTransferredFile_result hs
    exact .of_eq hr
  | eotAcked _ hs =>
    have hr := prepStatBlk_result hs
    exact .of_eq hr
  | fileDone _ hs =>
    have hr := prepStatBlk_result hs
    exact ⟨_, hr⟩
  | excessiveNAKs _ _ _ hs | kbCancelled _ _ _ hs | timedOut _ hs =>
    have hr := cancel_result hs
    exact ⟨_, hr⟩
  | rcvCancelled hs =>
    have hr := sender_closeTransferredFile_result hs
    exact ⟨"RcvCancelled", congrArg (· ++ "RcvCancelled") hr⟩
  | openError | endOfSession => exact .append _ _
  | _ => exact .of_eq rfl

/-- As long as the sender runs, its result is empty or starts with the entry of a file that has
been transferred. -/
def OnlyDone (v : Sender.Config) : Prop :=
  v.leaf.isSome = true → v.ctx.result = "" ∨ Grows "Done, " v.ctx.result

/-- A transition after which the sender still runs. -/
theorem running_result (h : Sender.Trans env mesg v v') (hrun : v'.leaf.isSome = true) :
    v'.ctx.result = v.ctx.result ∨ v'.ctx.result = v.ctx.result ++ "Done, " := by
  cases h with
  | statSent _ hs | firstBlkSent _ _ hs | blkAcked _ _ hs =>
    have hr := sendBlkPrepNext_result hs
    exact .inl hr
  | noBlk _ _ hs | lastBlkAcked _ _ hs =>
    have hr := sender_closeTransferredFile_result hs
    exact .inl hr
  | eotAcked _ hs =>
    have hr := prepStatBlk_result hs
    exact .inl hr
  | fileDone _ hs =>
    have hr := prepStatBlk_result hs
    exact .inr hr
  | kbCancelOpenErr | kbCancelStatC | openError | endOfSession | excessiveNAKs | kbCancelled
  | timedOut | rcvCancelled => cases hrun
  | _ => exact .inl rfl

theorem Trans.leaf_isSome (h : Sender.Trans env mesg v v') : v.leaf.isSome = true := by
  cases h <;> rfl

theorem OnlyDone.step (h : Sender.Trans env mesg v v') (hd : OnlyDone v) : OnlyDone v' := by
  intro hrun
  have hd := hd (Trans.leaf_isSome h)
  rcases running_result h hrun with hr | hr
  · rwa [hr]
  · right
    rw [hr]
    rcases hd with hd | ⟨more, hd⟩
    · exact ⟨"", by rw [hd]; rfl⟩
    · exact ⟨more ++ "Done, ", by rw [hd, String.append_assoc]⟩

/-- The entry of a file is not the start of what a KB_C in `StatC` assigns. -/
theorem not_grows_cancelled {text text' : String} (h : Grows "Done, " text)
    (h' : text' = "KbCancelledOpenErr" ∨ text' = "KbCancelledFromStatC") : ¬ Grows text text' := by
  rintro ⟨more', heq⟩
  obtain ⟨more, rfl⟩ := h
  have hlist := congrArg String.toList heq
  rcases h' with rfl | rfl <;> simp at hlist

/-- One transition of the sender. -/
theorem sender_grows_iff (h : Sender.Trans env mesg v v') (hd : OnlyDone v) :
    Grows v.ctx.result v'.ctx.result ↔ (Assigns v mesg → v.ctx.result = "") := by
  by_cases ha : Assigns v mesg
  swap
  · exact iff_of_true (sender_grows h ha) fun h => absurd h ha
  have htext : v'.ctx.result = "KbCancelledOpenErr" ∨ v'.ctx.result = "KbCancelledFromStatC" := by
    obtain ⟨hl, rfl⟩ := ha
    cases h with
    | kbCancelOpenErr => exact .inl rfl
    | kbCancelStatC => exact .inr rfl
    | ignored hnone =>
      cases hl
      exact absurd (hnone .statC (SState.mem_ancestors _)) (Option.some_ne_none _)
    | kbCancel _ hne _ =>
      cases hl
      exact absurd rfl hne
    | kbCancelCan => cases hl
  have hrun : v.leaf.isSome = true := by rw [ha.1]; rfl
  constructor
  · intro hgrows _
    rcases hd hrun with hempty | hdone
    · exact hempty
    · exact absurd hgrows (not_grows_cancelled hdone htext)
  · intro hempty
    rw [hempty ha]
    exact ⟨_, String.empty_append.symm⟩

theorem reachable_onlyDone {m : Sender.Machine} (h : Sender.Reachable m) :
    OnlyDone (Sender.configOf m) := by
  obtain ⟨files, m₀, es, ⟨env, blkBufs, hstart⟩, hr⟩ := h
  obtain ⟨hm₀, s, hs, hc⟩ := start_inv hstart
  have hstarted : OnlyDone (Sender.configOf m₀) := by
    intro _
    have hr := prepStatBlk_result hs
    rw [hc]
    exact .inl hr
  have hall := hr.invariant (I := fun m => Sender.Settled m ∧ OnlyDone (Sender.configOf m)) ?_
    ⟨hm₀, hstarted⟩
  · exact hall.2
  · intro m e m' ⟨hm, hd⟩ hstep
    obtain ⟨hm', ht⟩ := Sender.step_trans hm hstep
    exact ⟨hm', hd.step ht⟩

end

/-- **The result only grows**, but for a KB_C in `StatC` behind a file that was transferred. -/
theorem result_grows_iff {r r' : Receiver.Machine} {s s' : Sender.Machine}
    {e : Receiver.Env × Mesg} {f : Sender.Env × Mesg}
    (hr : Receiver.Reachable r) (hstep : Receiver.yReceiverSS.Step r e r')
    (hs : Sender.Reachable s) (hstep' : Sender.ySenderSS.Step s f s') :
    Grows r.ctx.result r'.ctx.result ∧
    (Grows s.ctx.result s'.ctx.result ↔
      (s.active = [.statC] → f.2 = .kbC → s.ctx.result = "")) := by
  have hsettled := hs.settled
  have hactive : s.active = [.statC] ↔ (Sender.configOf s).leaf = some .statC := by
    rw [hsettled.active_eq, Option.toList_eq_singleton_iff]
  refine ⟨receiver_grows (Receiver.step_trans hr.settled hstep).2, ?_⟩
  have hiff := sender_grows_iff (Sender.step_trans hsettled hstep').2 (reachable_onlyDone hs)
  rw [Assigns, and_imp, ← hactive] at hiff
  exact hiff

/-- An empty file is transferred, and the stat block of the second one is due. -/
def firstFileRun : List (Sender.Env × Mesg) :=
  [(.calm, .ser NCG), (.calm, .ser ACK), (.calm, .ser NCG), (.calm, .ser NAK), (.calm, .ser ACK)]

/-- A sender of two files that is cancelled after the first one. -/
theorem cancelled_after_first : ∃ s s' : Sender.Machine, Sender.Reachable s ∧ s.active = [.statC] ∧
    s.ctx.result = "Done, " ∧ Sender.ySenderSS.Step s (.calm, .kbC) s' ∧
    s'.ctx.result = "KbCancelledFromStatC" := by
  have hfirst : (Sender.ySenderSS.session .calm
      (.init [⟨[97], by decide, []⟩, ⟨[98], by decide, []⟩] fun _ => .blank)
      firstFileRun).toOption.any
      (fun m => decide (m.active = [Sender.SState.statC] ∧ m.ctx.result = "Done, ")) = true := by
    decide +kernel
  have hcancel : (Sender.ySenderSS.session .calm
      (.init [⟨[97], by decide, []⟩, ⟨[98], by decide, []⟩] fun _ => .blank)
      (firstFileRun ++ [(.calm, .kbC)])).toOption.any
      (fun m => decide (m.ctx.result = "KbCancelledFromStatC")) = true := by
    decide +kernel
  obtain ⟨m₀, s, s', hstart, hr, hc, hnext, hc'⟩ := Chart.run_of_sessions hfirst hcancel
  obtain ⟨hactive, hdone⟩ := of_decide_eq_true hc
  obtain ⟨_, hs, hnil⟩ := hnext.cons_inv
  cases hnil.nil_inv rfl
  exact ⟨s, s', ⟨_, m₀, _, ⟨_, _, hstart⟩, hr⟩, hactive, hdone, hs, of_decide_eq_true hc'⟩

/-- The entry of the first file is lost. -/
theorem done_entry_lost : ∃ s s' : Sender.Machine, Sender.Reachable s ∧
    Sender.ySenderSS.Step s (.calm, .kbC) s' ∧ ¬ Grows s.ctx.result s'.ctx.result := by
  obtain ⟨s, s', h, -, hdone, hs, hlost⟩ := cancelled_after_first
  refine ⟨s, s', h, hs, ?_⟩
  rw [hdone, hlost]
  exact not_grows_cancelled (.refl _) (.inr rfl)

theorem result_grows_after_first : ∃ (r r' : Receiver.Machine) (s s' : Sender.Machine),
    s.ctx.result = "Done, " ∧
    Grows r.ctx.result r'.ctx.result ∧
    (Grows s.ctx.result s'.ctx.result ↔ (s.active = [.statC] → Mesg.kbC = .kbC →
      s.ctx.result = "")) := by
  obtain ⟨s, s', h, -, hdone, hs, -⟩ := cancelled_after_first
  obtain ⟨r', hr, -⟩ := Receiver.Trans.step Receiver.started_startedMachine.settled
    (@Receiver.Trans.kbCancel (.calm []) .firstByteStat none Receiver.startedMachine.ctx rfl
      (by decide))
  exact ⟨_, r', s, s', hdone,
    result_grows_iff ⟨_, [], Receiver.started_startedMachine, .refl⟩ hr h hs⟩

end YModem.Session
