import YModem.Receiver.Accept

/-!
# A keyboard cancel stops the receiver

Once `KbCan` is set no block is read any more, so no chunk is written and no file is
opened. The EOT handlers do not ask for `KbCan`, and the state `CAN` hides it for one
event: the rank of a configuration counts the events it can still take.
-/

namespace YModem.Receiver

open YModem.Lib YModem.Peer YModem.SmartState

/-- A cancelled session: the machine is stopped, or `KbCan` is set and no chunk is waiting
to be written. -/
def Cancelled (v : Config) : Prop :=
  ∀ leaf ∈ v.leaf, v.ctx.kbCan = true ∧ leaf ≠ .condTransientData

/-- How many events a cancelled session can still take. Only `EOT` leads to
`FirstByteStat` again, with the error counter cleared. -/
def cancelRank (v : Config) : Nat :=
  match v.leaf with
  | none => 0
  | some .can => 1
  | some .firstByteStat => errB - v.ctx.errCnt + 2
  | some .eot => errB + 3
  | some _ => 2

/-- Neither a chunk nor a new file. -/
def Stores : Call → Prop
  | .write _ _ | .creat _ _ _ _ => True
  | _ => False

/-- The calls added from `r` to `r'` store nothing, and what is left of the file is what
was left before. -/
structure NothingStored (r r' : ReceiverY) : Prop where
  calls : ∃ new, r'.calls = r.calls ++ new ∧ ∀ call ∈ new, ¬ Stores call
  bytesRemaining : r'.bytesRemaining = r.bytesRemaining

namespace NothingStored

variable {r r' r'' : ReceiverY}

theorem refl (r : ReceiverY) : NothingStored r r := ⟨⟨[], by simp, by simp⟩, rfl⟩

theorem trans (h : NothingStored r r') (h' : NothingStored r' r'') : NothingStored r r'' := by
  obtain ⟨⟨new, hnew, hq⟩, hb⟩ := h
  obtain ⟨⟨new', hnew', hq'⟩, hb'⟩ := h'
  refine ⟨⟨new ++ new', ?_, ?_⟩, hb'.trans hb⟩
  · rw [hnew', hnew, List.append_assoc]
  · intro call hmem
    rcases List.mem_append.mp hmem with hmem | hmem
    · exact hq call hmem
    · exact hq' call hmem

/-- A context that differs by calls that store nothing. -/
theorem of_calls {new : List Call} (hc : r'.calls = r.calls ++ new)
    (hb : r'.bytesRemaining = r.bytesRemaining) (hq : ∀ call ∈ new, ¬ Stores call) :
    NothingStored r r' :=
  ⟨⟨new, hc, hq⟩, hb⟩

theorem closeTransferredFile (env : Env) (r : ReceiverY) :
    NothingStored r (r.closeTransferredFile env) := by
  have h := closeTransferredFile_spec env r
  generalize r.closeTransferredFile env = r' at h ⊢
  cases h with
  | notOpen _ => exact refl r
  | _ => exact of_calls rfl rfl (by simp [Stores])

end NothingStored

section Transitions

variable {env : Env} {mesg : Mesg} {v v' : Config} {r : ReceiverY} {back : Option RState}

private theorem cancelled_none : Cancelled ⟨none, back, r⟩ := by
  simp [Cancelled]

@[simp] theorem closeTransferredFile_kbCan (env : Env) (r : ReceiverY) :
    (r.closeTransferredFile env).kbCan = r.kbCan := by
  have h := closeTransferredFile_spec env r
  generalize r.closeTransferredFile env = r' at h
  cases h <;> rfl

/-- A KB_C cancels the session, whatever the machine was doing. -/
theorem Trans.cancels (h : Trans env .kbC v v') : Cancelled v' ∧ NothingStored v.ctx v'.ctx := by
  cases h with
  | kbCancel _ hne =>
    refine ⟨?_, ⟨⟨[], by simp, by simp⟩, rfl⟩⟩
    intro leaf hl
    cases hl
    exact ⟨rfl, hne⟩
  | kbCancelImmediate =>
    exact ⟨cancelled_none, .of_calls (by simp; rfl) rfl (by simp [Stores])⟩

private theorem Cancelled.kbCan {leaf : RState} (hc : Cancelled ⟨some leaf, back, r⟩) :
    r.kbCan ≠ false := by
  rw [(hc leaf rfl).1]
  decide

/-- `cans` and a line of the result. -/
private theorem cans_result (r : ReceiverY) (text : String) :
    NothingStored r (r.cans.peer (·.addResult text)) :=
  .of_calls (by simp; rfl) rfl (by simp [Stores])

/-- Every leaf has a rank, so stopping lowers it. -/
private theorem cancelRank_pos (leaf : RState) {r' : ReceiverY} :
    cancelRank ⟨none, back, r'⟩ < cancelRank ⟨some leaf, back, r⟩ := by
  cases leaf <;> simp [cancelRank]

/-- `CAN` has the lowest rank of the leaves. -/
private theorem cancelRank_can {leaf : RState} {back' : Option RState} {r' : ReceiverY}
    (hl : leaf.waits = true) :
    cancelRank ⟨some .can, back', r'⟩ < cancelRank ⟨some leaf, back, r⟩ := by
  cases leaf <;> simp [cancelRank] at hl ⊢
  cases hl

/-- One further event of a cancelled session: it stays cancelled, nothing is stored and the
rank goes down. -/
theorem Trans.cancelled (h : Trans env mesg v v') (hc : Cancelled v)
    (hm : mesg = .tm ∨ ∃ c, mesg = .ser c) :
    Cancelled v' ∧ NothingStored v.ctx v'.ctx ∧ cancelRank v' < cancelRank v := by
  cases h with
  | ignored => simp at hm
  | kbCancel => simp at hm
  | kbCancelImmediate => simp at hm
  | purged _ hk | dataBlk _ hk | firstEOT hk | statBlk hk | blkWhenDone hk | retry _ _ hk
  | resumedSER hk | resumedTM hk => exact absurd hk hc.kbCan
  | purgedData | answered | abandoned => exact absurd rfl (hc _ rfl).2
  | @interrupted leaf _ r hl =>
    refine ⟨?_, ⟨⟨[], by simp, by simp⟩, rfl⟩, cancelRank_can hl⟩
    intro l hmem
    cases hmem
    exact ⟨(hc leaf rfl).1, by decide⟩
  | @kbCancelDelayed leaf _ r _ _ _ _ _ =>
    refine ⟨cancelled_none, ?_, cancelRank_pos leaf⟩
    exact .of_calls (by simp; rfl) rfl (by simp [Stores])
  | @secondEOT _ r _ =>
    refine ⟨?_, (NothingStored.closeTransferredFile env r).trans ?_, ?_⟩
    · intro l hmem
      cases hmem
      refine ⟨?_, by decide⟩
      show (r.closeTransferredFile env).kbCan = true
      rw [closeTransferredFile_kbCan]
      exact (hc .eot rfl).1
    · exact .of_calls (by simp [acknowledgeEOT]; rfl) rfl (by simp [Stores])
    · simp [cancelRank, acknowledgeEOT]
  | @closeError _ r _ =>
    exact ⟨cancelled_none, (NothingStored.closeTransferredFile env r).trans (cans_result _ _),
      cancelRank_pos .eot⟩
  | @excessiveEOTs _ r _ _ =>
    exact ⟨cancelled_none, cans_result r _, cancelRank_pos .firstByteStat⟩
  | @eotAgain _ r _ he =>
    refine ⟨?_, .of_calls (by simp [countAndWait]; rfl) rfl (by simp [Stores]), ?_⟩
    · intro l hmem
      cases hmem
      exact ⟨(hc .firstByteStat rfl).1, by decide⟩
    · have hcount : (r.errCnt + 1) % UINT_RANGE = r.errCnt + 1 :=
        Nat.mod_eq_of_lt (by unfold UINT_RANGE errB at *; omega)
      show errB - (r.errCnt + 1) % UINT_RANGE + 2 < errB - r.errCnt + 2
      omega
  | @gaveUp leaf _ r _ _ =>
    refine ⟨cancelled_none, ?_, cancelRank_pos leaf⟩
    split_ifs <;> exact cans_result r _
  | @endOfSession _ r =>
    exact ⟨cancelled_none, .of_calls (by simp; rfl) rfl (by simp [Stores]),
      cancelRank_pos .areWeDone⟩
  | @sndCancelled _ r =>
    refine ⟨cancelled_none, (NothingStored.closeTransferredFile env r).trans ?_,
      cancelRank_pos .can⟩
    exact .of_calls (by simp; rfl) rfl (by simp [Stores])

/-- A cancelled machine takes every event. -/
theorem Cancelled.trans_total {leaf : RState} (hc : Cancelled ⟨some leaf, back, r⟩)
    (hl : leaf.rests = true) (env : Env) (mesg : Mesg) :
    ∃ v', Trans env mesg ⟨some leaf, back, r⟩ v' := by
  rcases Trans.total env mesg back r hl with ht | hf
  · exact ht
  · cases hf with
    | statBlk hk _ | blkWhenDone hk _ => exact absurd hk hc.kbCan

theorem cancelRank_le (v : Config) : cancelRank v ≤ errB + 3 := by
  unfold cancelRank
  split <;> omega

end Transitions

/-! ## The rest of the session -/

/-- A byte from the medium or a timeout. -/
def SerOrTm (e : Env × Mesg) : Prop := e.2 = .tm ∨ ∃ c, e.2 = .ser c

/-- A cancelled machine takes at most as many of the further events as its rank says, and
is then stopped unless there were no more. -/
theorem Cancelled.run {m : Machine} (hm : Settled m) (hc : Cancelled (configOf m))
    (es : List (Env × Mesg)) (hes : ∀ e ∈ es, SerOrTm e) :
    ∃ p m', p <+: es ∧ Run yReceiverSS.Step m p m' ∧ Settled m' ∧
      p.length + cancelRank (configOf m') ≤ cancelRank (configOf m) ∧
      (m'.running = true → p = es) := by
  induction es generalizing m with
  | nil => exact ⟨[], m, List.prefix_rfl, .refl, hm, by simp, fun _ => rfl⟩
  | cons e es ih =>
    cases hl : (configOf m).leaf with
    | none =>
      refine ⟨[], m, List.nil_prefix, .refl, hm, by simp, fun hr => ?_⟩
      rw [hm.running_eq, hl] at hr
      cases hr
    | some leaf =>
      obtain ⟨env, mesg⟩ := e
      have hconfig : configOf m = ⟨some leaf, (configOf m).back, m.ctx⟩ := by
        rw [← hl]
        rfl
      have hrests := hm.wellFormed.rests leaf hl
      obtain ⟨v', ht⟩ := (hconfig ▸ hc).trans_total hrests env mesg
      rw [← hconfig] at ht
      obtain ⟨m₁, hstep, rfl⟩ := ht.step hm
      obtain ⟨hc₁, -, hrank⟩ := ht.cancelled hc (hes (env, mesg) (by simp))
      obtain ⟨p, m', hp, hr, hm', hlen, hdone⟩ :=
        ih (step_trans hm hstep).1 hc₁ fun e he => hes e (by simp [he])
      refine ⟨(env, mesg) :: p, m', (List.prefix_cons_inj _).mpr hp, .cons hstep hr, hm', ?_, ?_⟩
      · rw [List.length_cons]
        omega
      · exact fun h => congrArg _ (hdone h)

/-- What the further events of a cancelled session keep. -/
theorem Cancelled.kept {m m' : Machine} {es : List (Env × Mesg)} (hm : Settled m)
    (hc : Cancelled (configOf m)) (hes : ∀ e ∈ es, SerOrTm e) (h : Run yReceiverSS.Step m es m') :
    Settled m' ∧ Cancelled (configOf m') ∧ NothingStored m.ctx m'.ctx ∧
      es.length + cancelRank (configOf m') ≤ cancelRank (configOf m) := by
  induction h with
  | refl => exact ⟨hm, hc, .refl _, by simp⟩
  | @tail t u es e hr hs ih =>
    obtain ⟨ht, hct, hq, hlen⟩ := ih fun e he => hes e (by simp [he])
    obtain ⟨hu, htr⟩ := step_trans ht hs
    obtain ⟨hcu, hq', hlt⟩ := htr.cancelled hct (hes e (by simp))
    refine ⟨hu, hcu, hq.trans hq', ?_⟩
    rw [List.length_append, List.length_singleton]
    omega

/-- Of the events `es` the machine takes at most `n`, and is then in its final state, unless
all of them were taken and they were fewer. -/
def StopsWithin (n : Nat) (m : Machine) (es : List (Env × Mesg)) : Prop :=
  ∃ p m', p <+: es ∧ p.length ≤ n ∧ Run yReceiverSS.Step m p m' ∧
    (m'.running = true → p = es ∧ es.length < n)

/-- However many of the events `es` are taken from `m₁`, no chunk waits to be written, and
since `m` none was written and no file was opened. -/
def StoresNothing (m m₁ : Machine) (es : List (Env × Mesg)) : Prop :=
  ∀ p m', p <+: es → Run yReceiverSS.Step m₁ p m' →
    RState.condTransientData ∉ m'.active ∧ NothingStored m.ctx m'.ctx

/-- **A keyboard cancel stops the receiver**, whatever bytes and timeouts follow it. -/
theorem kbCancel_stops {m : Machine} (h : Reachable m) (hrun : m.running = true) (env : Env)
    (es : List (Env × Mesg)) (hes : ∀ e ∈ es, SerOrTm e) :
    ∃ m₁, yReceiverSS.Step m (env, .kbC) m₁ ∧ StopsWithin (errB + 4) m₁ es ∧
      StoresNothing m m₁ es := by
  have hm := h.settled
  obtain ⟨leaf, hl⟩ := hm.active_of_running hrun
  have hconfig := config_of_active hl
  have hrests : leaf.rests = true := hm.wellFormed.rests leaf (by rw [hconfig]; rfl)
  obtain ⟨v₁, ht⟩ : ∃ v₁, Trans env .kbC (configOf m) v₁ := by
    rw [hconfig]
    rcases Trans.total env .kbC (m.history .nonCan) m.ctx hrests with ht | hf
    · exact ht
    · cases hf
  obtain ⟨m₁, hstep, rfl⟩ := ht.step hm
  have hm₁ := (step_trans hm hstep).1
  obtain ⟨hc₁, hq₁⟩ := ht.cancels
  have hrank := cancelRank_le (configOf m₁)
  refine ⟨m₁, hstep, ?_, ?_⟩
  · obtain ⟨p, m₂, hp, hr, hm₂, hlen, hdone⟩ := hc₁.run hm₁ es hes
    refine ⟨p, m₂, hp, by omega, hr, fun hrun₂ => ?_⟩
    have hall := hdone hrun₂
    rw [← hall]
    exact ⟨rfl, by omega⟩
  · intro p m₂ hp hr
    obtain ⟨hm₂, hc₂, hq₂, -⟩ := hc₁.kept hm₁ (fun e he => hes e (hp.mem he)) hr
    refine ⟨fun hmem => ?_, hq₁.trans hq₂⟩
    rw [hm₂.active_eq, Option.mem_toList] at hmem
    exact (hc₂ _ hmem).2 rfl

/-- The start of a session, cancelled before the first block, with two further events. -/
theorem kbCancel_stops_started : ∃ m₁, yReceiverSS.Step startedMachine (.calm [], .kbC) m₁ ∧
    StopsWithin (errB + 4) m₁ [(.calm [], .ser CAN), (.calm [], .tm)] ∧
    StoresNothing startedMachine m₁ [(.calm [], .ser CAN), (.calm [], .tm)] :=
  kbCancel_stops ⟨_, [], started_startedMachine, .refl⟩ rfl (.calm []) _ (by simp [SerOrTm])

end YModem.Receiver
