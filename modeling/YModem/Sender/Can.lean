import YModem.Sender.Runtime

/-!
# CAN bytes read by the sender

A leaf of `NON_CAN` handles no CAN byte, so the first one moves the machine to the state
`CAN` and stores that leaf. A second CAN byte ends the session; anything else leads back to
the leaf, with the timeout that `tmPush` has saved.
-/

namespace YModem.Sender

open YModem.Lib YModem.Peer YModem.SmartState

/-- A sender that some sequence of events has led to. -/
def Reachable (m : Machine) : Prop :=
  ∃ files m₀ es, Started files m₀ ∧ Run ySenderSS.Step m₀ es m

theorem Reachable.settled {m : Machine} (h : Reachable m) : Settled m := by
  obtain ⟨_, m₀, es, h₀, hr⟩ := h
  exact run_settled h₀.settled hr

/-- A timeout, or a byte other than CAN. -/
def EndsCan (mesg : Mesg) : Prop := mesg = .tm ∨ ∃ c, c ≠ CAN ∧ mesg = .ser c

/-- The members that carry the state of the transfer and of the timeout, and the record of
what has been sent. -/
structure SameTransfer (s s' : SenderY) : Prop where
  absoluteTimeout : s'.absoluteTimeout = s.absoluteTimeout
  blkNum : s'.blkNum = s.blkNum
  blkBufs : s'.blkBufs = s.blkBufs
  bytesRd : s'.bytesRd = s.bytesRd
  unread : s'.unread = s.unread
  firstBlk : s'.firstBlk = s.firstBlk
  errCnt : s'.errCnt = s.errCnt
  fileName : s'.fileName = s.fileName
  transferringFileD : s'.transferringFileD = s.transferringFileD
  kbCan : s'.kbCan = s.kbCan
  result : s'.result = s.result
  calls : s'.calls = s.calls

/-- The session is over: the input file is not open any more, and the result says so. A
`close` that fails is reported and exits the process instead. -/
def CancelledByReceiver (env : Env) (m m₁ : Machine) : Prop :=
  (∃ m₂, ySenderSS.Step m₁ (env, .ser CAN) m₂ ∧ m₂.running = false ∧ m₂.active = [] ∧
    m₂.ctx.transferringFileD ≤ -1 ∧ m₂.ctx.result = m.ctx.result ++ "RcvCancelled") ∨
  (-1 < m.ctx.transferringFileD ∧ env.close = -1 ∧
    ySenderSS.postEvent env (.ser CAN) m₁ = .error .exited)

/-- `closeTransferredFile` leaves no open descriptor, or exits. -/
theorem close_or_exit (env : Env) (s : SenderY) :
    (∃ s', s.closeTransferredFile env = .ok s' ∧ s'.transferringFileD ≤ -1 ∧
      s'.result = s.result) ∨
    (-1 < s.transferringFileD ∧ env.close = -1 ∧ s.closeTransferredFile env = .error .exited) := by
  by_cases hfd : s.transferringFileD ≤ -1
  · exact .inl ⟨s, SenderY.closeTransferredFile_spec.mpr (.inl ⟨hfd, rfl⟩), hfd, rfl⟩
  have hopen : -1 < s.transferringFileD := by omega
  by_cases hc : env.close = -1
  · refine .inr ⟨hopen, hc, ?_⟩
    rw [SenderY.closeTransferredFile, if_pos hopen, if_pos hc]
  · exact .inl ⟨_, SenderY.closeTransferredFile_spec.mpr (.inr ⟨hopen, hc, rfl⟩),
      Int.le_refl _, rfl⟩

/-- The machine is back in the same leaf with nothing lost and nothing sent. -/
def Resumed (env : Env) (mesg : Mesg) (leaf : SState) (m m₁ : Machine) : Prop :=
  ∃ m₂, ySenderSS.Step m₁ (env, mesg) m₂ ∧ m₂.active = [leaf] ∧ m₂.running = true ∧
    SameTransfer m.ctx m₂.ctx

/-- **Two CAN bytes end the session of the sender, and a single one is harmless.** -/
theorem can_handled {m : Machine} {leaf : SState} (h : Reachable m) (hl : m.active = [leaf])
    (hs : leaf.sends = true) (env₁ : Env) :
    ∃ m₁, ySenderSS.Step m (env₁, .ser CAN) m₁ ∧
      (∀ env₂, CancelledByReceiver env₂ m m₁) ∧
      (m.ctx.kbCan = false → ∀ env₂ mesg, EndsCan mesg → Resumed env₂ mesg leaf m m₁) := by
  have hm := h.settled
  have hconfig : configOf m = ⟨some leaf, m.history .nonCan, m.ctx⟩ := by
    rw [configOf, hl]
    rfl
  have hfirst := @postEvent_can env₁ _ (m.history .nonCan) m.ctx hs m.posted
  rw [← hconfig, ← hm.shape] at hfirst
  refine ⟨_, hfirst, fun env₂ => ?_, fun hk env₂ mesg he => ?_⟩
  · have hsecond := @postEvent_rcvCancelled env₂ (some leaf)
      (m.ctx.peer (·.tmPush env₁.elapsed TM_CHAR)) []
    rcases close_or_exit env₂ (m.ctx.peer (·.tmPush env₁.elapsed TM_CHAR)) with
      ⟨s', hclose, hfd, hres⟩ | ⟨hfd, hbad, hexit⟩
    · rw [hclose] at hsecond
      exact .inl ⟨_, hsecond, rfl, rfl, hfd, congrArg (· ++ "RcvCancelled") hres⟩
    · rw [hexit] at hsecond
      exact .inr ⟨hfd, hbad, hsecond⟩
  · have hback := @postEvent_resume env₂ mesg leaf
      (m.ctx.peer (·.tmPush env₁.elapsed TM_CHAR)) hs hk he []
    exact ⟨_, hback, rfl, rfl, ⟨rfl, rfl, rfl, rfl, rfl, rfl, rfl, rfl, rfl, rfl, rfl, rfl⟩⟩

/-- The stat block is sent, a single CAN byte is read, and then the block's ACK. -/
def excursionRun : List (Env × Mesg) :=
  [(.calm, .ser NCG), (.calm, .ser CAN), (.calm, .tm), (.calm, .ser ACK)]

/-- A sender in `ONE` whose history is the leaf of an earlier excursion. -/
theorem can_handled_again : ∃ m, m.active = [.one] ∧ m.history .nonCan = some .acknakstat ∧
    m.ctx.kbCan = false ∧ ∃ m₁, ySenderSS.Step m (.calm, .ser CAN) m₁ ∧
      (∀ env₂, CancelledByReceiver env₂ m m₁) ∧
      (m.ctx.kbCan = false → ∀ env₂ mesg, EndsCan mesg → Resumed env₂ mesg .one m m₁) := by
  have hrun : (ySenderSS.session .calm (.init [⟨[97], by decide, [98]⟩] fun _ => .blank)
      excursionRun).toOption.any (fun m => decide (m.active = [SState.one] ∧
        m.history .nonCan = some .acknakstat ∧ m.ctx.kbCan = false)) = true := by decide +kernel
  obtain ⟨m₀, m, hstart, hr, -, hc⟩ := Chart.run_of_session hrun
  obtain ⟨hactive, hhist, hk⟩ := of_decide_eq_true hc
  have hreach : Reachable m := ⟨_, m₀, _, ⟨_, _, hstart⟩, hr⟩
  exact ⟨m, hactive, hhist, hk, can_handled hreach hactive rfl .calm⟩

end YModem.Sender
