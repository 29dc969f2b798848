import YModem.Receiver.Output

/-!
# The receiver gives up

While no block is accepted for the first time and no file is closed, every byte sent is
paid for by an error that is counted, or by a leaf that cannot be entered again. The
potential of a configuration is what it can still pay.
-/

namespace YModem.Receiver

open YModem.Lib YModem.Peer YModem.SmartState

/-! ## The error counter -/

/-- The most that `errCnt` reaches in a leaf. -/
def RState.errLimit : RState → Nat
  | .firstByteData => errB
  | .condTransientData => errB + 2
  | _ => errB + 1

def ErrBound (v : Config) : Prop := v.ctx.errCnt ≤ v.leaf.elim (errB + 2) RState.errLimit

section Steps

variable {env : Env} {mesg : Mesg} {next back : Option RState} {leaf : RState}
  {r r' : ReceiverY} {v v' : Config}

theorem RState.errLimit_le (leaf : RState) : leaf.errLimit ≤ errB + 2 := by
  cases leaf <;> decide

theorem ErrBound.le (h : ErrBound v) : v.ctx.errCnt ≤ errB + 2 := by
  unfold ErrBound at h
  cases hl : v.leaf with
  | none => simpa [hl] using h
  | some leaf =>
    rw [hl] at h
    exact h.trans leaf.errLimit_le

theorem StatBlk.errBound (h : StatBlk env r next r') (he : r.errCnt ≤ errB + 2) :
    ErrBound ⟨next, back, r'⟩ := by
  unfold ErrBound
  cases h with
  | again _ hlt _ =>
    have hmod := Nat.mod_le (r.errCnt + 1) UINT_RANGE
    show (r.errCnt + 1) % UINT_RANGE ≤ errB + 1
    omega
  | noFile _ hlt _ _ =>
    show r.errCnt ≤ errB + 1
    omega
  | opened _ _ hlt _ _ ho _ =>
    obtain ⟨_, _, _, rfl⟩ := openFileForTransfer_spec.mp ho
    exact Nat.le_of_lt hlt
  | creatError _ _ _ _ _ ho _ =>
    obtain ⟨_, _, _, rfl⟩ := openFileForTransfer_spec.mp ho
    exact he
  | gaveUp _ => split_ifs <;> exact he

theorem errLimit_of_waits (h : leaf.waits = true) : leaf.errLimit ≤ errB + 1 := by
  cases leaf <;> first | decide | cases h

/-- Stopping is possible with any count. -/
theorem ErrBound.stop (he : r'.errCnt ≤ errB + 2) : ErrBound ⟨none, back, r'⟩ := he

theorem Trans.errBound (h : Trans env mesg v v') (hw : v.WellFormed) (hb : ErrBound v) :
    ErrBound v' := by
  have hle := hb.le
  cases h with
  | ignored _ => exact hb
  | kbCancel _ _ => exact hb
  | purged _ _ _ _ _ => exact hb
  | purgedData => exact hb
  | interrupted hl => exact le_trans hb (errLimit_of_waits hl)
  | @dataBlk leaf _ r hl _ =>
    have hlimit : r.errCnt ≤ errB + 1 :=
      le_trans hb (errLimit_of_waits (by rcases RState.dataLeaf_cases hl with rfl | rfl <;> rfl))
    rw [dataBlkRead_eq]
    show (if _ then 0 else (r.errCnt + 1) % UINT_RANGE) ≤ errB + 2
    split_ifs
    · omega
    · exact (Nat.mod_le _ _).trans (by omega)
  | @firstEOT _ r _ =>
    have hlimit : r.errCnt ≤ errB := hb
    have hmod := Nat.mod_le (r.errCnt + 1) UINT_RANGE
    show (r.errCnt + 1) % UINT_RANGE ≤ errB + 1
    omega
  | secondEOT _ => exact Nat.zero_le _
  | closeError _ => exact .stop (by simpa using hle)
  | @eotAgain _ r _ hlt =>
    have hmod := Nat.mod_le (r.errCnt + 1) UINT_RANGE
    show (r.errCnt + 1) % UINT_RANGE ≤ errB + 1
    omega
  | @statBlk _ r _ _ _ h =>
    refine h.errBound ?_
    rw [statBlkRead_eq]
    show (if _ then 0 else r.errCnt) ≤ errB + 2
    split_ifs
    · exact Nat.zero_le _
    · exact hle
  | @blkWhenDone _ r _ _ _ h =>
    have hlimit : r.errCnt ≤ errB + 1 := hb
    have hmod := Nat.mod_le (r.errCnt + 1) UINT_RANGE
    refine h.errBound ?_
    simp only [ReceiverY.peer_toPeerY, PeerY.incErrCnt_errCnt, ReceiverY.getRestBlk_errCnt]
    omega
  | @retry leaf _ r hl hlt _ =>
    have hmod := Nat.mod_le (r.errCnt + 1) UINT_RANGE
    have hlimit : errB ≤ leaf.errLimit := by cases leaf <;> decide
    have hcount : (countAndWait env (if r.transferringFileD = -1 then r.peer (·.sendByte NCG)
        else r.peer (·.sendByte NAK))).errCnt = (r.errCnt + 1) % UINT_RANGE := by
      split_ifs <;> rfl
    show (countAndWait env _).errCnt ≤ leaf.errLimit
    omega
  | gaveUp _ _ => exact .stop (by split_ifs <;> exact hle)
  | answered _ hlt =>
    rw [answerDataBlk_eq]
    exact Nat.le_of_lt hlt
  | abandoned _ => exact .stop (by split_ifs <;> simpa using hle)
  | resumedSER _ _ =>
    refine le_trans hb ?_
    rcases hw.remembers with hb | hb | hb <;> simp only at hb <;> subst hb <;> exact Nat.le_refl _
  | resumedTM _ =>
    refine le_trans hb ?_
    rcases hw.remembers with hb | hb | hb <;> simp only at hb <;> subst hb <;> exact Nat.le_refl _
  | sndCancelled => exact .stop (by simpa using hle)
  | _ => exact .stop hle

end Steps

/-! ## The potential -/

/-- How many blocks were accepted for the first time and how many files were closed. -/
def progress (calls : List Call) : Nat :=
  calls.countP fun
    | .getRestBlk _ _ goodBlk1st => goodBlk1st
    | .close _ rc => rc = 0
    | _ => false

/-- The number of bytes sent, other than by `cans`. -/
def spent (calls : List Call) : Nat := (sentBytes calls).length

@[simp] theorem progress_append (calls new : List Call) :
    progress (calls ++ new) = progress calls + progress new := List.countP_append

@[simp] theorem spent_append (calls new : List Call) :
    spent (calls ++ new) = spent calls + spent new := by
  simp [spent]

/-- The bytes that can still be sent from a leaf. A file that was closed is the one thing
that lets `FirstByteStat` set the error counter back. -/
def leafPotential (closeProb : Int) (errCnt : Nat) : RState → Nat
  | .firstByteStat =>
    if closeProb = 0 then 2 * (errB - errCnt) + 23
    else if errCnt < errB then 2 * (errB - errCnt) + 3 else 0
  | .areWeDone =>
    if closeProb = 0 then 2 * (errB - errCnt) + 23
    else if errCnt < errB then 2 * (errB - errCnt) + 1 else 0
  | .firstByteData => 2 * (errB - errCnt) + 1
  | .eot => if errCnt < errB then 2 * (errB - errCnt) + 1 else 0
  | .condTransientData => if errCnt < errB then 2 * (errB - errCnt) + 3 else 0
  | _ => 0

def potential (v : Config) : Nat :=
  v.leaf.elim 0 fun leaf => leafPotential v.ctx.closeProb v.ctx.errCnt
    (if leaf = .can then RState.resumed v.back else leaf)

/-- The bytes that `CondlTransientStat` and what follows can send. -/
def statPotential (r : ReceiverY) : Nat :=
  if r.errCnt < errB then
    if r.closeProb = 0 then 2 * (errB - r.errCnt) + 24 else 2 * (errB - r.errCnt) + 3
  else 0

section Potential

variable {env : Env} {mesg : Mesg} {next back : Option RState} {leaf : RState}
  {r r' : ReceiverY} {v v' : Config}

theorem potential_le (v : Config) : potential v ≤ 5 * errB := by
  obtain ⟨leaf, back, r⟩ := v
  cases leaf with
  | none => exact Nat.zero_le _
  | some leaf =>
    show leafPotential r.closeProb r.errCnt _ ≤ 5 * errB
    generalize (if leaf = .can then RState.resumed back else leaf) = s
    simp only [errB]
    cases s <;> simp only [leafPotential, errB] <;> (try split_ifs) <;> omega

theorem wrapped (he : r.errCnt ≤ errB + 2) : (r.errCnt + 1) % UINT_RANGE = r.errCnt + 1 :=
  Nat.mod_eq_of_lt (by simp only [errB, UINT_RANGE] at he ⊢; omega)

theorem StatBlk.pays (h : StatBlk env r next r') (back : Option RState)
    (he : r.errCnt ≤ errB + 2) :
    spent r'.calls + potential ⟨next, back, r'⟩ ≤ spent r.calls + statPotential r := by
  have hw := wrapped he
  cases h with
  | again _ hlt _ =>
    simp [countAndWait, spent, sentBytes, potential, leafPotential, statPotential, hw, hlt]
    split_ifs <;> omega
  | noFile _ hlt _ _ =>
    simp [spent, sentBytes, potential, leafPotential, statPotential, ReceiverY.checkForAnotherFile, hlt]
    split_ifs <;> omega
  | opened _ _ hlt _ _ ho _ =>
    obtain ⟨_, _, _, rfl⟩ := openFileForTransfer_spec.mp ho
    simp [spent, sentBytes, potential, leafPotential, statPotential, ReceiverY.checkForAnotherFile, hlt]
    split_ifs <;> omega
  | creatError _ _ _ _ _ ho _ =>
    obtain ⟨_, _, _, rfl⟩ := openFileForTransfer_spec.mp ho
    simp [spent, sentBytes, potential, ReceiverY.checkForAnotherFile]
  | gaveUp _ => split_ifs <;> simp [spent, sentBytes, potential]

theorem progress_le (h : Trans env mesg v v') : progress v.ctx.calls ≤ progress v'.ctx.calls :=
  h.extends.sublist.countP_le

/-- Stopping costs nothing, and pays back whatever was left. -/
theorem pays_stop (hs : spent r'.calls = spent r.calls) :
    spent r'.calls + potential ⟨none, back, r'⟩ ≤ spent r.calls + potential v := by
  rw [hs]
  exact Nat.add_le_add_left (Nat.zero_le _) _

/-- A step that sends `n` bytes and lowers the potential by as much. -/
theorem pays_step {back' : Option RState} {leaf' : RState} (n : Nat) (hl : leaf ≠ .can)
    (hl' : leaf' ≠ .can) (hs : spent r'.calls = spent r.calls + n)
    (hcost : leafPotential r'.closeProb r'.errCnt leaf' + n ≤
      leafPotential r.closeProb r.errCnt leaf) :
    spent r'.calls + potential ⟨some leaf', back', r'⟩ ≤
      spent r.calls + potential ⟨some leaf, back, r⟩ := by
  simp only [potential, Option.elim_some, if_neg hl, if_neg hl', hs]
  omega

theorem spent_getRestBlk (env : Env) (r : ReceiverY) :
    spent (r.getRestBlk env).calls = spent r.calls := by
  have hspec := getRestBlk_spec env r
  generalize r.getRestBlk env = g at hspec ⊢
  cases hspec with
  | bad purged hp _ => rcases hp with rfl | rfl <;> simp [spent, sentBytes]
  | _ => simp [spent, sentBytes]

theorem spent_closeTransferredFile (env : Env) (r : ReceiverY) :
    spent (r.closeTransferredFile env).calls = spent r.calls := by
  have hspec := closeTransferredFile_spec env r
  generalize r.closeTransferredFile env = g at hspec ⊢
  cases hspec <;> simp [spent, sentBytes]

/-- A block that is no progress is not good for the first time. -/
theorem goodBlk1st_of_progress (h : progress (r.getRestBlk env).calls = progress r.calls) :
    (r.getRestBlk env).goodBlk1st = false := by
  have hspec := getRestBlk_spec env r
  generalize r.getRestBlk env = g at h hspec ⊢
  cases hspec with
  | first _ _ => simp [progress] at h
  | _ => rfl

theorem resumed_ne_can (hb : Remembers back) : RState.resumed back ≠ .can := by
  rcases hb with rfl | rfl | rfl <;> simp [RState.resumed]

theorem Trans.pays (h : Trans env mesg v v') (hw : v.WellFormed) (hk : Kept v) (hb : ErrBound v)
    (hcan : mesg ≠ .ser CAN) (hq : progress v'.ctx.calls = progress v.ctx.calls) :
    spent v'.ctx.calls + potential v' ≤ spent v.ctx.calls + potential v := by
  have hwrap := wrapped hb.le
  cases h with
  | ignored _ => exact Nat.le_refl _
  | kbCancel _ _ => exact Nat.le_refl _
  | kbCancelImmediate => exact pays_stop (by simp [spent, sentBytes])
  | purged _ _ _ _ _ => simp [spent, sentBytes, potential]
  | purgedData => simp [spent, sentBytes, potential]
  | interrupted _ => exact absurd rfl hcan
  | kbCancelDelayed _ _ _ _ => exact pays_stop (by simp [spent, sentBytes])
  | @dataBlk leaf _ r hl _ =>
    rw [dataBlkRead_eq] at hq ⊢
    have h1st : (r.getRestBlk env).goodBlk1st = false := goodBlk1st_of_progress hq
    refine pays_step 0 (by rintro rfl; cases hl) (by simp) (spent_getRestBlk env r) ?_
    simp only [h1st, Bool.false_eq_true, if_false, ReceiverY.getRestBlk_closeProb]
    rw [show (r.errCnt + 1) % UINT_RANGE = r.errCnt + 1 from hwrap]
    rcases RState.dataLeaf_cases hl with rfl | rfl <;> simp only [leafPotential, errB] <;>
      split_ifs <;> omega
  | @firstEOT _ r _ =>
    have hlimit : r.errCnt ≤ errB := hb
    refine pays_step 1 (by simp) (by simp) (by simp [countAndWait, spent, sentBytes]) ?_
    show leafPotential _ ((r.errCnt + 1) % UINT_RANGE) .eot + 1 ≤ leafPotential _ r.errCnt .firstByteData
    rw [show (r.errCnt + 1) % UINT_RANGE = r.errCnt + 1 from hwrap]
    simp only [leafPotential, errB] at hlimit ⊢
    split_ifs <;> omega
  | @secondEOT _ r hc =>
    exfalso
    have hopen : -1 < r.transferringFileD := (hk.transferring .eot rfl rfl).isOpen
    have hspec := closeTransferredFile_spec env r
    generalize r.closeTransferredFile env = g at hspec hc hq
    cases hspec with
    | notOpen hfd => omega
    | failed _ hne => exact hne hc
    | closed _ _ => simp [acknowledgeEOT, progress] at hq
  | @closeError _ r _ =>
    have hclose := spent_closeTransferredFile env r
    exact pays_stop (by simpa [spent, sentBytes] using hclose)
  | excessiveEOTs _ _ => exact pays_stop (by simp [spent, sentBytes])
  | @eotAgain _ r hc hlt =>
    refine pays_step 2 (by simp) (by simp) (by simp [countAndWait, spent, sentBytes]) ?_
    show leafPotential r.closeProb ((r.errCnt + 1) % UINT_RANGE) .firstByteStat + 2 ≤ _
    rw [show (r.errCnt + 1) % UINT_RANGE = r.errCnt + 1 from hwrap]
    simp only [leafPotential, hc, if_true, errB] at hlt ⊢
    omega
  | @statBlk back r _ _ _ h =>
    have hle : r.errCnt ≤ errB + 2 := hb.le
    have hread := statBlkRead_eq env r
    have hspent := spent_getRestBlk env r
    have hpay := h.pays back (by rw [hread]; show (if _ then 0 else r.errCnt) ≤ _; split_ifs <;> omega)
    have hcost : statPotential (statBlkRead env r) ≤
        leafPotential r.closeProb r.errCnt .firstByteStat := by
      rw [hread]
      by_cases hc : r.closeProb = 0 <;> simp [statPotential, leafPotential, hc, errB]
    rw [hread] at hpay hcost
    exact hpay.trans (Nat.add_le_add (le_of_eq hspent) hcost)
  | @blkWhenDone back r _ _ _ h =>
    have hlimit : r.errCnt ≤ errB + 1 := hb
    have hcount : ((r.getRestBlk env).peer (·.incErrCnt)).errCnt = r.errCnt + 1 := by
      simpa using hwrap
    have hspent := spent_getRestBlk env r
    have hpay := h.pays back (by rw [hcount]; omega)
    have hcost : statPotential ((r.getRestBlk env).peer (·.incErrCnt)) ≤
        leafPotential r.closeProb r.errCnt .areWeDone := by
      simp only [statPotential, leafPotential, hcount, ReceiverY.peer_closeProb,
        ReceiverY.getRestBlk_closeProb, errB]
      split_ifs <;> omega
    exact hpay.trans (Nat.add_le_add (le_of_eq hspent) hcost)
  | @retry leaf _ r hl hlt _ =>
    have hne : leaf ≠ .can := by rintro rfl; simp [RState.dataLeaf] at hl
    refine pays_step 1 hne hne (by split_ifs <;> simp [countAndWait, spent, sentBytes]) ?_
    have hcount : (countAndWait env (if r.transferringFileD = -1 then r.peer (·.sendByte NCG)
        else r.peer (·.sendByte NAK))).errCnt = r.errCnt + 1 := by
      split_ifs <;> exact hwrap
    have hclose : (countAndWait env (if r.transferringFileD = -1 then r.peer (·.sendByte NCG)
        else r.peer (·.sendByte NAK))).closeProb = r.closeProb := by split_ifs <;> rfl
    rw [hcount, hclose]
    rcases hl with rfl | hd
    · simp only [leafPotential, errB] at hlt ⊢
      split_ifs <;> omega
    · rcases RState.dataLeaf_cases hd with rfl | rfl <;> simp only [leafPotential, errB] at hlt ⊢ <;>
        (try split_ifs) <;> omega
  | gaveUp _ _ => exact pays_stop (by split_ifs <;> simp [spent, sentBytes])
  | @answered _ r _ hlt =>
    have hcost : leafPotential r.closeProb r.errCnt .firstByteData + 2 ≤
        leafPotential r.closeProb r.errCnt .condTransientData := by
      simp only [leafPotential, if_pos hlt]
      omega
    have hspent : spent (answerDataBlk env r).calls ≤ spent r.calls + 2 := by
      rw [answerDataBlk_eq]
      split_ifs <;> simp [spent, sentBytes]
    have hpot : potential ⟨some .firstByteData, none, answerDataBlk env r⟩ =
        leafPotential r.closeProb r.errCnt .firstByteData := by
      rw [answerDataBlk_eq]
      rfl
    show spent (answerDataBlk env r).calls + potential ⟨some .firstByteData, none, _⟩ ≤
      spent r.calls + leafPotential r.closeProb r.errCnt .condTransientData
    omega
  | @abandoned _ r _ =>
    have hclose := spent_closeTransferredFile env r.cans
    exact pays_stop (by split_ifs <;> simpa [spent, sentBytes] using hclose)
  | endOfSession => exact pays_stop (by simp [spent, sentBytes])
  | resumedSER _ _ =>
    have hne := resumed_ne_can hw.remembers
    simp [spent, sentBytes, potential, hne]
  | resumedTM _ =>
    have hne := resumed_ne_can hw.remembers
    simp [potential, hne]
  | sndCancelled => exact absurd rfl hcan

end Potential

/-- What the steps of a run without CAN bytes keep. -/
structure Bounded (m : Machine) : Prop where
  settled : Settled m
  kept : Kept (configOf m)
  errBound : ErrBound (configOf m)

theorem Bounded.step {m m' : Machine} {e : Env × Mesg} (hb : Bounded m)
    (h : yReceiverSS.Step m e m') : Bounded m' := by
  obtain ⟨hm', ht⟩ := step_trans hb.settled h
  exact ⟨hm', ht.kept hb.settled.wellFormed hb.kept,
    ht.errBound hb.settled.wellFormed hb.errBound⟩

theorem Reachable.bounded {m : Machine} (h : Reachable m) : Bounded m where
  settled := h.settled
  kept := h.kept
  errBound := (h.invariant (I := ErrBound) (fun _ _ => Nat.zero_le _)
    fun hw hb ht => ht.errBound hw hb).2

/-- **The receiver gives up.** From any reachable state, as long as no block is accepted for
the first time, no file is closed and no CAN byte is read, it sends at most fifty bytes, and
the error counter stays below thirteen. -/
theorem gives_up {m m' : Machine} {es : List (Env × Mesg)} (h : Reachable m)
    (hcan : ∀ e ∈ es, e.2 ≠ .ser CAN) (hr : Run yReceiverSS.Step m es m')
    (hq : progress m'.ctx.calls = progress m.ctx.calls) :
    (sentBytes m'.ctx.calls).length ≤ (sentBytes m.ctx.calls).length + 5 * errB ∧
      m'.ctx.errCnt ≤ errB + 2 := by
  have hb := h.bounded
  have hpaid : spent m'.ctx.calls + potential (configOf m') ≤
      spent m.ctx.calls + potential (configOf m) := by
    refine @Run.spent_le_potential _ _ _ Bounded (fun e => e.2 ≠ .ser CAN)
      (fun m => progress m.ctx.calls) (fun m => spent m.ctx.calls)
      (fun m => potential (configOf m)) m m' es (fun hb hs => hb.step hs) ?_ ?_ hr hcan hb hq
    · exact fun hb hs => progress_le (step_trans hb.settled hs).2
    · exact fun hb hne hs hq => (step_trans hb.settled hs).2.pays hb.settled.wellFormed hb.kept
        hb.errBound hne hq
  have hpot := potential_le (configOf m)
  have hb' := hr.invariant (I := Bounded) (fun hb hs => hb.step hs) hb
  refine ⟨?_, hb'.errBound.le⟩
  show spent m'.ctx.calls ≤ spent m.ctx.calls + 5 * errB
  omega

/-- A sender that never answers: eleven timeouts end the session. -/
theorem gives_up_on_silence : ∃ m m', Reachable m ∧
    Run yReceiverSS.Step m (List.replicate 11 (.calm [], .tm)) m' ∧ m'.running = false ∧
    (sentBytes m'.ctx.calls).length ≤ (sentBytes m.ctx.calls).length + 5 * errB ∧
    m'.ctx.errCnt ≤ errB + 2 := by
  have hsession : (yReceiverSS.session (.calm []) (ReceiverY.init .blank)
      (List.replicate 11 (.calm [], .tm))).toOption.any
      (fun m => decide (m.running = false ∧ progress m.ctx.calls = 0)) = true := by
    decide +kernel
  obtain ⟨m, m', hstart, hr, -, hcheck⟩ := Chart.run_of_session hsession
  have hstopped := of_decide_eq_true hcheck
  have hquiet : progress m.ctx.calls = 0 := by
    rw [start_eq] at hstart
    cases hstart
    rfl
  have hreach : Reachable m := ⟨m, [], ⟨_, _, hstart⟩, .refl⟩
  exact ⟨m, m', hreach, hr, hstopped.1, gives_up hreach (by simp) hr (hstopped.2.trans hquiet.symm)⟩

end YModem.Receiver
