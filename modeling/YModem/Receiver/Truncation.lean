import YModem.Receiver.Accept
import YModem.Receiver.Output

/-!
# What "Done, " says about a file

The second EOT closes the current file, however many of its data blocks have arrived.
The receiver never compares `bytesRemaining` with zero there, so that "Done, " stands for
a complete file only when the announced size had been counted down.
-/

namespace YModem.Receiver

open YModem.Lib YModem.Peer YModem.SmartState

/-- How often "Done, " has been appended. -/
def dones (calls : List Call) : Nat := calls.count (.result "Done, ")

@[simp] theorem dones_append (calls new : List Call) :
    dones (calls ++ new) = dones calls + dones new := List.count_append

section Steps

variable {env : Env} {mesg : Mesg} {next : Option RState} {r r' : ReceiverY} {v v' : Config}

theorem dones_getRestBlk (env : Env) (r : ReceiverY) :
    dones (r.getRestBlk env).calls = dones r.calls := by
  have hspec := getRestBlk_spec env r
  generalize r.getRestBlk env = g at hspec ⊢
  cases hspec with
  | bad purged hp _ => rcases hp with rfl | rfl <;> simp [dones]
  | _ => simp [dones]

theorem dones_closeTransferredFile (env : Env) (r : ReceiverY) :
    dones (r.closeTransferredFile env).calls = dones r.calls := by
  have hspec := closeTransferredFile_spec env r
  generalize r.closeTransferredFile env = g at hspec ⊢
  cases hspec <;> simp [dones]

theorem StatBlk.dones (h : StatBlk env r next r') :
    dones r'.calls = dones r.calls := by
  cases h with
  | again _ _ _ => simp [countAndWait, Receiver.dones]
  | noFile _ _ _ _ => simp [ReceiverY.checkForAnotherFile, Receiver.dones]
  | opened _ _ _ _ _ ho _ =>
    obtain ⟨fileName, size, _, rfl⟩ := openFileForTransfer_spec.mp ho
    simp [ReceiverY.checkForAnotherFile, Receiver.dones]
  | creatError _ _ _ _ _ ho _ =>
    obtain ⟨fileName, size, _, rfl⟩ := openFileForTransfer_spec.mp ho
    simp [ReceiverY.checkForAnotherFile, Receiver.dones]
  | gaveUp _ => split_ifs <;> simp [Receiver.dones]

/-- Only the second EOT is answered by "Done, ". -/
theorem Trans.done (h : Trans env mesg v v') (hd : dones v'.ctx.calls ≠ dones v.ctx.calls) :
    ∃ back r, v = ⟨some .eot, back, r⟩ ∧ (r.closeTransferredFile env).closeProb = 0 ∧
      v' = ⟨some .firstByteStat, back, acknowledgeEOT env (r.closeTransferredFile env)⟩ := by
  cases h with
  | secondEOT hc => exact ⟨_, _, rfl, hc, rfl⟩
  | @statBlk _ r _ _ _ hb =>
    refine absurd ?_ hd
    show dones _ = dones r.calls
    rw [hb.dones, statBlkRead_eq]
    exact dones_getRestBlk env r
  | @blkWhenDone _ r _ _ _ hb =>
    refine absurd ?_ hd
    show dones _ = dones r.calls
    rw [hb.dones]
    exact dones_getRestBlk env r
  | @dataBlk _ _ r _ _ =>
    refine absurd ?_ hd
    rw [dataBlkRead_eq]
    exact dones_getRestBlk env r
  | answered _ _ =>
    refine absurd ?_ hd
    rw [answerDataBlk_eq]
    split_ifs <;> simp [dones]
  | @closeError _ r _ =>
    have hc := dones_closeTransferredFile env r
    exact absurd (by simpa [dones] using hc) hd
  | @abandoned _ r _ =>
    have hc := dones_closeTransferredFile env r.cans
    exact absurd (by split_ifs <;> simpa [dones] using hc) hd
  | @sndCancelled _ r =>
    have hc := dones_closeTransferredFile env r
    exact absurd (by simpa [dones] using hc) hd
  | retry _ _ _ => exact absurd (by split_ifs <;> simp [countAndWait, dones]) hd
  | gaveUp _ _ => exact absurd (by split_ifs <;> simp [dones]) hd
  | _ => exact absurd (by simp [countAndWait, dones]) hd

end Steps

/-- In `EOT` the bytes written and the bytes still due make up the announced size. -/
theorem FileInv.length_data {f : OutFile} {r : ReceiverY} (h : FileInv f f.blocks.length r) :
    f.data.length + r.bytesRemaining.toNat = f.size.toNat := by
  have hflat := OutFile.length_flatten_take (Nat.le_refl f.blocks.length) h.length_payload
  have hrest := h.remaining
  have hdone := h.finished
  rw [h.data, List.length_take, hflat]
  simp only [CHUNK_SZ] at hrest hdone ⊢
  omega

/-- The step that appends "Done, " closes the current file. -/
theorem closes_at_done {m m' : Machine} {e : Env × Mesg} (h : Reachable m)
    (hs : yReceiverSS.Step m e m') (hd : dones m'.ctx.calls ≠ dones m.ctx.calls) :
    ∃ f, (outputs m.ctx.calls).current = some f ∧ FileInv f f.blocks.length m.ctx ∧
      m'.ctx.calls = m.ctx.calls ++ [.close f.fd 0, .sendByte ACK, .sendByte NCG,
        .result "Done, "] ∧
      (outputs m'.ctx.calls).earlier = (outputs m.ctx.calls).earlier ++ [f] := by
  obtain ⟨-, ht⟩ := step_trans h.settled hs
  have hk := h.kept
  obtain ⟨back, r, hv, hc, hv'⟩ := ht.done hd
  rw [hv] at hk
  have hr : m.ctx = r := congrArg Config.ctx hv
  have hr' : m'.ctx = _ := congrArg Config.ctx hv'
  have htr : Transferring .eot r := hk.transferring .eot rfl rfl
  obtain ⟨hopen, f, hcur, hf⟩ := htr
  rw [if_neg (by simp)] at hf
  have hadd := Outputs.add_close_current hcur
  have hspec := closeTransferredFile_spec e.1 r
  rw [hr', hr]
  clear hd
  generalize r.closeTransferredFile e.1 = g at hspec hc ⊢
  cases hspec with
  | notOpen hfd => omega
  | failed _ hne => exact absurd hc hne
  | closed _ _ =>
    refine ⟨f, hcur, hf, ?_, ?_⟩
    · simp [acknowledgeEOT, hf.fd]
    · rw [hf.fd] at hadd
      simp [acknowledgeEOT, hadd]

/-- A receiver that is told of a file of five bytes and reads two EOTs next. -/
theorem reads_early_eots : ∃ m m', Reachable m ∧
    yReceiverSS.Step m (.calm [], .ser EOT) m' ∧ dones m'.ctx.calls ≠ dones m.ctx.calls ∧
    (outputs m.ctx.calls).current = some ⟨[97], 5, 3, 0, [], []⟩ := by
  obtain ⟨m, hopen, hm, hl, -, hnum, ho⟩ := opens_named_file [97] [53]
    started_startedMachine.settled rfl rfl rfl (by decide) (by decide) (by decide) (by decide)
    (by decide) (by decide : stoi [53] = some 5)
  obtain ⟨m₁, hs₁, hc₁⟩ := @Trans.step _ (.calm []) _ _ hm
    (config_of_active hl ▸ Trans.firstEOT ho.kbCan)
  have hm₁ := (step_trans hm hs₁).1
  have hopen₁ : -1 < (countAndWait (.calm []) (m.ctx.purge.peer (·.sendByte NAK))).transferringFileD := by
    show -1 < m.ctx.transferringFileD
    rw [ho.transferringFileD]
    decide
  have hclose := @closeTransferredFile_closed (.calm []) _ hopen₁ rfl
  obtain ⟨m₂, hs₂, hc₂⟩ := @Trans.step _ (.calm []) _ _ hm₁
    (hc₁ ▸ Trans.secondEOT (by rw [hclose]))
  have hr₁ : m₁.ctx.calls = m.ctx.calls ++ [.purge, .sendByte NAK] := by
    rw [show m₁.ctx = _ from congrArg Config.ctx hc₁]
    simp [countAndWait]
  have hr₂ : m₂.ctx.calls = m₁.ctx.calls ++
      [.close m.ctx.transferringFileD 0, .sendByte ACK, .sendByte NCG, .result "Done, "] := by
    rw [show m₂.ctx = _ from congrArg Config.ctx hc₂, hclose, hr₁]
    simp [acknowledgeEOT, countAndWait]
  refine ⟨m₁, m₂, ⟨_, _, started_startedMachine, .cons hopen (.single hs₁)⟩, hs₂, ?_, ?_⟩
  · simp [hr₂, dones]
  · have hrest := calm_rest (startedMachine.ctx.numLastGoodBlk + 1)
      (@length_statChunk [97] [53] (by decide))
    have hcalls₀ : startedMachine.ctx.calls = [.sendByte NCG] := rfl
    have hnum₀ : startedMachine.ctx.numLastGoodBlk + 1 = 0 := rfl
    rw [hr₁, ho.calls, hrest, hnum₀, hcalls₀]
    simp [outputs, Outputs.add, Outputs.accept, Outputs.lastNum, Env.calm]

/-- **What the receiver writes before it answers "Done, ".** The file that the second EOT
closes holds as many bytes as its data blocks carry, but no more than the announced size:
what `bytesRemaining` still counts is missing. -/
theorem done_bytes {m m' : Machine} {e : Env × Mesg} (h : Reachable m)
    (hs : yReceiverSS.Step m e m') (hd : dones m'.ctx.calls ≠ dones m.ctx.calls) :
    ∃ f, (outputs m.ctx.calls).current = some f ∧
      m'.ctx.calls = m.ctx.calls ++ [.close f.fd 0, .sendByte ACK, .sendByte NCG,
        .result "Done, "] ∧
      (outputs m'.ctx.calls).earlier = (outputs m.ctx.calls).earlier ++ [f] ∧
      f.data = f.firstBytes f.blocks.length ∧
      f.data.length + m.ctx.bytesRemaining.toNat = f.size.toNat ∧
      (f.data.length = f.size.toNat ↔ m.ctx.bytesRemaining ≤ 0) := by
  obtain ⟨f, hcur, hf, hcalls, hearlier⟩ := closes_at_done h hs hd
  have hlen := hf.length_data
  refine ⟨f, hcur, hcalls, hearlier, ?_, hlen, by omega⟩
  rw [OutFile.firstBytes_eq (Nat.le_refl _) hf.length_payload]
  exact hf.data

theorem done_bytes_early_eots : ∃ m m' f, Reachable m ∧
    yReceiverSS.Step m (.calm [], .ser EOT) m' ∧ (outputs m.ctx.calls).current = some f ∧
    f.data.length + m.ctx.bytesRemaining.toNat = 5 := by
  obtain ⟨m, m', h, hs, hd, hcur⟩ := reads_early_eots
  obtain ⟨f, hf, -, -, -, hlen, -⟩ := done_bytes h hs hd
  refine ⟨m, m', f, h, hs, hf, ?_⟩
  cases hcur.symm.trans hf
  exact hlen

/-- The file of five bytes is closed and "Done, " appended while it is still empty. -/
theorem empty_file_done : ∃ m m' f, Reachable m ∧ yReceiverSS.Step m (.calm [], .ser EOT) m' ∧
    m'.ctx.calls = m.ctx.calls ++ [.close 3 0, .sendByte ACK, .sendByte NCG, .result "Done, "] ∧
    (outputs m'.ctx.calls).earlier.getLast? = some f ∧ f.size = 5 ∧ f.data = [] := by
  obtain ⟨m, m', h, hs, hd, hcur⟩ := reads_early_eots
  obtain ⟨f, hf, -, hcalls, hearlier⟩ := closes_at_done h hs hd
  cases hcur.symm.trans hf
  exact ⟨m, m', _, h, hs, hcalls, by rw [hearlier, List.getLast?_concat], rfl, rfl⟩

end YModem.Receiver
