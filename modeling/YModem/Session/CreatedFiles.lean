import YModem.Session.Sending
import YModem.Receiver.Output

/-!
# The files that a receiver has created

The calls of a receiver tell which files it has created, in which order, and what it has
written. They are compared with the files of a batch.
-/

namespace YModem.Session

open YModem.Lib YModem.Peer YModem.Sender YModem.Receiver

/-! ## The files that have been created -/

/-- The receiver begins a file when it creates it. -/
def createsFile : Call → Bool
  | .creat _ _ _ _ => true
  | _ => false

/-- The files created, in the order of their creation. -/
def created (calls : List Call) : List OutFile :=
  (outputs calls).earlier ++ (outputs calls).current.toList

/-- The output file is a copy of `f`. -/
structure Complete (f : File) (o : OutFile) : Prop where
  fileName : o.fileName = filename f.name
  data : o.data = f.contents

/-- The output file is the beginning of a copy of `f`. -/
structure Part (f : File) (o : OutFile) : Prop where
  fileName : o.fileName = filename f.name
  data : o.data <+: f.contents

/-- The files created belong to the batch, in its order, and the first `n` are complete. -/
structure Copied (files : List File) (n : Nat) (outs : List OutFile) : Prop where
  part : ∀ (j : Nat) (o : OutFile), outs[j]? = some o → ∃ f, files[j]? = some f ∧ Part f o
  complete : ∀ j < n, ∃ f o, files[j]? = some f ∧ outs[j]? = some o ∧ Complete f o

/-! ## How the calls change the files -/

section Outputs

variable {files : List File} {n : Nat} {outs : List OutFile} {o o' : OutFile} {f : File}
  {r r' : ReceiverY}

theorem created_close (calls : List Call) (fd rc : Int) :
    created (calls ++ [.close fd rc]) = created calls := by
  simp only [created, outputs_append, List.foldl_cons, List.foldl_nil, Outputs.add]
  split_ifs <;> simp

theorem Part.same (h : Part f o) (hname : o'.fileName = o.fileName) (hdata : o'.data = o.data) :
    Part f o' := ⟨hname.trans h.fileName, hdata ▸ h.data⟩

/-- A file is created. -/
theorem Copied.concat (h : Copied files n outs) (hf : files[outs.length]? = some f)
    (ho : Part f o) : Copied files n (outs ++ [o]) := by
  constructor
  · intro j o' hj
    rcases Nat.lt_or_ge j outs.length with hlt | hge
    · rw [List.getElem?_append_left hlt] at hj
      exact h.part j o' hj
    · rw [List.getElem?_append_right hge, List.getElem?_singleton] at hj
      split_ifs at hj with hzero
      cases hj
      have hlen : j = outs.length := by omega
      exact ⟨f, hlen ▸ hf, ho⟩
  · intro j hj
    obtain ⟨g, o', hg, ho', hc⟩ := h.complete j hj
    refine ⟨g, o', hg, ?_, hc⟩
    rw [List.getElem?_append_left (List.getElem?_eq_some_iff.mp ho').1]
    exact ho'

theorem Copied.init (h : Copied files n (outs ++ [o])) (hn : n ≤ outs.length) :
    Copied files n outs := by
  constructor
  · intro j o' hj
    apply h.part j o'
    rw [List.getElem?_append_left (List.getElem?_eq_some_iff.mp hj).1]
    exact hj
  · intro j hj
    obtain ⟨f, o', hf, ho', hc⟩ := h.complete j hj
    rw [List.getElem?_append_left (by omega)] at ho'
    exact ⟨f, o', hf, ho', hc⟩

/-- The last file is replaced by a longer part. -/
theorem Copied.replace (h : Copied files n (outs ++ [o])) (hn : n ≤ outs.length)
    (ho : ∀ f, Part f o → Part f o') : Copied files n (outs ++ [o']) := by
  obtain ⟨f, hf, hpart⟩ := h.part outs.length o List.getElem?_concat_length
  exact (h.init hn).concat hf (ho f hpart)

/-- The last file is complete. -/
theorem Copied.finish (h : Copied files n (outs ++ [o])) (hn : outs.length = n)
    (hf : files[n]? = some f) (hc : Complete f o) : Copied files (n + 1) (outs ++ [o]) := by
  refine ⟨h.part, fun j hj => ?_⟩
  rcases Nat.lt_succ_iff_lt_or_eq.mp hj with hlt | rfl
  · exact h.complete j hlt
  · exact ⟨f, o, hf, by rw [← hn, List.getElem?_concat_length], hc⟩

/-! ## Calls that leave the files alone -/

/-- The calls say the same about the files. -/
structure SameOutputs (r r' : ReceiverY) : Prop where
  outputs : outputs r'.calls = outputs r.calls
  progress : progress createsFile r'.calls = progress createsFile r.calls

theorem SameOutputs.created (hs : SameOutputs r r') : created r'.calls = created r.calls := by
  rw [Session.created, hs.outputs, Session.created]

/-- Nothing has been sent, and no file has been created or finished. -/
structure Silent (r r' : ReceiverY) : Prop where
  created : created r'.calls = created r.calls
  done : (progress createsFile r'.calls).done = (progress createsFile r.calls).done
  sent : sentBytes r'.calls = sentBytes r.calls

theorem Silent.trans {s : ReceiverY} (h : Silent r s) (h' : Silent s r') : Silent r r' :=
  ⟨h'.created.trans h.created, h'.done.trans h.done, h'.sent.trans h.sent⟩

theorem silent_cans (r : ReceiverY) : Silent r r.cans :=
  ⟨by simp [Session.created], by simp [Progress.add, createsFile], by simp [sentBytes]⟩

theorem silent_purge (r : ReceiverY) : Silent r r.purge :=
  ⟨by simp [Session.created], by simp [Progress.add, createsFile], by simp [sentBytes]⟩

theorem silent_result (r : ReceiverY) {text : String} (ht : text ≠ "Done, ") :
    Silent r (r.peer (·.addResult text)) :=
  ⟨by simp [Session.created], by simp [Progress.add, createsFile, ht], by simp [sentBytes]⟩

/-- The session is given up. -/
theorem silent_cancelled (r : ReceiverY) {text : String} (ht : text ≠ "Done, ") :
    Silent r (r.cans.peer (·.addResult text)) :=
  (silent_cans r).trans (silent_result r.cans ht)

theorem silent_closeTransferredFile (env : Receiver.Env) (r : ReceiverY) :
    Silent r (r.closeTransferredFile env) := by
  have hspec := closeTransferredFile_spec env r
  generalize r.closeTransferredFile env = g at hspec ⊢
  cases hspec with
  | notOpen _ => exact ⟨rfl, rfl, rfl⟩
  | failed _ _ =>
    exact ⟨created_close _ _ _, by simp [Progress.add, createsFile], by simp [sentBytes]⟩
  | closed _ _ =>
    exact ⟨created_close _ _ _, by simp [Progress.add, createsFile], by simp [sentBytes]⟩

end Outputs

end YModem.Session
