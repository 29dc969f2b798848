import YModem.Sender.Can

/-!
# The bytes that end a session of the sender

Which byte does it depends on the leaf, the error counter, `KbCan` and the file at hand.
-/

namespace YModem.Sender

open YModem.Lib YModem.Peer YModem.SmartState

/-- No input file is open, or the one that is can be closed. -/
def Closable (env : Env) (s : SenderY) : Prop := s.transferringFileD ≤ -1 ∨ env.close ≠ -1

/-- The byte `c` leads the chart to `FinalState`. -/
inductive EndsOn (env : Env) : UInt8 → Config → Prop where
  | openError {back s} (hf : s.fileName ≠ none) (hfd : s.transferringFileD = -1) :
      EndsOn env NCG ⟨some .statC, back, s⟩
  | endOfSession {back s} (hf : s.fileName = none) : EndsOn env ACK ⟨some .acknakstat, back, s⟩
  | excessiveNAKs {leaf back s} (hl : leaf.sends = true)
      (hnone : onMessage env leaf (.ser NAK) s = none) (he : errB ≤ s.errCnt)
      (hc : Closable env s) : EndsOn env NAK ⟨some leaf, back, s⟩
  | kbCancelled {c leaf back s} (hl : leaf.sends = true ∨ leaf = .can)
      (hc : c = ACK ∨ c = NAK ∨ c = NCG) (hk : s.kbCan = true)
      (hnone : onMessage env leaf (.ser c) s = none) (hcl : Closable env s) :
      EndsOn env c ⟨some leaf, back, s⟩
  | rcvCancelled {back s} (hc : Closable env s) : EndsOn env CAN ⟨some .can, back, s⟩

section

variable {env : Env} {c : UInt8} {v v' : Config} {s s' : SenderY} {m : Machine}

theorem Closable.close (h : Closable env s) : ∃ s', s.closeTransferredFile env = .ok s' := by
  rcases close_or_exit env s with ⟨s', hs, -⟩ | ⟨hfd, hbad, -⟩
  · exact ⟨s', hs⟩
  · rcases h with hle | hc
    · omega
    · exact absurd hbad hc

theorem closable_of_close (h : s.closeTransferredFile env = .ok s') : Closable env s := by
  rcases SenderY.closeTransferredFile_spec.mp h with ⟨hle, -⟩ | ⟨-, hc, -⟩
  · exact .inl hle
  · exact .inr hc

theorem Closable.cancel (h : Closable env s) (text : String) : ∃ s', cancel env text s = .ok s' := by
  obtain ⟨s', hs⟩ := @Closable.close env s.cans h
  exact ⟨_, by rw [Sender.cancel, hs]; rfl⟩

theorem closable_of_cancel {text : String} (h : cancel env text s = .ok s') : Closable env s := by
  obtain ⟨t, ht, -⟩ := bind_inv h
  have hcl : Closable env s.cans := closable_of_close ht
  exact hcl

/-- The transitions to `FinalState`. -/
theorem Trans.endsOn (h : Trans env (.ser c) v v') (hw : v.WellFormed) (hend : v'.leaf = none) :
    EndsOn env c v := by
  cases h with
  | openError hf hfd => exact .openError hf hfd
  | endOfSession hf => exact .endOfSession hf
  | excessiveNAKs hl hnone he hs => exact .excessiveNAKs hl hnone he (closable_of_cancel hs)
  | kbCancelled hc hk hnone hs =>
    exact .kbCancelled (hw.rests _ rfl) hc hk hnone (closable_of_cancel hs)
  | rcvCancelled hs => exact .rcvCancelled (closable_of_close hs)
  | _ => cases hend

/-- A handler that leads to `FinalState` with an effect that returns. -/
private theorem stops_of_final {leaf : SState} {back : Option SState} {mesg : Mesg}
    {effect : SenderY → Except Fault SenderY} (below : List SState) (a : SState) {above : List SState}
    (hanc : ySenderSS.ancestors leaf = below ++ a :: above)
    (hnone : ∀ b ∈ below, onMessage env b mesg s = none)
    (hsome : onMessage env a mesg s = final effect) (hs : effect s = .ok s') (posted : List Mesg) :
    ∃ m, ySenderSS.postEvent env mesg (Config.machine ⟨some leaf, back, s⟩ posted) = .ok m ∧
      m.running = false := by
  rw [postEvent_final below a hanc hnone hsome, hs, ok_bind]
  exact ⟨_, rfl, rfl⟩

private theorem passes_one {a : SState} {mesg : Mesg} (h : onMessage env a mesg s = none) :
    ∀ b ∈ [a], onMessage env b mesg s = none := by
  intro b hb
  rw [List.mem_singleton.mp hb]
  exact h

private theorem excessiveNAKs_stops {leaf : SState} {back : Option SState} (hl : leaf.sends = true)
    (hnone : onMessage env leaf (.ser NAK) s = none) (he : errB ≤ s.errCnt) (hc : Closable env s)
    (posted : List Mesg) :
    ∃ m, ySenderSS.postEvent env (.ser NAK) (Config.machine ⟨some leaf, back, s⟩ posted) = .ok m ∧
      m.running = false := by
  obtain ⟨s', hs⟩ := hc.cancel "ExcessiveNAKs"
  exact stops_of_final [leaf] .nonCan (ancestors_sends hl) (passes_one hnone)
    (if_pos ⟨rfl, he⟩) hs posted

private theorem kbCancelled_stops {leaf : SState} {back : Option SState}
    (hl : leaf.sends = true ∨ leaf = .can) (hc : c = ACK ∨ c = NAK ∨ c = NCG) (hk : s.kbCan = true)
    (hnone : onMessage env leaf (.ser c) s = none) (hcl : Closable env s) (posted : List Mesg) :
    ∃ m, ySenderSS.postEvent env (.ser c) (Config.machine ⟨some leaf, back, s⟩ posted) = .ok m ∧
      m.running = false := by
  obtain ⟨s', hs⟩ := hcl.cancel "KbCancelled"
  have htop : onMessage env .topLevel (.ser c) s = final (cancel env "KbCancelled") :=
    if_pos ⟨hk, hc⟩
  rcases hl with hl | rfl
  · by_cases hnak : c = NAK ∧ errB ≤ s.errCnt
    · obtain ⟨rfl, he⟩ := hnak
      exact excessiveNAKs_stops hl hnone he hcl posted
    · have hcan : ¬ c = CAN := by rcases hc with rfl | rfl | rfl <;> decide
      have hnonCan : onMessage env .nonCan (.ser c) s = none := by
        show nonCanSER env c s = none
        rw [nonCanSER, if_neg hnak, if_neg hcan]
      refine stops_of_final [leaf, .nonCan] .topLevel (ancestors_sends hl) ?_ htop hs posted
      intro b hb
      rcases List.mem_pair.mp hb with rfl | rfl
      · exact hnone
      · exact hnonCan
  · exact stops_of_final [.can] .topLevel rfl (passes_one hnone) htop hs posted

/-- Such a byte stops the machine. -/
theorem EndsOn.stops (h : EndsOn env c v) (posted : List Mesg) :
    ∃ m, ySenderSS.postEvent env (.ser c) (v.machine posted) = .ok m ∧ m.running = false := by
  cases h with
  | @openError back s hf hfd =>
    have hsome : onMessage env .statC (.ser NCG) s =
        final fun s => .ok (s.cans.peer (·.addResult "OpenError")) := if_pos ⟨rfl, hf, hfd⟩
    exact stops_of_final [] .statC rfl (by simp) hsome rfl posted
  | @endOfSession back s hf =>
    have hsome : onMessage env .acknakstat (.ser ACK) s =
        final fun s => .ok (s.peer (·.addResult "EndOfSession")) := by
      have hnak : ¬ ACK = NAK := by decide
      have hncg : ¬ ACK = NCG := by decide
      show acknakstatSER env ACK s = _
      rw [acknakstatSER, if_neg (fun h => h.2.1 hf), if_neg (fun h => h.1.elim hnak hncg),
        if_pos ⟨rfl, hf⟩]
    exact stops_of_final [] .acknakstat rfl (by simp) hsome rfl posted
  | excessiveNAKs hl hnone he hc => exact excessiveNAKs_stops hl hnone he hc posted
  | kbCancelled hl hc hk hnone hcl => exact kbCancelled_stops hl hc hk hnone hcl posted
  | @rcvCancelled back s hc =>
    obtain ⟨s', hs⟩ := hc.close
    rw [postEvent_rcvCancelled, hs, ok_bind]
    exact ⟨_, rfl, rfl⟩

/-- **The bytes that stop the machine.** -/
theorem endsOn_iff (hm : Settled m) : EndsOn env c (configOf m) ↔
    ∃ m', ySenderSS.Step m (env, .ser c) m' ∧ m'.running = false := by
  constructor
  · intro h
    have hstop := h.stops m.posted
    rw [← hm.shape] at hstop
    exact hstop
  · rintro ⟨m', hstep, hend⟩
    obtain ⟨hm', ht⟩ := step_trans hm hstep
    rw [hm'.running_eq, Option.isSome_eq_false_iff, Option.isNone_iff_eq_none] at hend
    exact ht.endsOn hm.wellFormed hend

end

end YModem.Sender
