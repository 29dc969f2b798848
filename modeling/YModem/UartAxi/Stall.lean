import YModem.UartAxi.Driver

/-!
# Whether queued bytes wait

`uart_isr` reads the identification register, which withdraws a transmitter-empty interrupt,
and then decides on the receive-ready flag alone. When there are received bytes it does not
schedule the tasklet, whatever it has just been told. Where no further look at the transmitter
is due by then, the bytes of `out_fifo` wait for another write.
-/

namespace YModem.UartAxi

open YModem.Lib

/-- While there is something to send, the tasklet is scheduled or running, or the transmitter
is busy, or its interrupt is pending. -/
def Driven (u : Uart) : Prop :=
  u.out_fifo ≠ [] →
    u.scheduled = true ∨ u.tasklet ≠ .idle ∨ u.busy = true ∨ u.txEmpty = true

/-- A call is under way that is about to schedule the tasklet: `uart_write` behind
`kfifo_from_user`, or `uart_isr` with a transmitter-empty interrupt that it has read and not
acted on. -/
def Handling (u : Uart) : Prop := u.write = .copied ∨ u.isr = .ifReady .txEmpty

/-- The tasklet is before its last look at the transmitter. -/
def Looking (u : Uart) : Prop := u.tasklet ≠ .idle ∧ u.tasklet ≠ .wake

/-- The decision of `uart_isr`, when it has read a transmitter-empty interrupt and finds
received bytes: another look at the transmitter is still due, or there is nothing to send. -/
def Heeded (u : Uart) (e : Event) : Prop :=
  e = .isr → u.isr = .ifReady .txEmpty → u.rx_ready = true →
    u.out_fifo = [] ∨ u.scheduled = true ∨ Looking u ∨ u.busy = true ∨ u.txEmpty = true ∨
      u.write = .copied

instance (u : Uart) : Decidable (Driven u) := inferInstanceAs (Decidable (_ → _))

instance (u : Uart) : Decidable (Handling u) := inferInstanceAs (Decidable (_ ∨ _))

instance (u : Uart) : Decidable (Looking u) := inferInstanceAs (Decidable (_ ∧ _))

instance (u : Uart) (e : Event) : Decidable (Heeded u e) :=
  inferInstanceAs (Decidable (_ → _ → _ → _))

/-- Another look at the transmitter is due. A tasklet that has made its last one does not
count any more. -/
inductive Due (u : Uart) : Prop where
  | scheduled (h : u.scheduled = true)
  | looking (h : Looking u)
  | busy (h : u.busy = true)
  | txEmpty (h : u.txEmpty = true)
  | write (h : u.write = .copied)
  | isr (h : u.isr = .ifReady .txEmpty)

/-- What the steps keep. -/
def Inv (u : Uart) : Prop := u.out_fifo ≠ [] → Due u

/-- One step of the driver or the device. -/
def Steps (u : Uart) (e : Event) (u' : Uart) : Prop := u.step e = some u'

section Step

variable {u u' : Uart} {e : Event}

/-- What is due stays due when neither the tasklet nor the transmitter changes and no call that
is about to schedule the tasklet is given up. -/
theorem Due.kept (hd : Due u) (hs : u'.scheduled = u.scheduled) (ht : u'.tasklet = u.tasklet)
    (hb : u'.busy = u.busy) (he : u'.txEmpty = u.txEmpty)
    (hw : u.write = .copied → u'.write = .copied)
    (hx : u.isr = .ifReady .txEmpty → u'.isr = .ifReady .txEmpty) : Due u' := by
  cases hd with
  | scheduled h => exact .scheduled (hs.trans h)
  | looking h =>
    rw [Looking, ← ht] at h
    exact .looking h
  | busy h => exact .busy (hb.trans h)
  | txEmpty h => exact .txEmpty (he.trans h)
  | write h => exact .write (hw h)
  | isr h => exact .isr (hx h)

/-- The decision of `uart_isr` is the one step that can forget an interrupt. -/
theorem uart_isr_inv (hi : Inv u) (hh : Heeded u .isr) (h : u.uart_isr = some u') : Inv u' := by
  rw [Uart.uart_isr] at h
  intro hne
  cases hisr : u.isr with
  | idle =>
    simp only [hisr] at h
    cases h
  | ifReady intid =>
    simp only [hisr] at h
    by_cases hrx : u.rx_ready = true
    · rw [if_pos hrx] at h
      cases h
      by_cases hintid : intid = .txEmpty
      · rw [hintid] at hisr
        rcases hh rfl hisr hrx with hnil | hs | hl | hb | he | hw
        · exact absurd hnil hne
        · exact .scheduled hs
        · exact .looking hl
        · exact .busy hb
        · exact .txEmpty he
        · exact .write hw
      · refine (hi hne).kept rfl rfl rfl rfl id fun hx => ?_
        rw [hisr] at hx
        exact absurd (Isr.ifReady.inj hx) hintid
    · rw [if_neg hrx] at h
      cases h
      exact .scheduled rfl
  | whileReady =>
    simp only [hisr] at h
    have hx {x : Isr} (hx : u.isr = .ifReady .txEmpty) : x = .ifReady .txEmpty := by
      rw [hisr] at hx
      cases hx
    cases hrbr : u.rbr with
    | nil =>
      simp only [hrbr] at h
      cases h
      exact (hi hne).kept rfl rfl rfl rfl id hx
    | cons data_in rbr =>
      simp only [hrbr] at h
      cases h
      exact (hi hne).kept rfl rfl rfl rfl id hx

/-- What is due stays due when the tasklet has made its last look. -/
theorem Due.leaves (hd : Due u) (hl : ¬ Looking u) (t : Tasklet) : Due { u with tasklet := t } := by
  cases hd with
  | scheduled h => exact .scheduled h
  | looking h => exact absurd h hl
  | busy h => exact .busy h
  | txEmpty h => exact .txEmpty h
  | write h => exact .write h
  | isr h => exact .isr h

/-- The tasklet leaves its loop only when there is nothing to send or the transmitter is
busy. -/
theorem uart_tasklet_func_inv (hi : Inv u) (h : u.uart_tasklet_func = some u') : Inv u' := by
  rw [Uart.uart_tasklet_func] at h
  intro hne
  have looking {v : Uart} (ht : v.tasklet ≠ .idle) (ht' : v.tasklet ≠ .wake) : Due v :=
    .looking ⟨ht, ht'⟩
  cases ht : u.tasklet with
  | idle =>
    simp only [ht] at h
    cases h
  | whileNotEmpty =>
    simp only [ht] at h
    by_cases hnil : u.out_fifo.isEmpty = true
    · rw [if_pos hnil] at h
      cases h
      exact absurd (List.isEmpty_iff.mp hnil) hne
    · rw [if_neg hnil] at h
      cases h
      exact looking (by simp) (by simp)
  | whileReady =>
    simp only [ht] at h
    by_cases hready : u.tx_ready = true
    · rw [if_pos hready] at h
      cases h
      exact looking (by simp) (by simp)
    · rw [if_neg hready] at h
      cases h
      exact .busy (by simpa [Uart.tx_ready] using hready)
  | out =>
    simp only [ht] at h
    cases hfifo : u.out_fifo with
    | nil =>
      simp only [hfifo] at h
      cases h
      exact absurd rfl hne
    | cons data out_fifo =>
      simp only [hfifo] at h
      cases h
      exact looking (by simp) (by simp)
  | sendReady data =>
    simp only [ht] at h
    by_cases hready : u.tx_ready = true
    · rw [if_pos hready] at h
      cases h
      exact looking (by simp) (by simp)
    · rw [if_neg hready] at h
      cases h
      exact looking (by simp) (by simp)
  | sendWrite data =>
    simp only [ht] at h
    cases h
    exact .busy rfl
  | wake =>
    simp only [ht] at h
    cases h
    apply (hi hne).leaves
    intro hl
    exact hl.2 ht

theorem step_inv (hi : Inv u) (hh : Heeded u e) (h : Steps u e u') : Inv u' := by
  rw [Steps] at h
  intro hne
  cases e with
  | writeBegins =>
    rw [Uart.step] at h
    split_ifs at h with hc
    cases h
    refine (hi hne).kept rfl rfl rfl rfl (fun hw => ?_) id
    rw [hc.1] at hw
    cases hw
  | copies bytes =>
    rw [Uart.step] at h
    split_ifs at h with hc
    cases h
    exact .write rfl
  | writeEnds =>
    rw [Uart.step] at h
    split_ifs at h with hc
    cases h
    exact .scheduled rfl
  | interrupt intid =>
    rw [Uart.step] at h
    split_ifs at h with hc hintid
    · cases h
      exact .isr (by rw [hintid])
    · cases h
      refine (hi hne).kept rfl rfl rfl rfl id fun hx => ?_
      rw [hc.1] at hx
      cases hx
  | isr => exact uart_isr_inv hi hh h hne
  | starts =>
    rw [Uart.step] at h
    split_ifs at h with hc
    cases h
    exact .looking ⟨by simp, by simp⟩
  | tasklet => exact uart_tasklet_func_inv hi h hne
  | transmitted =>
    rw [Uart.step] at h
    split_ifs at h with hc
    cases h
    exact .txEmpty rfl
  | received data =>
    rw [Uart.step] at h
    cases h
    exact (hi hne).kept rfl rfl rfl rfl id id

end Step

/-- An interrupt that is not heeded leaves bytes for which nothing is due. -/
theorem not_due_of_not_heeded {u u' : Uart} {e : Event} (hh : ¬ Heeded u e) (h : Steps u e u') :
    u'.out_fifo ≠ [] ∧ ¬ Due u' := by
  simp only [Heeded, Classical.not_imp, not_or] at hh
  obtain ⟨rfl, hisr, hrx, hne, hs, hl, hb, he, hw⟩ := hh
  simp only [Steps, Uart.step, Uart.uart_isr, hisr, if_pos hrx] at h
  cases h
  refine ⟨hne, fun hd => ?_⟩
  cases hd with
  | scheduled h => exact hs h
  | looking h => exact hl h
  | busy h => exact hb h
  | txEmpty h => exact he h
  | write h => exact hw h
  | isr h => cases h

/-! ## Runs -/

/-- In every run in which `uart_isr` heeds the interrupts that it reads, the bytes that are
queued are driven in every state reached, or a call is under way that is about to schedule the
tasklet. -/
theorem transmission_driven {txEmpty : Bool} {es : List Event} {u : Uart}
    (hrun : Run Steps (.init txEmpty) es u)
    (hheeded : EveryStep Steps (fun v e _ => Heeded v e) (.init txEmpty) es) :
    Driven u ∨ Handling u := by
  have hinit : Inv (.init txEmpty) := fun hne => absurd rfl hne
  have hinv : Inv u :=
    hrun.invariant_of_everyStep (fun hi hh hs => step_inv hi hh hs) hheeded hinit
  by_cases hne : u.out_fifo = []
  · exact .inl fun hfull => absurd hne hfull
  · cases hinv hne with
    | scheduled h => exact .inl fun _ => .inl h
    | looking h => exact .inl fun _ => .inr (.inl h.1)
    | busy h => exact .inl fun _ => .inr (.inr (.inl h))
    | txEmpty h => exact .inl fun _ => .inr (.inr (.inr h))
    | write h => exact .inr (.inl h)
    | isr h => exact .inr (.inr h)

/-- The tasklet does not read what is received. -/
theorem uart_tasklet_func_rbr {u u' : Uart} (h : u.uart_tasklet_func = some u') : u'.rbr = u.rbr := by
  rw [Uart.uart_tasklet_func] at h
  cases ht : u.tasklet with
  | idle | sendWrite | wake =>
    simp only [ht] at h
    cases h <;> rfl
  | whileNotEmpty | whileReady | sendReady =>
    simp only [ht] at h
    split_ifs at h <;> cases h <;> rfl
  | out =>
    simp only [ht] at h
    cases hfifo : u.out_fifo with
    | nil =>
      simp only [hfifo] at h
      cases h
      rfl
    | cons data out_fifo =>
      simp only [hfifo] at h
      cases h
      rfl

/-- While nothing is received there is nothing to read. -/
theorem rbr_nil {u u' : Uart} {e : Event} (he : e.receives = false) (hu : u.rbr = [])
    (h : Steps u e u') : u'.rbr = [] := by
  rw [Steps] at h
  cases e with
  | isr =>
    simp only [Uart.step, Uart.uart_isr] at h
    cases hisr : u.isr with
    | idle =>
      simp only [hisr] at h
      cases h
    | ifReady intid =>
      simp only [hisr] at h
      split_ifs at h <;> cases h <;> exact hu
    | whileReady =>
      simp only [hisr, hu] at h
      cases h
      rfl
  | tasklet => exact (uart_tasklet_func_rbr h).trans hu
  | received data => cases he
  | writeBegins | copies | writeEnds | interrupt | starts | transmitted =>
    simp only [Uart.step] at h
    split_ifs at h <;> cases h <;> exact hu

/-- In a run that only sends, every interrupt is heeded. -/
theorem heeded_of_sending {txEmpty : Bool} {es : List Event} (hes : ∀ e ∈ es, e.receives = false) :
    EveryStep Steps (fun v e _ => Heeded v e) (.init txEmpty) es := by
  intro es₁ e es₂ t u heq hr _ _ _ hrx
  have hrbr : t.rbr = [] := by
    apply hr.invariant_of_labels (fun he hu hs => rbr_nil he hu hs) _ rfl
    intro e' hmem
    exact hes e' (by rw [heq]; exact List.mem_append_left _ hmem)
  simp [Uart.rx_ready, hrbr] at hrx

/-- Two bytes are written and the first one goes to the transmitter. -/
def twoBytes : List Event :=
  [.writeBegins, .copies [1, 2], .writeEnds, .starts, .tasklet, .tasklet, .tasklet, .tasklet,
    .tasklet, .tasklet, .tasklet, .tasklet, .tasklet]

/-- A third byte is written. Then the first one is transmitted, and a byte is received before
`uart_isr` decides, which leaves the tasklet to the write. -/
def thirdByte : List Event :=
  twoBytes ++ [.writeBegins, .copies [3], .writeEnds, .transmitted, .interrupt .txEmpty, .received 7]

theorem transmission_driven_third :
    (∃ u, Run Steps (.init false) twoBytes u ∧ (Driven u ∨ Handling u)) ∧
    (∃ v, Run Steps (.init false) thirdByte v ∧ v.isr = .ifReady .txEmpty ∧ v.rx_ready = true) ∧
    ∃ u, Run Steps (.init false) (thirdByte ++ [Event.isr, .isr, .isr]) u ∧ u.in_fifo = [7] ∧
      u.out_fifo = [2, 3] ∧ (Driven u ∨ Handling u) := by
  have hsent : Run Steps (.init false) twoBytes
      ⟨[2], [], false, .idle, .idle, .idle, true, false, [], [1]⟩ := Run.foldlM_iff.mp (by decide)
  have hread : Run Steps (.init false) thirdByte
      ⟨[2, 3], [], true, .idle, .ifReady .txEmpty, .idle, false, false, [7], [1]⟩ :=
    Run.foldlM_iff.mp (by decide)
  have hchecked : (thirdByte ++ [Event.isr, .isr, .isr]).foldlM
      (fun v e => if decide (Heeded v e) then v.step e else none) (.init false) =
        some ⟨[2, 3], [7], true, .idle, .idle, .idle, false, false, [], [1]⟩ := by decide
  obtain ⟨hrun, hheeded⟩ := @Run.of_checked _ _ Steps Uart.step (fun v e => decide (Heeded v e))
    (fun v e _ => Heeded v e) Iff.rfl (fun hok _ => of_decide_eq_true hok) _ _ _ hchecked
  exact ⟨⟨_, hsent, transmission_driven hsent (heeded_of_sending (by decide))⟩, ⟨_, hread, rfl, rfl⟩,
    _, hrun, rfl, rfl, transmission_driven hrun hheeded⟩

/-- A byte is received before `uart_isr` decides, so that the second byte stays where it is. -/
theorem second_byte_waits : ∃ u, Run Steps (.init false)
    (twoBytes ++ [.transmitted, .interrupt .txEmpty, .received 7, .isr, .isr, .isr]) u ∧
      ¬ (Driven u ∨ Handling u) := by
  refine ⟨⟨[2], [7], false, .idle, .idle, .idle, false, false, [], [1]⟩, ?_, by decide⟩
  exact Run.foldlM_iff.mp (by decide)

end YModem.UartAxi
