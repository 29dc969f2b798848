import YModem.UartAxi.Device

/-!
# What the readers of the device get

The bytes from the line go through the receive buffer of the UART and `in_fifo` to the callers of
`uart_read`. `kfifo_in` stores nothing in a full queue, and nobody is told: these bytes are all
that is lost, and a reader does not sleep while there is one for it.
-/

namespace YModem.UartAxi

open YModem.Lib

variable {u u' : Uart} {d d' : Device}

/-- The tasklet does not read. -/
theorem uart_tasklet_func_receives (h : u.uart_tasklet_func = some u') :
    u'.in_fifo = u.in_fifo ∧ u'.rbr = u.rbr ∧ u'.isr = u.isr := by
  unfold Uart.uart_tasklet_func at h
  split at h <;> (try split at h) <;> cases h <;> exact ⟨rfl, rfl, rfl⟩

/-- Only `uart_isr` moves received bytes. -/
theorem step_receives {e : Event} (he : e ≠ .isr) (hr : e.receives = false)
    (h : u.step e = some u') :
    u'.in_fifo = u.in_fifo ∧ u'.rbr = u.rbr ∧ (u.isr = .whileReady → u'.isr = .whileReady) := by
  cases e with
  | isr => exact absurd rfl he
  | received data => cases hr
  | tasklet =>
    obtain ⟨hin, hrbr, hisr⟩ := uart_tasklet_func_receives h
    exact ⟨hin, hrbr, fun hw => hisr.trans hw⟩
  | interrupt intid =>
    simp only [Uart.step] at h
    split_ifs at h with hidle <;> cases h <;>
      exact ⟨rfl, rfl, fun hw => Isr.noConfusion (hidle.1.symm.trans hw)⟩
  | _ =>
    simp only [Uart.step] at h
    split_ifs at h
    cases h
    exact ⟨rfl, rfl, id⟩

theorem le_length_kfifo_in (fifo : List UInt8) (data : UInt8) :
    fifo.length ≤ (kfifo_in fifo data).length := by
  unfold kfifo_in
  split_ifs <;> simp

/-- The driver takes nothing out of `in_fifo`. -/
theorem step_in_fifo_le {e : Event} (h : u.step e = some u') :
    u.in_fifo.length ≤ u'.in_fifo.length := by
  by_cases he : e = .isr
  · subst he
    simp only [Uart.step, Uart.uart_isr] at h
    split at h
    · cases h
    · split_ifs at h <;> cases h <;> exact Nat.le_refl _
    · split at h <;> cases h
      · exact Nat.le_refl _
      · exact le_length_kfifo_in _ _
  · cases hr : e.receives with
    | false => exact Nat.le_of_eq (congrArg List.length (step_receives he hr h).1).symm
    | true =>
      cases e <;> cases hr
      cases h
      exact Nat.le_refl _

/-- What the calls of `uart_read` have copied to their users. -/
def Device.got (d : Device) : List UInt8 := (d.returned.map Return.bytes).flatten

/-- A call that has returned has read a byte, unless it has been asked for none. -/
def Return.Reads : Return → Prop
  | .read count bytes => bytes.length ≤ count ∧ (0 < count → bytes ≠ [])
  | _ => True

/-- A reader that does not wait any more has a byte to read, and one that is asleep has none, or
`uart_isr` is about to wake it. -/
def Device.ReaderOk (d : Device) : Prop :=
  match d.reader with
  | .waits _ _ .asleep => d.uart.in_fifo ≠ [] → d.isrWakes = true
  | .copies _ => d.uart.in_fifo ≠ []
  | .copying count n => n ≤ count ∧ n ≤ d.uart.in_fifo.length ∧ (0 < count → 0 < n)
  | _ => True

theorem ne_nil_of_readable (h : d.readable = true) : d.uart.in_fifo ≠ [] := by
  rintro hnil
  simp [Device.readable, hnil] at h

theorem readable_of_ne_nil (h : d.uart.in_fifo ≠ []) : d.readable = true := by
  simpa [Device.readable] using h

/-- What the steps keep. -/
structure ReadInv (d : Device) : Prop where
  received_eq : d.received = d.taken.map Prod.fst ++ d.uart.rbr
  taken_eq : (d.taken.filter Prod.snd).map Prod.fst = d.got ++ d.uart.in_fifo
  returned : ∀ r ∈ d.returned, r.Reads
  reader : d.ReaderOk
  isr : d.isrWakes = true → d.uart.isr = .whileReady

theorem readInv_init (txEmpty : Bool) : ReadInv (.init txEmpty) where
  received_eq := rfl
  taken_eq := rfl
  returned := by simp [Device.init]
  reader := trivial
  isr := by simp [Device.init]

namespace ReadInv

/-- A call that returns without a byte. -/
theorem return_empty (h : ReadInv d) {r : Return} (hbytes : r.bytes = []) (hreads : r.Reads)
    {reader : Read} (hreader : Device.ReaderOk { d with reader := reader }) :
    ReadInv { d with reader := reader, returned := d.returned ++ [r] } where
  received_eq := h.received_eq
  taken_eq := by simpa [Device.got, hbytes] using h.taken_eq
  returned := by
    rw [List.forall_mem_append, List.forall_mem_singleton]
    exact ⟨h.returned, hreads⟩
  reader := hreader
  isr := h.isr

/-- One access of `uart_read`. -/
theorem uart_read (h : ReadInv d) (hs : d.uart_read = some d') : ReadInv d' := by
  rw [Device.uart_read] at hs
  have hok := h.reader
  cases hr : d.reader with
  | idle =>
    simp only [hr] at hs
    cases hs
  | waits count nonblock w =>
    simp only [hr] at hs
    split at hs
    · next hgo =>
      cases hs
      have hready := Wait.ready_of_goes hgo
      exact { h with reader := ne_nil_of_readable hready }
    · cases hs
      exact h.return_empty (r := .again) rfl trivial trivial
    · next w' hstay =>
      cases hs
      refine { h with reader := ?_ }
      cases w' with
      | asleep =>
        have hnot := Wait.not_ready_of_asleep hstay
        intro hne
        have hready : d.readable = true := readable_of_ne_nil hne
        rw [hnot] at hready
        cases hready
      | _ => trivial
    · cases hs
  | copies count =>
    simp only [hr] at hs
    cases hs
    simp only [Device.ReaderOk, hr] at hok
    have hpos := List.length_pos_iff.mpr hok
    exact { h with
      reader := ⟨Nat.min_le_left .., Nat.min_le_right .., fun hc => Nat.lt_min.mpr ⟨hc, hpos⟩⟩ }
  | copying count n =>
    simp only [hr] at hs
    cases hs
    simp only [Device.ReaderOk, hr] at hok
    obtain ⟨hcount, hlen, hpos⟩ := hok
    refine { h with taken_eq := ?_, returned := ?_, reader := trivial }
    · rw [h.taken_eq]
      simp [Device.got, Return.bytes]
    · rw [List.forall_mem_append, List.forall_mem_singleton]
      refine ⟨h.returned, ?_, fun hc hnil => ?_⟩
      · rw [List.length_take]
        omega
      · have hzero := congrArg List.length hnil
        have hn := hpos hc
        rw [List.length_take, List.length_nil] at hzero
        omega

/-- A wake-up or a signal. -/
theorem wakeReadable (h : ReadInv d) : ReadInv d.wakeReadable := by
  unfold Device.wakeReadable
  split
  · next count nonblock w hr =>
    refine { h with reader := ?_ }
    cases w <;> trivial
  · exact h

/-- Nobody sleeps behind a wake-up. -/
theorem woken (h : ReadInv d) : ReadInv { d.wakeReadable with isrWakes := false } := by
  have hw := h.wakeReadable
  refine { hw with reader := ?_, isr := fun hfalse => Bool.noConfusion hfalse }
  have hok := h.reader
  cases hr : d.reader with
  | waits count nonblock w =>
    simp only [Device.ReaderOk, Device.wakeReadable, hr]
    cases w <;> trivial
  | copies | copying => simpa only [Device.ReaderOk, Device.wakeReadable, hr] using hok
  | idle => simp only [Device.ReaderOk, Device.wakeReadable, hr]

/-- `uart_received` of the next byte: it is stored, or there is no room. -/
theorem uart_received (h : ReadInv d) {data_in : UInt8} {rbr : List UInt8}
    (hisr : d.uart.isr = .whileReady) (hrbr : d.uart.rbr = data_in :: rbr) :
    ReadInv { d with
      uart := { d.uart with rbr := rbr }.uart_received data_in
      isrWakes := true
      taken := d.taken ++ [(data_in, decide (d.uart.in_fifo.length < FIFO_SIZE))] } := by
  have hlen := le_length_kfifo_in d.uart.in_fifo data_in
  refine ⟨?_, ?_, h.returned, ?_, fun _ => hisr⟩
  · rw [h.received_eq, hrbr]
    simp [Uart.uart_received]
  · have htaken := h.taken_eq
    simp only [Uart.uart_received, kfifo_in, Device.got] at htaken ⊢
    by_cases hroom : d.uart.in_fifo.length < FIFO_SIZE
    · simp [hroom, List.filter_append, htaken]
    · simp [hroom, List.filter_append, htaken]
  · have hok := h.reader
    cases hr : d.reader with
    | idle => trivial
    | waits count nonblock w =>
      cases w with
      | asleep => exact fun _ => rfl
      | _ => trivial
    | copies count =>
      simp only [Device.ReaderOk, hr] at hok ⊢
      have hpos := List.length_pos_iff.mpr hok
      exact List.length_pos_iff.mp (Nat.lt_of_lt_of_le hpos hlen)
    | copying count n =>
      simp only [Device.ReaderOk, hr] at hok ⊢
      exact ⟨hok.1, Nat.le_trans hok.2.1 hlen, hok.2.2⟩

/-- What leaves the bytes where they are leaves the readers alone. -/
theorem frame (h : ReadInv d) (hin : u.in_fifo = d.uart.in_fifo) (hrbr : u.rbr = d.uart.rbr)
    (hisr : d.isrWakes = true → u.isr = .whileReady) : ReadInv { d with uart := u } := by
  refine ⟨?_, ?_, h.returned, ?_, hisr⟩
  · rw [h.received_eq, hrbr]
  · rw [h.taken_eq, ← hin]
    rfl
  · have hok := h.reader
    unfold Device.ReaderOk at hok ⊢
    rw [← hin] at hok
    exact hok

/-- One access of `uart_isr`. -/
theorem uart_isr (h : ReadInv d) (hs : d.uart_isr = some d') : ReadInv d' := by
  rw [Device.uart_isr] at hs
  split_ifs at hs with hwakes
  · cases hs
    exact h.woken
  · obtain ⟨u, hu, hs⟩ := Option.bind_eq_some_iff.mp hs
    simp only [Uart.step, Uart.uart_isr] at hu
    cases hisr : d.uart.isr with
    | idle =>
      simp only [hisr] at hu
      cases hu
    | ifReady intid =>
      simp only [hisr] at hu hs
      have hframe {v : Uart} (hin : v.in_fifo = d.uart.in_fifo) (hrbr : v.rbr = d.uart.rbr) :
          ReadInv { d with uart := v } :=
        h.frame hin hrbr fun hw => absurd hw hwakes
      cases hs
      split_ifs at hu <;> cases hu <;> exact hframe rfl rfl
    | whileReady =>
      cases hrbr : d.uart.rbr with
      | nil =>
        simp only [hisr, hrbr] at hu hs
        cases hs
        cases hu
        exact h.frame rfl hrbr.symm fun hw => absurd hw hwakes
      | cons data_in rbr =>
        simp only [hisr, hrbr] at hu hs
        cases hs
        cases hu
        have hstored := h.uart_received hisr hrbr
        simp only [Uart.uart_received, hisr] at hstored ⊢
        exact hstored

/-- The step: the callers, `uart_isr`, and everything else. -/
theorem step (h : ReadInv d) {e : DeviceEvent} (hs : DeviceStep d e d') : ReadInv d' := by
  have hframe {e : Event} {u : Uart} (he : e ≠ .isr) (hr : e.receives = false)
      (hu : d.uart.step e = some u) : ReadInv { d with uart := u } := by
    obtain ⟨hin, hrbr, hisr⟩ := step_receives he hr hu
    exact h.frame hin hrbr fun hw => hisr (h.isr hw)
  unfold DeviceStep at hs
  cases e with
  | readBegins count nonblock =>
    simp only [Device.step] at hs
    split_ifs at hs
    cases hs
    exact { h with reader := trivial }
  | writeBegins nonblock =>
    simp only [Device.step] at hs
    split_ifs at hs
    cases hs
    exact { h with }
  | read => exact h.uart_read hs
  | write =>
    simp only [Device.step, Device.uart_write] at hs
    split at hs
    · cases hs
    · split at hs
      · obtain ⟨u, hu, hs⟩ := Option.bind_eq_some_iff.mp hs
        cases hs
        exact { hframe (by simp) rfl hu with }
      · cases hs
        exact { h.return_empty (r := .again) rfl trivial h.reader with }
      · cases hs
        exact { h with }
      · cases hs
  | readSignal =>
    cases hs
    exact h.wakeReadable
  | writeSignal =>
    cases hs
    exact { h with }
  | readInterrupted =>
    simp only [Device.step] at hs
    split at hs
    · split_ifs at hs
      cases hs
      exact h.return_empty (r := .interrupted) rfl trivial trivial
    · cases hs
  | writeInterrupted =>
    simp only [Device.step] at hs
    split at hs
    · split_ifs at hs
      cases hs
      exact { h.return_empty (r := .interrupted) rfl trivial h.reader with }
    · cases hs
  | uart e =>
    cases e with
    | writeBegins => cases hs
    | isr => exact h.uart_isr hs
    | tasklet =>
      simp only [Device.step, Device.uart_tasklet_func] at hs
      obtain ⟨u, hu, hs⟩ := Option.bind_eq_some_iff.mp hs
      have hnext := hframe (by simp) rfl hu
      split at hs
      · cases hs
        exact { hnext with }
      · cases hs
        split_ifs
        · exact { hnext with }
        · exact hnext
      · cases hs
        exact hnext
    | copies bytes =>
      obtain ⟨u, hu, hs⟩ := Option.bind_eq_some_iff.mp hs
      cases hs
      exact { hframe (by simp) rfl hu with }
    | received data =>
      cases hs
      have hreceived : d.received ++ [data] = d.taken.map Prod.fst ++ (d.uart.rbr ++ [data]) := by
        rw [h.received_eq, List.append_assoc]
      exact { h with received_eq := hreceived }
    | _ =>
      obtain ⟨u, hu, hs⟩ := Option.bind_eq_some_iff.mp hs
      cases hs
      exact hframe (by simp) rfl hu

end ReadInv

/-- The run, by the step. -/
theorem readInv_of_run {txEmpty : Bool} {es : List DeviceEvent}
    (h : Run DeviceStep (.init txEmpty) es d) : ReadInv d :=
  h.invariant (fun hi hs => hi.step hs) (readInv_init txEmpty)

/-- The most accesses that a call of `uart_read` still makes when there is a byte. -/
def Read.left : Read → Nat
  | .idle => 0
  | .waits _ _ .checks | .waits _ _ (.queued _) => 3
  | .waits _ _ .prepares | .waits _ _ .asleep => 4
  | .copies _ => 2
  | .copying _ _ => 1

def DeviceEvent.beginsRead : DeviceEvent → Bool
  | .readBegins _ _ => true
  | _ => false

/-- A step of anybody else leaves the reader where it is, or wakes it. -/
theorem step_others {e : DeviceEvent} (hs : DeviceStep d e d') (he : e ≠ .read)
    (hbegins : e.beginsRead = false) (hint : e ≠ .readInterrupted) :
    (d'.reader = d.reader ∨ d'.reader = d.wakeReadable.reader) ∧
      d.uart.in_fifo.length ≤ d'.uart.in_fifo.length := by
  have hkept {e : Event} {u : Uart} (hu : d.uart.step e = some u) :
      (d.reader = d.reader ∨ d.reader = d.wakeReadable.reader) ∧
        d.uart.in_fifo.length ≤ u.in_fifo.length := ⟨.inl rfl, step_in_fifo_le hu⟩
  have hfifo : d.wakeReadable.uart = d.uart := by
    unfold Device.wakeReadable
    split <;> rfl
  unfold DeviceStep at hs
  cases e with
  | readBegins => cases hbegins
  | read => exact absurd rfl he
  | readInterrupted => exact absurd rfl hint
  | writeBegins nonblock =>
    simp only [Device.step] at hs
    split_ifs at hs
    cases hs
    exact ⟨.inl rfl, Nat.le_refl _⟩
  | write =>
    simp only [Device.step, Device.uart_write] at hs
    split at hs
    · cases hs
    · split at hs
      · obtain ⟨u, hu, hs⟩ := Option.bind_eq_some_iff.mp hs
        cases hs
        exact hkept hu
      · cases hs
        exact ⟨.inl rfl, Nat.le_refl _⟩
      · cases hs
        exact ⟨.inl rfl, Nat.le_refl _⟩
      · cases hs
  | readSignal =>
    cases hs
    exact ⟨.inr rfl, Nat.le_of_eq (congrArg (·.in_fifo.length) hfifo.symm)⟩
  | writeSignal =>
    cases hs
    exact ⟨.inl rfl, Nat.le_refl _⟩
  | writeInterrupted =>
    simp only [Device.step] at hs
    split at hs
    · split_ifs at hs
      cases hs
      exact ⟨.inl rfl, Nat.le_refl _⟩
    · cases hs
  | uart e =>
    cases e with
    | writeBegins => cases hs
    | isr =>
      simp only [Device.step, Device.uart_isr] at hs
      split_ifs at hs
      · cases hs
        exact ⟨.inr rfl, Nat.le_of_eq (congrArg (·.in_fifo.length) hfifo.symm)⟩
      · obtain ⟨u, hu, hs⟩ := Option.bind_eq_some_iff.mp hs
        split at hs <;> cases hs <;> exact hkept hu
    | tasklet =>
      simp only [Device.step, Device.uart_tasklet_func] at hs
      obtain ⟨u, hu, hs⟩ := Option.bind_eq_some_iff.mp hs
      split at hs
      · cases hs
        exact hkept hu
      · cases hs
        split_ifs <;> exact hkept hu
      · cases hs
        exact hkept hu
    | received data =>
      cases hs
      exact ⟨.inl rfl, Nat.le_refl _⟩
    | _ =>
      obtain ⟨u, hu, hs⟩ := Option.bind_eq_some_iff.mp hs
      cases hs
      exact hkept hu

theorem in_fifo_le {e : DeviceEvent} (hs : DeviceStep d e d') (he : e ≠ .read) :
    d.uart.in_fifo.length ≤ d'.uart.in_fifo.length := by
  cases e with
  | readBegins count nonblock =>
    simp only [DeviceStep, Device.step] at hs
    split_ifs at hs
    cases hs
    exact Nat.le_refl _
  | readInterrupted =>
    simp only [DeviceStep, Device.step] at hs
    split at hs
    · split_ifs at hs
      cases hs
      exact Nat.le_refl _
    · cases hs
  | read => exact absurd rfl he
  | _ => exact (step_others hs (by simp) rfl (by simp)).2

/-- What `uart_poll` reports for reading stays true until somebody reads. -/
theorem uart_poll_stable {es : List DeviceEvent} (h : Run DeviceStep d es d')
    (hes : ∀ e ∈ es, e ≠ .read) (hp : d.uart_poll.1 = true) : d'.uart_poll.1 = true := by
  have hstep {s t : Device} {e : DeviceEvent} (he : e ≠ .read) (hp : s.uart_poll.1 = true)
      (hs : DeviceStep s e t) : t.uart_poll.1 = true := by
    have hpos := List.length_pos_iff.mpr (ne_nil_of_readable hp)
    exact readable_of_ne_nil (List.length_pos_iff.mp (Nat.lt_of_lt_of_le hpos (in_fifo_le hs he)))
  exact h.invariant_of_labels (I := fun s => s.uart_poll.1 = true) hstep hes hp

/-- While there is a byte, no step but the return of `uart_read` takes the last one, and none sends
the reader further back. -/
theorem step_left {e : DeviceEvent} (hs : DeviceStep d e d') (he : e.beginsRead = false)
    (hne : d.reader = .idle ∨ d.uart.in_fifo ≠ []) :
    (if e = .read then 1 else 0) + d'.reader.left ≤ d.reader.left ∧
      (d'.reader = .idle ∨ d'.uart.in_fifo ≠ []) := by
  by_cases hread : e = .read
  · subst hread
    rw [if_pos rfl]
    simp only [DeviceStep, Device.step, Device.uart_read] at hs
    cases hr : d.reader with
    | idle =>
      simp only [hr] at hs
      cases hs
    | waits count nonblock w =>
      have hsome : d.uart.in_fifo ≠ [] := hne.resolve_left (by simp [hr])
      have hready := readable_of_ne_nil hsome
      cases w with
      | checks | queued | prepares =>
        simp only [hr, Wait.look, hready, reduceIte] at hs
        cases hs
        exact ⟨Nat.le_refl _, .inr hsome⟩
      | asleep =>
        simp only [hr, Wait.look] at hs
        cases hs
    | copies count =>
      simp only [hr] at hs
      cases hs
      exact ⟨Nat.le_refl _, .inr (hne.resolve_left (by simp [hr]))⟩
    | copying count n =>
      simp only [hr] at hs
      cases hs
      exact ⟨Nat.le_refl _, .inl rfl⟩
  · rw [if_neg hread, Nat.zero_add]
    by_cases hint : e = .readInterrupted
    · subst hint
      simp only [DeviceStep, Device.step] at hs
      split at hs
      · next hr =>
        have hready := readable_of_ne_nil (hne.resolve_left (by simp [hr]))
        simp only [hready, reduceIte] at hs
        cases hs
      · cases hs
    · obtain ⟨hreader, hlen⟩ := step_others hs hread he hint
      have hwake : d.wakeReadable.reader.left = d.reader.left ∧
          (d.reader = .idle → d.wakeReadable.reader = .idle) := by
        unfold Device.wakeReadable
        split
        · next w hr =>
          refine ⟨?_, fun hidle => Read.noConfusion (hr.symm.trans hidle)⟩
          rw [hr]
          cases w <;> rfl
        · exact ⟨rfl, id⟩
      have hsome (hd : d.uart.in_fifo ≠ []) : d'.uart.in_fifo ≠ [] :=
        List.length_pos_iff.mp (Nat.lt_of_lt_of_le (List.length_pos_iff.mpr hd) hlen)
      rcases hreader with heq | heq <;> rw [heq]
      · exact ⟨Nat.le_refl _, hne.imp id hsome⟩
      · exact ⟨Nat.le_of_eq hwake.1, hne.imp hwake.2 hsome⟩

theorem run_left {es : List DeviceEvent} (h : Run DeviceStep d es d')
    (hes : ∀ e ∈ es, e.beginsRead = false) (hne : d.reader = .idle ∨ d.uart.in_fifo ≠ []) :
    es.count .read + d'.reader.left ≤ d.reader.left ∧
      (d'.reader = .idle ∨ d'.uart.in_fifo ≠ []) := by
  induction h with
  | refl => exact ⟨Nat.le_of_eq (Nat.zero_add _), hne⟩
  | @tail t u es e hr hs ih =>
    obtain ⟨hle, hmid⟩ := ih fun e he => hes e (by simp [he])
    obtain ⟨hstep, hend⟩ := step_left hs (hes e (by simp)) hmid
    refine ⟨?_, hend⟩
    rw [List.count_append, List.count_singleton]
    simp only [beq_iff_eq] at *
    omega

/-- From the moment when there is a byte, a call of `uart_read` returns after at most four more of
its accesses, whatever else happens: it can always make the next one, unless it is asleep and
`uart_isr` is about to wake it. -/
theorem reader_served {txEmpty : Bool} {es fs : List DeviceEvent}
    (h : Run DeviceStep (.init txEmpty) es d) (hne : d.uart.in_fifo ≠ [])
    (hrest : Run DeviceStep d fs d') (hfs : ∀ e ∈ fs, e.beginsRead = false) :
    fs.count .read + d'.reader.left ≤ 4 ∧
      (d'.reader ≠ .idle → (d'.step .read).isSome ∨
        ∃ t, DeviceStep d' (.uart .isr) t ∧ (t.step .read).isSome) := by
  have hinv := readInv_of_run (h.append hrest)
  obtain ⟨hle, hend⟩ := run_left hrest hfs (.inr hne)
  have hfour : d.reader.left ≤ 4 := by
    cases d.reader with
    | waits count nonblock w => cases w <;> simp [Read.left]
    | _ => simp [Read.left]
  refine ⟨Nat.le_trans hle hfour, fun hbusy => ?_⟩
  have hsome := hend.resolve_left hbusy
  have hready := readable_of_ne_nil hsome
  have hok := hinv.reader
  cases hr : d'.reader with
  | idle => exact absurd hr hbusy
  | waits count nonblock w =>
    cases w with
    | asleep =>
      simp only [Device.ReaderOk, hr] at hok
      have hwakes := hok hsome
      refine .inr ⟨{ d'.wakeReadable with isrWakes := false }, ?_, ?_⟩
      · simp only [DeviceStep, Device.step, Device.uart_isr, hwakes, reduceIte]
      · simp only [Device.step, Device.uart_read, Device.wakeReadable, hr, Wait.wake, Wait.look]
        rfl
    | checks | queued | prepares =>
      left
      simp only [Device.step, Device.uart_read, hr, Wait.look, hready, reduceIte]
      rfl
  | copies | copying =>
    left
    simp only [Device.step, Device.uart_read, hr]
    rfl

/-! ## A reader that sleeps before the byte arrives -/

/-- The reader falls asleep, a byte arrives, and `uart_isr` stores it. -/
def byteArrives : List DeviceEvent :=
  [.readBegins 4 false, .read, .read, .read, .uart (.received 7), .uart (.interrupt .rxData),
    .uart .isr, .uart .isr]

/-- It wakes the reader, who reads the byte. -/
def byteRead : List DeviceEvent := [.uart .isr, .read, .read, .read, .read]

theorem reader_served_byte : ∃ d d', Run DeviceStep (.init false) byteArrives d ∧
    Run DeviceStep d byteRead d' ∧ byteRead.count .read + d'.reader.left ≤ 4 ∧
      (d'.reader ≠ .idle → (d'.step .read).isSome ∨
        ∃ t, DeviceStep d' (.uart .isr) t ∧ (t.step .read).isSome) := by
  have hrun : ∃ d d', Run DeviceStep (.init false) byteArrives d ∧ d.uart.in_fifo = [7] ∧
      Run DeviceStep d byteRead d' :=
    ⟨_, _, Run.foldlM_iff.mp rfl, rfl, Run.foldlM_iff.mp rfl⟩
  obtain ⟨d, d', hrun, hfifo, hrest⟩ := hrun
  exact ⟨d, d', hrun, hrest, reader_served hrun (by simp [hfifo]) hrest (by decide)⟩

end YModem.UartAxi
