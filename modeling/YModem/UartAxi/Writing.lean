import YModem.UartAxi.Device

/-!
# What the callers of `uart_write` get on the line

Whatever the interrupts and the transmitter do, what is written to the holding register are the
bytes that `uart_write` has stored, in their order. `uart_send` writes each of them as long as the
transmitter is ready, which is at least once: the tasklet has found it ready, and it stays so until
the register is written. A caller for whom there is no room is woken by the tasklet that makes room.
-/

namespace YModem.UartAxi

open YModem.Lib

variable {u u' : Uart} {d d' : Device}

/-! ## Bytes that are sent more than once -/

/-- `thr` holds the items of a list in their order, each one at least once. -/
inductive Repeated {α : Type} : List α → List α → Prop where
  | nil : Repeated [] []
  | next {bytes thr : List α} {data : α} (h : Repeated bytes thr) :
      Repeated (bytes ++ [data]) (thr ++ [data])
  | again {bytes thr : List α} {data : α} (h : Repeated (bytes ++ [data]) thr) :
      Repeated (bytes ++ [data]) (thr ++ [data])

/-- The number of times of each item. -/
theorem Repeated.counts {α : Type} {bytes thr : List α} (h : Repeated bytes thr) :
    ∃ counts : List Nat, counts.length = bytes.length ∧ (∀ n ∈ counts, 0 < n) ∧
      thr = (List.zipWith List.replicate counts bytes).flatten := by
  induction h with
  | nil => exact ⟨[], rfl, nofun, rfl⟩
  | @next bytes thr data h ih =>
    obtain ⟨counts, hlen, hpos, hthr⟩ := ih
    refine ⟨counts ++ [1], by simp [hlen], ?_, ?_⟩
    · intro n hn
      rcases List.mem_append.mp hn with hn | hn
      · exact hpos n hn
      · rw [List.mem_singleton.mp hn]
        exact Nat.one_pos
    · rw [List.zipWith_append hlen, hthr]
      simp
  | @again bytes thr data h ih =>
    obtain ⟨counts, hlen, hpos, hthr⟩ := ih
    have hne : counts ≠ [] := List.length_pos_iff.mp (by simp [hlen])
    obtain ⟨init, n, rfl⟩ : ∃ init n, counts = init ++ [n] :=
      ⟨_, _, (List.dropLast_concat_getLast hne).symm⟩
    have hinit : init.length = bytes.length := by simpa using hlen
    refine ⟨init ++ [n + 1], by simp [hinit], ?_, ?_⟩
    · intro k hk
      rcases List.mem_append.mp hk with hk | hk
      · exact hpos k (List.mem_append_left _ hk)
      · rw [List.mem_singleton.mp hk]
        exact Nat.succ_pos n
    · rw [hthr, List.zipWith_append hinit, List.zipWith_append hinit]
      simp [List.replicate_succ']

/-- The byte in `uart_send`. -/
def Tasklet.held : Tasklet → Option UInt8
  | .sendReady data | .sendWrite data => some data
  | _ => none

/-- What has been written of the bytes that `kfifo_out` has given. -/
inductive Sent (dequeued thr : List UInt8) (t : Tasklet) (ready : Bool) : Prop where
  /-- Each of them, the one in `uart_send` included. -/
  | written (h : Repeated dequeued thr)
      (hheld : ∀ data, t.held = some data → ∃ init, dequeued = init ++ [data])
  /-- The one in `uart_send` has not been written yet, and the transmitter is ready for it. -/
  | inHand {init : List UInt8} {data : UInt8} (hdequeued : dequeued = init ++ [data])
      (h : Repeated init thr) (hheld : t.held = some data) (hready : ready = true)

section Sent

variable {dequeued thr : List UInt8} {t t' : Tasklet} {ready ready' : Bool}

/-- Between two calls of `uart_send`. -/
theorem Sent.repeated (h : Sent dequeued thr t ready) (ht : t.held = none) :
    Repeated dequeued thr := by
  cases h with
  | written h _ => exact h
  | inHand _ _ hheld _ => cases ht.symm.trans hheld

theorem Sent.of_repeated (h : Repeated dequeued thr) (ht : t.held = none) :
    Sent dequeued thr t ready :=
  .written h fun _ hd => by cases ht.symm.trans hd

/-- The tasklet goes on in the same call, and the transmitter does not become busy. -/
theorem Sent.same (h : Sent dequeued thr t ready) (ht : t'.held = t.held)
    (hready : ready = true → ready' = true) : Sent dequeued thr t' ready' := by
  cases h with
  | written h hheld => exact .written h fun data hd => hheld data (ht.symm.trans hd)
  | inHand hdequeued h hheld hr => exact .inHand hdequeued h (ht.trans hheld) (hready hr)

/-- `uart_send` returns, for it has found the transmitter busy. -/
theorem Sent.returns (h : Sent dequeued thr t ready) (hbusy : ready = false)
    (ht : t'.held = none) : Sent dequeued thr t' ready := by
  cases h with
  | written h _ => exact .of_repeated h ht
  | inHand _ _ _ hr => cases hbusy.symm.trans hr

/-- `uart_send` writes its byte. -/
theorem Sent.writes {data : UInt8} (h : Sent dequeued thr (.sendWrite data) ready) :
    Sent dequeued (thr ++ [data]) (.sendReady data) ready' := by
  cases h with
  | written h hheld =>
    obtain ⟨init, rfl⟩ := hheld data rfl
    exact .written h.again hheld
  | inHand hdequeued h hheld _ =>
    cases hheld
    rw [hdequeued]
    refine .written h.next fun data' hd => ?_
    cases hd
    exact ⟨_, rfl⟩

end Sent

/-- What the steps keep. A writer that is asleep when no tasklet runs has no room: the tasklet
does not end without a wake-up when it has made some. -/
structure WriteInv (d : Device) : Prop where
  stored_eq : d.stored = d.dequeued ++ d.uart.out_fifo
  sent : Sent d.dequeued d.uart.thr d.uart.tasklet d.uart.tx_ready
  ready : d.uart.tasklet = .out → d.uart.tx_ready = true
  room : d.uart.out_fifo.length ≤ FIFO_SIZE
  lock : d.writer ≠ none → d.uart.write = .idle
  writer : ∀ nonblock, d.writer = some (nonblock, .asleep) → d.uart.tasklet = .idle →
    d.uart.out_fifo.length = FIFO_SIZE

theorem writeInv_init (txEmpty : Bool) : WriteInv (.init txEmpty) where
  stored_eq := rfl
  sent := .of_repeated .nil rfl
  ready := fun h => by cases h
  room := Nat.zero_le _
  lock := fun h => absurd rfl h
  writer := fun nonblock h => by cases h

/-- Only the tasklet takes bytes out of `out_fifo` and makes the transmitter busy, and only
`uart_write` stores some. -/
theorem step_transmits {e : Event} (he : e ≠ .tasklet) (hcopies : ∀ bytes, e ≠ .copies bytes)
    (h : u.step e = some u') :
    u'.out_fifo = u.out_fifo ∧ u'.thr = u.thr ∧
      (u'.tasklet = u.tasklet ∨ u.tasklet = .idle ∧ u'.tasklet = .whileNotEmpty) ∧
      (u.tx_ready = true → u'.tx_ready = true) ∧
      (e ≠ .writeBegins → u.write = .idle → u'.write = .idle) := by
  cases e with
  | tasklet => exact absurd rfl he
  | copies bytes => exact absurd rfl (hcopies bytes)
  | isr =>
    simp only [Uart.step, Uart.uart_isr] at h
    split at h
    · cases h
    · split_ifs at h <;> cases h <;> exact ⟨rfl, rfl, .inl rfl, id, fun _ => id⟩
    · split at h <;> cases h <;> exact ⟨rfl, rfl, .inl rfl, id, fun _ => id⟩
  | writeBegins =>
    simp only [Uart.step] at h
    split_ifs at h
    cases h
    exact ⟨rfl, rfl, .inl rfl, id, fun hb => absurd rfl hb⟩
  | writeEnds =>
    simp only [Uart.step] at h
    split_ifs at h
    cases h
    exact ⟨rfl, rfl, .inl rfl, id, fun _ _ => rfl⟩
  | starts =>
    simp only [Uart.step] at h
    split_ifs at h with hidle
    cases h
    exact ⟨rfl, rfl, .inr ⟨hidle.2, rfl⟩, id, fun _ => id⟩
  | received data =>
    cases h
    exact ⟨rfl, rfl, .inl rfl, id, fun _ => id⟩
  | interrupt =>
    simp only [Uart.step] at h
    split_ifs at h <;> cases h <;> exact ⟨rfl, rfl, .inl rfl, id, fun _ => id⟩
  | transmitted =>
    simp only [Uart.step] at h
    split_ifs at h
    cases h
    exact ⟨rfl, rfl, .inl rfl, fun _ => rfl, fun _ => id⟩

theorem wakeWriteable_ne_asleep (nonblock : Bool) :
    d.wakeWriteable.writer ≠ some (nonblock, .asleep) := by
  intro hw
  obtain ⟨w, -, heq⟩ := Option.map_eq_some_iff.mp hw
  exact Wait.wake_ne_asleep w.2 (congrArg Prod.snd heq)

namespace WriteInv

/-- A step that leaves `out_fifo` and what is sent alone. -/
theorem frame (h : WriteInv d) (hout : u.out_fifo = d.uart.out_fifo) (hthr : u.thr = d.uart.thr)
    (htasklet : u.tasklet = d.uart.tasklet ∨ d.uart.tasklet = .idle ∧ u.tasklet = .whileNotEmpty)
    (hready : d.uart.tx_ready = true → u.tx_ready = true)
    (hwrite : d.uart.write = .idle → u.write = .idle) : WriteInv { d with uart := u } := by
  refine ⟨?_, ?_, ?_, ?_, fun hw => hwrite (h.lock hw), ?_⟩
  · rw [h.stored_eq, hout]
  · rw [hthr]
    rcases htasklet with heq | ⟨hidle, heq⟩ <;> rw [heq]
    · exact h.sent.same rfl hready
    · exact .of_repeated (h.sent.repeated (by rw [hidle]; rfl)) rfl
  · intro hu
    rcases htasklet with heq | ⟨-, heq⟩
    · exact hready (h.ready (heq.symm.trans hu))
    · cases heq.symm.trans hu
  · rw [hout]
    exact h.room
  · intro nonblock hw hidle
    rw [hout]
    rcases htasklet with heq | ⟨-, heq⟩
    · exact h.writer nonblock hw (heq.symm.trans hidle)
    · cases heq.symm.trans hidle

/-- A caller that is not asleep. -/
theorem awake (h : WriteInv d) {writer : Option (Bool × Wait)}
    (hlock : writer ≠ none → d.uart.write = .idle)
    (hawake : ∀ nonblock, writer ≠ some (nonblock, .asleep)) :
    WriteInv { d with writer := writer } :=
  { h with lock := hlock, writer := fun nonblock hw => absurd hw (hawake nonblock) }

/-- A wake-up or a signal. -/
theorem wakeWriteable (h : WriteInv d) : WriteInv d.wakeWriteable :=
  h.awake (fun hw => h.lock fun hnone => hw (by rw [hnone]; rfl)) wakeWriteable_ne_asleep

/-- The tasklet goes on. -/
theorem goesOn (h : WriteInv d) {t : Tasklet} (ht : t ≠ .idle)
    (hsent : Sent d.dequeued d.uart.thr t d.uart.tx_ready)
    (hready : t = .out → d.uart.tx_ready = true) :
    WriteInv { d with uart := { d.uart with tasklet := t } } :=
  { h with
    sent := hsent
    ready := hready
    writer := fun _ _ hidle => absurd hidle ht }

/-- `kfifo_out`, which leaves `uart_send` with a byte and the transmitter ready. -/
theorem dequeues (h : WriteInv d) {data : UInt8} {out_fifo : List UInt8}
    (ht : d.uart.tasklet = .out) (hout : d.uart.out_fifo = data :: out_fifo) :
    WriteInv { d with
      uart := { d.uart with out_fifo := out_fifo, tasklet := .sendReady data }
      dequeued := d.dequeued ++ [data] } := by
  have hroom := h.room
  rw [hout, List.length_cons] at hroom
  have hrepeated := h.sent.repeated (by rw [ht]; rfl)
  refine ⟨?_, .inHand rfl hrepeated rfl (h.ready ht), nofun, Nat.le_of_succ_le hroom, h.lock, nofun⟩
  rw [h.stored_eq, hout, List.append_assoc]
  rfl

/-- `iowrite32` in `uart_send`. -/
theorem sends (h : WriteInv d) {data : UInt8} (ht : d.uart.tasklet = .sendWrite data) :
    WriteInv { d with uart := { d.uart with
      thr := d.uart.thr ++ [data], busy := true, tasklet := .sendReady data } } := by
  have hsent := h.sent
  rw [ht] at hsent
  exact { h with sent := hsent.writes, ready := nofun, writer := nofun }

/-- The end of the tasklet: with room, it wakes the writer. -/
theorem ends (h : WriteInv d) (ht : d.uart.tasklet = .wake) :
    WriteInv (if d.writeable then
      Device.wakeWriteable { d with uart := { d.uart with tasklet := .idle } }
    else { d with uart := { d.uart with tasklet := .idle } }) := by
  have hsent : Sent d.dequeued d.uart.thr .idle d.uart.tx_ready :=
    .of_repeated (h.sent.repeated (by rw [ht]; rfl)) rfl
  split_ifs with hroom
  · exact { h.wakeWriteable with
      sent := hsent
      ready := nofun
      writer := fun nonblock hw _ => absurd hw (wakeWriteable_ne_asleep nonblock) }
  · have hfull : d.uart.out_fifo.length = FIFO_SIZE := by
      have hle := h.room
      have hnot : ¬ d.uart.out_fifo.length < FIFO_SIZE := by simpa [Device.writeable] using hroom
      omega
    exact { h with sent := hsent, ready := nofun, writer := fun _ _ _ => hfull }

/-- One access of the tasklet. -/
theorem uart_tasklet_func (h : WriteInv d) (hs : d.uart_tasklet_func = some d') : WriteInv d' := by
  rw [Device.uart_tasklet_func] at hs
  obtain ⟨u, hu, hs⟩ := Option.bind_eq_some_iff.mp hs
  simp only [Uart.step, Uart.uart_tasklet_func] at hu
  cases ht : d.uart.tasklet with
  | idle =>
    simp only [ht] at hu
    cases hu
  | whileNotEmpty =>
    have hrepeated := h.sent.repeated (by rw [ht]; rfl)
    simp only [ht] at hu hs
    cases hs
    split_ifs at hu
    all_goals
      cases hu
      exact h.goesOn (by simp) (.of_repeated hrepeated rfl) (by simp)
  | whileReady =>
    have hrepeated := h.sent.repeated (by rw [ht]; rfl)
    simp only [ht] at hu hs
    cases hs
    split_ifs at hu with hready
    · cases hu
      exact h.goesOn (by simp) (.of_repeated hrepeated rfl) fun _ => hready
    · cases hu
      exact h.goesOn (by simp) (.of_repeated hrepeated rfl) (by simp)
  | out =>
    have hrepeated := h.sent.repeated (by rw [ht]; rfl)
    cases hout : d.uart.out_fifo with
    | nil =>
      simp only [ht, hout] at hu hs
      cases hs
      cases hu
      have hgo := @goesOn d h .whileNotEmpty (by simp) (.of_repeated hrepeated rfl) (by simp)
      simp only [hout] at hgo ⊢
      exact hgo
    | cons data out_fifo =>
      simp only [ht, hout] at hu hs
      cases hs
      cases hu
      exact h.dequeues ht hout
  | sendReady data =>
    have hsent := h.sent
    rw [ht] at hsent
    simp only [ht] at hu hs
    cases hs
    split_ifs at hu with hready
    · cases hu
      exact h.goesOn (by simp) (hsent.same rfl id) (by simp)
    · cases hu
      exact h.goesOn (by simp) (hsent.returns (Bool.eq_false_iff.mpr hready) rfl) (by simp)
  | sendWrite data =>
    simp only [ht] at hu hs
    cases hs
    cases hu
    exact h.sends ht
  | wake =>
    simp only [ht] at hu hs
    cases hs
    cases hu
    exact h.ends ht

theorem wakeReadable (h : WriteInv d) : WriteInv d.wakeReadable := by
  unfold Device.wakeReadable
  split
  · exact { h with }
  · exact h

/-- `kfifo_from_user`, with the lock that keeps every other writer out. -/
theorem copies (h : WriteInv d) {bytes : List UInt8} (hlocked : d.uart.write = .locked)
    (hroom : d.uart.out_fifo.length + bytes.length ≤ FIFO_SIZE) :
    WriteInv { d with
      uart := { d.uart with out_fifo := d.uart.out_fifo ++ bytes, write := .copied }
      stored := d.stored ++ bytes } := by
  have hnone : d.writer = none := by
    by_contra hsome
    cases hlocked.symm.trans (h.lock hsome)
  refine { h with stored_eq := ?_, room := ?_, lock := ?_, writer := ?_ }
  · rw [h.stored_eq, List.append_assoc]
  · rw [List.length_append]
    exact hroom
  · exact fun hsome => absurd hnone hsome
  · exact fun nonblock hsome => by cases hnone.symm.trans hsome

/-- One access of `uart_write` before `kfifo_from_user`. -/
theorem uart_write (h : WriteInv d) (hs : d.uart_write = some d') : WriteInv d' := by
  rw [Device.uart_write] at hs
  cases hw : d.writer with
  | none =>
    simp only [hw] at hs
    cases hs
  | some caller =>
    obtain ⟨nonblock, w⟩ := caller
    have hidle : d.uart.write = .idle := h.lock (by simp [hw])
    simp only [hw] at hs
    split at hs
    · obtain ⟨u, hu, hs⟩ := Option.bind_eq_some_iff.mp hs
      cases hs
      simp only [Uart.step] at hu
      split_ifs at hu
      cases hu
      exact { h with lock := fun hne => absurd rfl hne, writer := fun _ hno => by cases hno }
    · cases hs
      exact { h with lock := fun hne => absurd rfl hne, writer := fun _ hno => by cases hno }
    · next w' hstay =>
      cases hs
      refine { h with lock := fun _ => hidle, writer := fun nonblock' hsome _ => ?_ }
      cases hsome
      have hnot := Wait.not_ready_of_asleep hstay
      have hfull : ¬ d.uart.out_fifo.length < FIFO_SIZE := by simpa [Device.writeable] using hnot
      have hle := h.room
      dsimp only
      omega
    · cases hs

/-- The step: the writer, the tasklet, and everything else. -/
theorem step (h : WriteInv d) {e : DeviceEvent} (hs : DeviceStep d e d') : WriteInv d' := by
  have hframe {e : Event} {u : Uart} (he : e ≠ .tasklet) (hc : ∀ bytes, e ≠ .copies bytes)
      (hb : e ≠ .writeBegins) (hu : d.uart.step e = some u) : WriteInv { d with uart := u } := by
    obtain ⟨hout, hthr, htasklet, hready, hwrite⟩ := step_transmits he hc hu
    exact h.frame hout hthr htasklet hready (hwrite hb)
  unfold DeviceStep at hs
  cases e with
  | readBegins count nonblock =>
    simp only [Device.step] at hs
    split_ifs at hs
    cases hs
    exact { h with }
  | writeBegins nonblock =>
    simp only [Device.step] at hs
    split_ifs at hs with hfree
    cases hs
    exact h.awake (fun _ => hfree.2) fun nonblock' hsome => by cases hsome
  | read =>
    simp only [Device.step, Device.uart_read] at hs
    split at hs
    · cases hs
    · split at hs <;> cases hs <;> exact { h with }
    · cases hs
      exact { h with }
    · cases hs
      exact { h with }
  | write => exact h.uart_write hs
  | readSignal =>
    cases hs
    exact h.wakeReadable
  | writeSignal =>
    cases hs
    exact h.wakeWriteable
  | readInterrupted =>
    simp only [Device.step] at hs
    split at hs
    · split_ifs at hs
      cases hs
      exact { h with }
    · cases hs
  | writeInterrupted =>
    simp only [Device.step] at hs
    split at hs
    · split_ifs at hs
      cases hs
      exact { h with lock := fun hne => absurd rfl hne, writer := fun _ hno => by cases hno }
    · cases hs
  | uart e =>
    cases e with
    | writeBegins => cases hs
    | isr =>
      simp only [Device.step, Device.uart_isr] at hs
      split_ifs at hs
      · cases hs
        exact { h.wakeReadable with }
      · obtain ⟨u, hu, hs⟩ := Option.bind_eq_some_iff.mp hs
        have hnext := hframe (by simp) (by simp) (by simp) hu
        split at hs
        · cases hs
          exact { hnext with }
        · cases hs
          exact hnext
    | tasklet => exact h.uart_tasklet_func hs
    | copies bytes =>
      obtain ⟨u, hu, hs⟩ := Option.bind_eq_some_iff.mp hs
      cases hs
      simp only [Uart.step] at hu
      split_ifs at hu with hroom
      cases hu
      exact h.copies hroom.1 hroom.2
    | received data =>
      cases hs
      exact { hframe (e := .received data) (by simp) (by simp) (by simp) rfl with }
    | _ =>
      obtain ⟨u, hu, hs⟩ := Option.bind_eq_some_iff.mp hs
      cases hs
      exact hframe (by simp) (by simp) (by simp) hu

end WriteInv

/-- The run, by the step. -/
theorem writeInv_of_run {txEmpty : Bool} {es : List DeviceEvent}
    (h : Run DeviceStep (.init txEmpty) es d) : WriteInv d :=
  h.invariant (fun hi hs => hi.step hs) (writeInv_init txEmpty)

/-- Whatever the callers, the interrupts and the transmitter do: the values written to the holding
register are the bytes that were stored, in their order, each at least once, but for those still
queued and the one that `uart_send` has in hand. -/
theorem transmission_ordered {txEmpty : Bool} {es : List DeviceEvent}
    (h : Run DeviceStep (.init txEmpty) es d) :
    ∃ (sent inHand : List UInt8) (counts : List Nat),
      d.stored = sent ++ inHand ++ d.uart.out_fifo ∧
      (inHand = [] ∨ ∃ data, inHand = [data] ∧ d.uart.tasklet.held = some data) ∧
      counts.length = sent.length ∧ (∀ n ∈ counts, 0 < n) ∧
      d.uart.thr = (List.zipWith List.replicate counts sent).flatten := by
  have hinv := writeInv_of_run h
  have hstored := hinv.stored_eq
  cases hinv.sent with
  | written hrepeated _ =>
    obtain ⟨counts, hcounts⟩ := hrepeated.counts
    exact ⟨d.dequeued, [], counts, by rw [hstored, List.append_nil], .inl rfl, hcounts⟩
  | @inHand init data hdequeued hrepeated hheld _ =>
    obtain ⟨counts, hcounts⟩ := hrepeated.counts
    exact ⟨init, [data], counts, by rw [hstored, hdequeued], .inr ⟨data, rfl, hheld⟩, hcounts⟩

/-- No wake-up is lost: a caller of `uart_write` that is asleep while no tasklet runs has no room. -/
theorem writer_woken {txEmpty : Bool} {es : List DeviceEvent} {nonblock : Bool}
    (h : Run DeviceStep (.init txEmpty) es d) (hw : d.writer = some (nonblock, .asleep))
    (hidle : d.uart.tasklet = .idle) : d.uart.out_fifo.length = FIFO_SIZE :=
  (writeInv_of_run h).writer nonblock hw hidle

/-- A first call stores as many bytes as there is room for, and a second one falls asleep. -/
def secondSleeps : List DeviceEvent :=
  [.writeBegins false, .write, .uart (.copies (List.replicate 256 65)), .uart .writeEnds,
    .writeBegins false, .write, .write, .write]

theorem writer_woken_second : ∃ d, Run DeviceStep (.init false) secondSleeps d ∧
    d.uart.out_fifo.length = FIFO_SIZE := by
  have hrun : Run DeviceStep (.init false) secondSleeps
      ⟨⟨List.replicate 256 65, [], true, .idle, .idle, .idle, false, false, [], []⟩, .idle,
        some (false, .asleep), false, [], [], [], List.replicate 256 65, []⟩ :=
    (Run.foldlM_iff (f := Device.step)).mp (by decide +kernel)
  exact ⟨_, hrun, writer_woken hrun rfl rfl⟩

/-- Three bytes, of which the first one is written twice, the second one is in hand and the third
one is still queued. -/
def firstTwice : List DeviceEvent :=
  [.writeBegins false, .write, .uart (.copies [1, 2, 3]), .uart .writeEnds, .uart .starts] ++
    List.replicate 5 (.uart .tasklet) ++ [.uart .transmitted] ++ List.replicate 3 (.uart .tasklet) ++
    [.uart .transmitted] ++ List.replicate 3 (.uart .tasklet)

theorem transmission_ordered_twice : ∃ d, Run DeviceStep (.init false) firstTwice d ∧
    d.uart.thr = [1, 1] ∧ d.uart.tasklet = .sendReady 2 ∧ d.uart.out_fifo = [3] ∧
    ∃ (sent inHand : List UInt8) (counts : List Nat),
      d.stored = sent ++ inHand ++ d.uart.out_fifo ∧
      (inHand = [] ∨ ∃ data, inHand = [data] ∧ d.uart.tasklet.held = some data) ∧
      counts.length = sent.length ∧ (∀ n ∈ counts, 0 < n) ∧
      d.uart.thr = (List.zipWith List.replicate counts sent).flatten := by
  have hrun : ∃ d, Run DeviceStep (.init false) firstTwice d ∧
      d.uart.thr = [1, 1] ∧ d.uart.tasklet = .sendReady 2 ∧ d.uart.out_fifo = [3] :=
    ⟨_, Run.foldlM_iff.mp rfl, rfl, rfl, rfl⟩
  obtain ⟨d, hrun, hthr, htasklet, hfifo⟩ := hrun
  exact ⟨d, hrun, hthr, htasklet, hfifo, transmission_ordered hrun⟩

end YModem.UartAxi
