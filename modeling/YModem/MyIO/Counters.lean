import Mathlib.Algebra.Ring.Nat
import YModem.MyIO.Steps

/-!
# The two counters

`totalWritten` counts the bytes that the kernel holds, and `maxTotalCanRead` the bytes that
the readers in the waiting path have asked for, up to the width of an `unsigned`.
-/

namespace YModem.MyIO

open YModem.Lib YModem.Peer

variable {v : Version} {K : Kernel} {m m' : SocketInfo} {e : Event} {pick : Nat} {r : ReadCall}

/-! ## Unsigned arithmetic -/

theorem usub_eq {a b : Nat} (h : b ≤ a) (ha : a < UINT_RANGE) : usub a b = a - b := by
  unfold usub UINT_RANGE at *
  omega

theorem uadd_eq {a b : Nat} (h : a + b < UINT_RANGE) : uadd a b = a + b := Nat.mod_eq_of_lt h

theorem usub_lt (a b : Nat) : usub a b < UINT_RANGE := Nat.mod_lt _ (by decide)

theorem uadd_lt (a b : Nat) : uadd a b < UINT_RANGE := Nat.mod_lt _ (by decide)

theorem uadd_mod (a b : Nat) : uadd (a % UINT_RANGE) b = (a + b) % UINT_RANGE := Nat.mod_add_mod ..

theorem usub_mod {b : Nat} (a : Nat) (hb : b ≤ UINT_RANGE) :
    usub ((a + b) % UINT_RANGE) b = a % UINT_RANGE := by
  unfold usub UINT_RANGE at *
  omega

/-! ## What the readers have asked for -/

/-- The bytes that the waiting readers have asked for. -/
def asked (cv : CondVar ReadCall) : Nat := ((cv.map Waiter.who).map ReadCall.n).sum

@[simp] theorem asked_wait (cv : CondVar ReadCall) (r : ReadCall) :
    asked (cv.wait r) = asked cv + r.n := by
  simp [asked]

@[simp] theorem asked_notifyOne (pick : Nat) (cv : CondVar ReadCall) :
    asked (cv.notifyOne pick) = asked cv := by
  rw [asked, CondVar.map_who_notifyOne, asked]

theorem asked_split (before after : CondVar ReadCall) (w : Waiter ReadCall) :
    asked (before ++ w :: after) = asked (before ++ after) + w.who.n := by
  simp only [asked, List.map_append, List.map_cons, List.sum_append, List.sum_cons]
  omega

/-- What the reader behind its wait, if there is one, has asked for. -/
def Holder.asked : Holder → Nat
  | .waited r => r.n
  | _ => 0

/-- The counters are right, with `extra` bytes asked for by a reader behind its wait. -/
structure CountedBut (K : Kernel) (extra : Nat) (m : SocketInfo) : Prop where
  written : m.pair ≠ -1 → m.totalWritten = m.queue.length
  written_lt : m.totalWritten < UINT_RANGE
  room : m.queue.length ≤ K.capacity
  canRead : m.maxTotalCanRead = (asked m.cvRead + extra) % UINT_RANGE

/-- The counters are right. -/
def Counted (K : Kernel) (m : SocketInfo) : Prop := CountedBut K m.socketInfoMutex.asked m

theorem counted_init (K : Kernel) (pairInit : Nat) : Counted K (.init pairInit) :=
  ⟨fun _ => rfl, show 0 < UINT_RANGE by decide, Nat.zero_le _, rfl⟩

/-! ## The pieces of the member functions -/

theorem CountedBut.leaveWait (h : CountedBut K r.n m) : CountedBut K 0 (m.leaveWait pick r) := by
  have hn : r.n ≤ UINT_RANGE := Nat.le_of_lt (Nat.lt_trans r.n_lt (by decide))
  have hmax : usub m.maxTotalCanRead r.n = (asked m.cvRead + 0) % UINT_RANGE := by
    rw [h.canRead, usub_mod _ hn]
    rfl
  unfold SocketInfo.leaveWait
  dsimp only
  split_ifs
  · exact ⟨h.written, h.written_lt, h.room, by simpa using hmax⟩
  · exact ⟨h.written, h.written_lt, h.room, hmax⟩

/-- The bytes that `read` takes out of the kernel are counted off. -/
theorem CountedBut.taken {extra k : Nat} (h : CountedBut K extra m) (hk : k ≤ m.queue.length)
    (returns : List Return) : CountedBut K extra
      { m with totalWritten := usub m.totalWritten k, queue := m.queue.drop k, returns := returns } := by
  refine ⟨fun hp => ?_, usub_lt _ _, ?_, h.canRead⟩
  · have hw := h.written hp
    show usub m.totalWritten k = (m.queue.drop k).length
    rw [usub_eq (hw ▸ hk) h.written_lt, hw, List.length_drop]
  · exact Nat.le_trans (List.length_drop ▸ Nat.sub_le _ _) h.room

theorem CountedBut.afterRead {a : Answer} (h : CountedBut K r.n m)
    (ha : ∀ k, a = .bytes k → k ≤ m.queue.length) : Counted K (m.afterRead pick r a) := by
  unfold Counted
  rw [SocketInfo.afterRead_mutex]
  cases a with
  | bytes k => exact (h.taken (ha k rfl) _).leaveWait
  | reset => exact CountedBut.leaveWait ⟨h.written, h.written_lt, h.room, h.canRead⟩
  | error => exact CountedBut.leaveWait ⟨h.written, h.written_lt, h.room, h.canRead⟩

theorem CountedBut.afterWait (h : CountedBut K r.n m) : Counted K (m.afterWait v pick r) := by
  unfold SocketInfo.afterWait
  split_ifs
  · refine h.afterRead fun k hk => ?_
    cases hk
    exact Nat.zero_le _
  · exact ⟨h.written, h.written_lt, h.room, h.canRead⟩

/-- Bytes are answered only when the kernel holds them. -/
theorem le_of_delivers {n k : Nat} (h : m.delivers n (.bytes k) = true) : k ≤ m.queue.length :=
  (of_decide_eq_true h).2.1

theorem Counted.free (h : Counted K m) (hm : m.socketInfoMutex = .free) : CountedBut K 0 m := by
  rwa [Counted, hm] at h

theorem Counted.reading (h : Counted K m) (hm : m.socketInfoMutex = .free) :
    Counted K (m.reading v pick r) := by
  have h := h.free hm
  have hsame (returns : List Return) : Counted K { m with returns := returns } := by
    refine ⟨h.written, h.written_lt, h.room, ?_⟩
    show _ = (_ + m.socketInfoMutex.asked) % _
    rw [hm]
    exact h.canRead
  have hmax : uadd m.maxTotalCanRead r.n = (asked m.cvRead + r.n) % UINT_RANGE := by
    rw [h.canRead, uadd_mod]
    rfl
  unfold SocketInfo.reading
  dsimp only
  split_ifs
  · exact hsame _
  · exact hsame _
  · exact ⟨h.written, h.written_lt, h.room, h.canRead⟩
  · exact CountedBut.afterWait ⟨h.written, h.written_lt, h.room, hmax⟩
  · refine ⟨h.written, h.written_lt, h.room, ?_⟩
    show uadd m.maxTotalCanRead r.n = (asked (m.cvRead.wait r) + m.socketInfoMutex.asked) % _
    rw [hm, asked_wait, hmax]
    rfl

theorem Counted.afterWrite {buf : List UInt8} {written : Option Nat} (h : Counted K m)
    (hm : m.socketInfoMutex = .writing buf) (hk : K.accepts m buf written = true) :
    Counted K (m.afterWrite pick buf written) := by
  have hmax : m.maxTotalCanRead = (asked m.cvRead + 0) % UINT_RANGE := by
    have hc := h.canRead
    rwa [hm] at hc
  cases written with
  | none => exact ⟨h.written, h.written_lt, h.room, hmax⟩
  | some k =>
    obtain ⟨hbuf, hroom⟩ := of_decide_eq_true hk
    have hcap : K.capacity < UINT_RANGE := Nat.lt_trans K.capacity_lt (by decide)
    have hlen : (m.queue ++ buf.take k).length = m.queue.length + k := by
      rw [List.length_append, List.length_take, Nat.min_eq_left hbuf]
    unfold SocketInfo.afterWrite
    dsimp only
    split_ifs with hpos
    · refine ⟨fun hp => ?_, uadd_lt _ _, ?_, ?_⟩
      · have hw := h.written hp
        show uadd m.totalWritten k = (m.queue ++ buf.take k).length
        rw [uadd_eq (by omega), hw, hlen]
      · show (m.queue ++ buf.take k).length ≤ _
        omega
      · show _ = (asked (m.cvRead.notifyOne pick) + 0) % _
        rw [asked_notifyOne, hmax]
    · obtain rfl : k = 0 := by omega
      refine ⟨fun hp => ?_, h.written_lt, ?_, hmax⟩
      · show _ = (m.queue ++ buf.take 0).length
        rw [hlen, h.written hp, Nat.add_zero]
      · show (m.queue ++ buf.take 0).length ≤ _
        omega

theorem Counted.afterFastRead {a : Answer} (h : Counted K m)
    (hm : m.socketInfoMutex = .reading r) (ha : ∀ k, a = .bytes k → k ≤ m.queue.length) :
    Counted K (m.afterFastRead r a) := by
  have hmax : m.maxTotalCanRead = (asked m.cvRead + 0) % UINT_RANGE := by
    have hc := h.canRead
    rwa [hm] at hc
  have h : CountedBut K 0 m := ⟨h.written, h.written_lt, h.room, hmax⟩
  cases a with
  | bytes k =>
    have htaken := h.taken (ha k rfl) (m.returns ++ [.read r (m.queue.take k)])
    unfold SocketInfo.afterFastRead
    dsimp only
    split_ifs with hpos hdrained
    · exact ⟨htaken.written, htaken.written_lt, htaken.room, hmax⟩
    · exact ⟨htaken.written, htaken.written_lt, htaken.room, hmax⟩
    · obtain rfl : k = 0 := by omega
      exact ⟨h.written, h.written_lt, h.room, hmax⟩
  | reset => exact ⟨h.written, h.written_lt, h.room, hmax⟩
  | error => exact ⟨h.written, h.written_lt, h.room, hmax⟩

/-! ## Every step -/

/-- A waiter who has the mutex again is no longer among those who wait. -/
theorem Counted.waiter {before after : CondVar ReadCall} {w : Waiter ReadCall} (h : Counted K m)
    (hm : m.socketInfoMutex = .free) (hcv : m.cvRead = before ++ w :: after) :
    CountedBut K w.who.n { m with cvRead := before ++ after } := by
  have h := h.free hm
  refine ⟨h.written, h.written_lt, h.room, ?_⟩
  rw [h.canRead, hcv, asked_split]
  rfl

theorem Counted.step (h : Counted K m) (hs : Step v K m e m') : Counted K m' := by
  cases hs.effect with
  | write hm hp =>
    have h := h.free hm
    exact ⟨h.written, h.written_lt, h.room, h.canRead⟩
  | wrote hm hk => exact h.afterWrite hm hk
  | read hm hp hi hx => exact h.reading hm
  | gotFast hm ha => exact h.afterFastRead hm fun k hk => le_of_delivers (hk ▸ ha)
  | @gotWaited r a pick hm ha =>
    have hbut : CountedBut K r.n m := by rwa [Counted, hm] at h
    exact hbut.afterRead fun k hk => le_of_delivers (hk ▸ ha)
  | wakes hm hcv hsat => exact (h.waiter hm hcv).afterWait
  | @wakesAgain r pick before after hm hcv hsat =>
    have hbut := h.waiter hm hcv
    refine ⟨hbut.written, hbut.written_lt, hbut.room, ?_⟩
    show _ = (asked (CondVar.wait (before ++ after) r) + m.socketInfoMutex.asked) % _
    rw [hm, asked_wait]
    exact hbut.canRead
  | timesOut hm hv hcv => exact (h.waiter hm hcv).afterWait
  | tcdrain hm hp hi =>
    unfold SocketInfo.draining
    split_ifs
    · exact ⟨h.written, h.written_lt, h.room, h.canRead⟩
    · exact ⟨h.written, h.written_lt, h.room, h.canRead⟩
  | drainWakes hm hcv => exact ⟨h.written, h.written_lt, h.room, h.canRead⟩
  | close hm hp hr =>
    unfold SocketInfo.closing
    dsimp only
    split_ifs
    · exact ⟨fun hp => absurd rfl hp, h.written_lt, Nat.zero_le _, h.canRead⟩
    · exact ⟨fun hp => absurd rfl hp, h.written_lt, Nat.zero_le _, h.canRead⟩
  | closePair hm hp hd =>
    have hopen : m.pair ≠ -1 := by omega
    unfold SocketInfo.closingPair
    dsimp only
    split_ifs
    · exact ⟨fun _ => h.written hopen, h.written_lt, h.room, by simpa using h.canRead⟩
    · exact ⟨fun _ => h.written hopen, h.written_lt, h.room, h.canRead⟩

theorem Counted.run {es : List Event} (h : Counted K m) (hr : Run (Step v K) m es m') :
    Counted K m' := hr.invariant Counted.step h

end YModem.MyIO
