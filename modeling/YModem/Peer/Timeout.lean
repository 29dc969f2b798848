import YModem.Peer.TransferCommon

/-!
# The time that `transferCommon` gives to `myReadcond`

When the medium is ready, the loop reads a byte with a timeout in tenths of seconds, computed
from the difference of two `long long`s that goes through an `unsigned` and ends in an `int`.
Only the time handed to `select` is clamped at zero.
-/

namespace YModem.Peer

open YModem.SmartState YModem.Lib

/-- The values of a `long long`. -/
def IsLongLong (x : Int) : Prop := -0x8000000000000000 ≤ x ∧ x < 0x8000000000000000

instance (x : Int) : Decidable (IsLongLong x) := inferInstanceAs (Decidable (_ ∧ _))

/-- The conversion of a `long long` to `unsigned`. -/
def toUnsigned (x : Int) : Nat := (x % (UINT_RANGE : Int)).toNat

/-- The conversion of an `unsigned` to `int`. -/
def toInt (u : Nat) : Int := if u < 0x80000000 then u else u - (UINT_RANGE : Int)

/-- `unsigned timeout = (absoluteTimeout - now) / 1000 / 100`, as the `int` that `myReadcond`
gets for `time` and `timeout`. -/
def timeout (absoluteTimeout now : Int) : Except Fault Int :=
  if IsLongLong (absoluteTimeout - now) then
    .ok (toInt (toUnsigned (((absoluteTimeout - now).tdiv 1000).tdiv 100)))
  else .error .undefinedBehaviour

/-- The timeout of the read that a turn makes from the medium. -/
def Turn.readTimeout {ε : Type} (t : Turn ε) (p : PeerY) : Option (Except Fault Int) :=
  match t.select with
  | .ready (some _) _ _ _ => some (timeout p.absoluteTimeout t.now)
  | _ => none

/-- The tenths of seconds that are left, and none when the deadline has passed. -/
def tenthsLeft (absoluteTimeout now : Int) : Int := max 0 ((absoluteTimeout - now) / 100000)

/-- The deadline has passed by less than a tenth of a second, or lies ahead by no more tenths
than an `int` can hold; or it has passed by a number of tenths that the `unsigned` loses. -/
def Representable (absoluteTimeout now : Int) : Prop :=
  (-100000 < absoluteTimeout - now ∧ absoluteTimeout - now < 0x80000000 * 100000) ∨
    (-0x8000000000000000 ≤ absoluteTimeout - now ∧ absoluteTimeout - now ≤ -100000 ∧
      (now - absoluteTimeout) / 100000 % UINT_RANGE = 0)

section

variable {absoluteTimeout now x : Int}

/-- Two truncating divisions of a number that is not negative. -/
theorem tdiv_of_nonneg (hx : 0 ≤ x) : (x.tdiv 1000).tdiv 100 = x / 100000 := by
  have hquot : 0 ≤ x / 1000 := by omega
  rw [Int.tdiv_eq_ediv_of_nonneg hx, Int.tdiv_eq_ediv_of_nonneg hquot]
  omega

/-- A deadline that lies ahead. -/
theorem timeout_of_le (h : now ≤ absoluteTimeout) (hl : IsLongLong (absoluteTimeout - now)) :
    timeout absoluteTimeout now =
      .ok (toInt (toUnsigned ((absoluteTimeout - now) / 100000))) := by
  rw [timeout, if_pos hl, tdiv_of_nonneg (by omega)]

/-- A deadline that has passed. -/
theorem timeout_of_lt (h : absoluteTimeout < now) (hl : IsLongLong (absoluteTimeout - now)) :
    timeout absoluteTimeout now =
      .ok (toInt (toUnsigned (-((now - absoluteTimeout) / 100000)))) := by
  have hneg : absoluteTimeout - now = -(now - absoluteTimeout) := by omega
  rw [timeout, if_pos hl, hneg, Int.neg_tdiv, Int.neg_tdiv, tdiv_of_nonneg (by omega)]

theorem toInt_toUnsigned_eq_iff (hx : 0 ≤ x) :
    toInt (toUnsigned x) = x ↔ x < 0x80000000 := by
  simp only [toInt, toUnsigned, UINT_RANGE]
  split_ifs <;> omega

theorem toInt_toUnsigned_neg_eq_zero_iff (x : Int) :
    toInt (toUnsigned (-x)) = 0 ↔ x % UINT_RANGE = 0 := by
  simp only [toInt, toUnsigned, UINT_RANGE]
  split_ifs <;> omega

/-- When the timeout is the time that is left. -/
theorem timeout_iff (absoluteTimeout now : Int) :
    timeout absoluteTimeout now = .ok (tenthsLeft absoluteTimeout now) ↔
      Representable absoluteTimeout now := by
  by_cases hl : IsLongLong (absoluteTimeout - now)
  swap
  · rw [timeout, if_neg hl]
    simp only [IsLongLong, Representable] at hl ⊢
    simp only [reduceCtorEq, false_iff]
    omega
  rcases Int.lt_or_le absoluteTimeout now with h | h
  · have hleft : tenthsLeft absoluteTimeout now = 0 := by
      simp only [tenthsLeft]
      omega
    rw [timeout_of_lt h hl, hleft, Except.ok.injEq, toInt_toUnsigned_neg_eq_zero_iff]
    simp only [Representable, IsLongLong, UINT_RANGE] at hl ⊢
    omega
  · have hleft : tenthsLeft absoluteTimeout now = (absoluteTimeout - now) / 100000 := by
      simp only [tenthsLeft]
      omega
    rw [timeout_of_le h hl, hleft, Except.ok.injEq, toInt_toUnsigned_eq_iff (by omega)]
    simp only [Representable]
    omega

end

/-- **The timeout of every read from the medium**, whatever the deadline and the clock are. -/
theorem read_timeout_iff {ε : Type} (p : PeerY) (t : Turn ε) {passed : Except Fault Int}
    (h : t.readTimeout p = some passed) :
    passed = .ok (tenthsLeft p.absoluteTimeout t.now) ↔ Representable p.absoluteTimeout t.now := by
  unfold Turn.readTimeout at h
  split at h
  · cases h
    exact timeout_iff p.absoluteTimeout t.now
  · cases h

/-- A sender that waits for an ACK is cancelled from the keyboard: the deadline lies 0.4 seconds
behind the start of the wait now. -/
def cancelledWait : PeerY := (PeerY.init.tm 0 TM_VL).tmRed (TM_VL - TM_2CHAR)

/-- A turn five seconds after that start, in which a byte is read. -/
def lateTurn : Turn Unit := ⟨5000000, .ready (some (some ACK)) none () ()⟩

theorem read_timeout_late : lateTurn.readTimeout cancelledWait = some (.ok (-46)) ∧
    (Except.ok (-46) = (Except.ok (tenthsLeft cancelledWait.absoluteTimeout lateTurn.now) :
      Except Fault Int) ↔ Representable cancelledWait.absoluteTimeout lateTurn.now) :=
  ⟨rfl, read_timeout_iff cancelledWait lateTurn rfl⟩

/-- The read gets a negative timeout. -/
theorem negative_timeout : ∃ passed, lateTurn.readTimeout cancelledWait = some passed ∧
    passed ≠ .ok (tenthsLeft cancelledWait.absoluteTimeout lateTurn.now) := by
  refine ⟨.ok (-46), rfl, fun h => ?_⟩
  have hvalue : tenthsLeft cancelledWait.absoluteTimeout lateTurn.now = 0 := rfl
  rw [hvalue] at h
  exact absurd (Except.ok.inj h) (by decide)

end YModem.Peer
