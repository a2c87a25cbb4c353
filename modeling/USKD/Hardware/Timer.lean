import Mathlib.Algebra.Order.Group.Nat

/-!
# `TimeMeterMS`

The stopwatch of the firmware, over the 32-bit millisecond counter `timer_counter`.  The
counter is the argument `now` of every function; all arithmetic on it wraps.

`ElapsedTime` takes a difference, which survives a wrap of the counter; `IsFinished` compares
the counter with a moment that was computed when the time was set.  `punctual_iff` says when the
two agree.
-/

namespace USKD

/-- `struct TimeMeterMS`. -/
structure TimeMeterMS where
  timeReset : UInt32
  timeResponse : UInt32
deriving DecidableEq

namespace TimeMeterMS

/-- `Reset`, and the constructor. -/
def reset (now : UInt32) : TimeMeterMS := ⟨now, now⟩

/-- `ElapsedTime`. -/
def elapsedTime (m : TimeMeterMS) (now : UInt32) : UInt32 := now - m.timeReset

/-- `SetResponseTime`. -/
def setResponseTime (m : TimeMeterMS) (now time : UInt32) : TimeMeterMS :=
  { m with timeResponse := now + time }

/-- `IsFinished`. -/
def isFinished (m : TimeMeterMS) (now : UInt32) : Bool := now ≥ m.timeResponse

@[simp] theorem elapsedTime_reset_add (now time : UInt32) :
    (reset now).elapsedTime (now + time) = time := by
  show now + time - now = time
  rw [UInt32.add_comm, UInt32.add_sub_cancel]

@[simp] theorem elapsedTime_reset (now : UInt32) : (reset now).elapsedTime now = 0 :=
  UInt32.sub_self now

/-- **The counter may wrap, the time shown has passed**: the meter shows the time since it was
reset, or less. -/
theorem lt_of_lt_elapsedTime {start now : ℕ} {time : UInt32} (hle : start ≤ now)
    (h : time < (reset (.ofNat start)).elapsedTime (.ofNat now)) : start + time.toNat < now := by
  have hshown : time.toNat < (UInt32.ofNat now - UInt32.ofNat start).toNat := h
  rw [UInt32.toNat_sub, UInt32.toNat_ofNat', UInt32.toNat_ofNat'] at hshown
  have htime := time.toNat_lt
  omega

/-- Before the counter has gone round, the meter shows the time that has passed. -/
theorem toNat_elapsedTime {start now : ℕ} (hle : start ≤ now) (hround : now < start + 2 ^ 32) :
    ((reset (.ofNat start)).elapsedTime (.ofNat now)).toNat = now - start := by
  show (UInt32.ofNat now - UInt32.ofNat start).toNat = now - start
  rw [UInt32.toNat_sub, UInt32.toNat_ofNat', UInt32.toNat_ofNat']
  omega

theorem elapsedTime_le_iff {start now : ℕ} (time : UInt32) (hle : start ≤ now)
    (hround : now < start + 2 ^ 32) :
    (reset (.ofNat start)).elapsedTime (.ofNat now) ≤ time ↔ now ≤ start + time.toNat := by
  rw [UInt32.le_iff_toNat_le, toNat_elapsedTime hle hround]
  omega

/-! ## The time is up -/

/-- **The meter is punctual**, `passed` milliseconds after `time` was set at `now`: the time is up
exactly if that much has passed, and if the difference that `ElapsedTime` takes says so. -/
def Punctual (m : TimeMeterMS) (now time : UInt32) (passed : ℕ) : Prop :=
  let later := now + .ofNat passed
  ((m.setResponseTime now time).isFinished later = true ↔ time.toNat ≤ passed) ∧
    ((m.setResponseTime now time).isFinished later = true ↔
      time ≤ (reset now).elapsedTime later)

theorem toNat_elapsedTime_reset_add {passed : ℕ} (hpassed : passed < 2 ^ 32) (now : UInt32) :
    ((reset now).elapsedTime (now + .ofNat passed)).toNat = passed := by
  rw [elapsedTime_reset_add, UInt32.toNat_ofNat', Nat.mod_eq_of_lt hpassed]

/-- What `IsFinished` compares. -/
theorem isFinished_setResponseTime (m : TimeMeterMS) (now time : UInt32) (passed : ℕ) :
    (m.setResponseTime now time).isFinished (now + .ofNat passed) = true ↔
      (now.toNat + time.toNat) % 2 ^ 32 ≤ (now.toNat + passed) % 2 ^ 32 := by
  rw [isFinished, setResponseTime, decide_eq_true_iff, ge_iff_le, UInt32.le_iff_toNat_le,
    UInt32.toNat_add, UInt32.toNat_add, UInt32.toNat_ofNat', Nat.add_mod_mod]

/-- **When the meter is punctual.**  The moment at which the time is up and the present one lie
both in front of the wrap of the counter, or both behind it. -/
theorem punctual_iff (m : TimeMeterMS) (now time : UInt32) (passed : ℕ)
    (htime : time.toNat < 2 ^ 31) (hpassed : passed < 2 ^ 31) :
    m.Punctual now time passed ↔
      (now.toNat + time.toNat < 2 ^ 32 ↔ now.toNat + passed < 2 ^ 32) := by
  have hnow := now.toNat_lt
  have helapsed := toNat_elapsedTime_reset_add (show passed < 2 ^ 32 by omega) now
  unfold Punctual
  simp only
  rw [UInt32.le_iff_toNat_le, helapsed, and_self, isFinished_setResponseTime]
  omega

/-- Five seconds, set one second behind the start. -/
theorem punctual_five_seconds : (reset 0).Punctual 1000 5000 5000 :=
  (punctual_iff (reset 0) 1000 5000 5000 (by decide) (by decide)).mpr (by decide)

/-- **The time is up at once**, if it is set shortly before the counter wraps. -/
theorem not_punctual_wrapping :
    ¬ ∀ (m : TimeMeterMS) (now time : UInt32) (passed : ℕ), time.toNat < 2 ^ 31 →
        passed < 2 ^ 31 → m.Punctual now time passed := by
  intro hall
  have htime := (hall (reset 0) 4294967000 5000 0 (by decide) (by decide)).1
  exact absurd (htime.mp (by decide)) (by decide)

end TimeMeterMS

end USKD
