import Mathlib.Algebra.BigOperators.Group.Finset.Basic
import Mathlib.Algebra.Order.BigOperators.Group.Finset

/-!
# Stages with a time limit

A procedure goes from stage to stage.  In each of them it waits for some time; when it finds that
the time is over it gives up, or goes on to a later stage.  It finds that only when it is called and
looks at the time; some calls do not look, a poll always does.

`wait` is how long a poll may find the stage, `limit` how long the stage may last: the same where the
procedure gives up, more where it goes on, as it does so at a poll behind the wait.  `Clock` says
when the procedure was called, `InTime` that nothing has taken longer.  The rules are `InTime.stay`,
`InTime.go` and, where stages are left out, `InTime.skip`; what they come to is `InTime.polled_le`:
the stages take no more than their limits together (`budget`), however the calls lie.
-/

namespace Stages

/-- The limits of the stages before `n`, together. -/
def budget (limit : ℕ → ℕ) (n : ℕ) : ℕ := ∑ k ∈ Finset.range n, limit k

/-- When the procedure began, when it entered its stage, and when it was last polled and last
called. -/
structure Clock where
  started : ℕ
  entered : ℕ
  polled : ℕ
  called : ℕ

namespace Clock

/-- The procedure begins. -/
def start (now : ℕ) : Clock := ⟨now, now, now, now⟩

/-- One more call. -/
def tick (c : Clock) (now : ℕ) (poll moved : Bool) : Clock where
  started := c.started
  entered := if moved then now else c.entered
  polled := if poll then now else c.polled
  called := now

/-- The calls are in order, and the last poll is not longer ago than `gap`. -/
def Follows (gap : ℕ) (c : Clock) (now : ℕ) : Prop := c.called ≤ now ∧ now ≤ c.polled + gap

instance (gap : ℕ) (c : Clock) (now : ℕ) : Decidable (c.Follows gap now) :=
  inferInstanceAs (Decidable (_ ∧ _))

end Clock

/-- **Nothing has taken longer.** -/
structure InTime (wait limit : ℕ → ℕ) (stage : ℕ) (c : Clock) : Prop where
  entered : c.entered ≤ c.started + budget limit stage
  polled : c.polled ≤ c.entered + wait stage
  called : c.entered ≤ c.called
  later : c.polled ≤ c.called

variable {wait limit : ℕ → ℕ} {stage next now gap : ℕ} {c : Clock} {poll : Bool}

theorem budget_succ (n : ℕ) : budget limit (n + 1) = budget limit n + limit n :=
  Finset.sum_range_succ limit n

theorem budget_mono {m n : ℕ} (h : m ≤ n) : budget limit m ≤ budget limit n :=
  Finset.sum_le_sum_of_subset (Finset.range_mono h)

theorem inTime_start (wait limit : ℕ → ℕ) (stage now : ℕ) :
    InTime wait limit stage (.start now) where
  entered := Nat.le_add_right _ _
  polled := Nat.le_add_right _ _
  called := Nat.le_refl _
  later := Nat.le_refl _

/-- A call comes not before the stage, and not later than the wait and the gap after it. -/
theorem InTime.bounds (h : InTime wait limit stage c) (hnow : c.Follows gap now) :
    c.entered ≤ now ∧ now ≤ c.entered + wait stage + gap := by
  obtain ⟨hcalled, hgap⟩ := hnow
  have hpolled := h.polled
  exact ⟨h.called.trans hcalled, by omega⟩

/-- **The stage goes on**: a poll has found time left. -/
theorem InTime.stay (h : InTime wait limit stage c) (hnow : c.called ≤ now)
    (hleft : poll = true → now ≤ c.entered + wait stage) :
    InTime wait limit stage (c.tick now poll false) where
  entered := h.entered
  polled := by
    cases poll with
    | false => exact h.polled
    | true => exact hleft rfl
  called := h.called.trans hnow
  later := by
    cases poll with
    | false => exact h.later.trans hnow
    | true => exact Nat.le_refl now

/-- **A later stage**, entered within the limits of those that lie before it. -/
theorem InTime.skip (h : InTime wait limit stage c) (hnow : c.called ≤ now)
    (hleft : now + budget limit stage ≤ c.entered + budget limit next) :
    InTime wait limit next (c.tick now poll true) where
  entered := by
    have hentered := h.entered
    show now ≤ c.started + budget limit next
    omega
  polled := by
    refine (Nat.le_add_right now _).trans' ?_
    cases poll with
    | false => exact h.later.trans hnow
    | true => exact Nat.le_refl now
  called := Nat.le_refl now
  later := by
    cases poll with
    | false => exact h.later.trans hnow
    | true => exact Nat.le_refl now

/-- A later stage, entered within the limit. -/
theorem InTime.go (h : InTime wait limit stage c) (hnow : c.called ≤ now)
    (hleft : now ≤ c.entered + limit stage) (hnext : stage < next) :
    InTime wait limit next (c.tick now poll true) := by
  refine h.skip hnow ?_
  have hmono := @budget_mono limit _ _ hnext
  rw [budget_succ] at hmono
  omega

/-- **The stages take no more than their limits together.** -/
theorem InTime.polled_le (h : InTime wait limit stage c) (hwait : wait stage ≤ limit stage)
    (hstage : stage < next) : c.polled ≤ c.started + budget limit next := by
  have hentered := h.entered
  have hpolled := h.polled
  have hmono := @budget_mono limit _ _ hstage
  rw [budget_succ] at hmono
  omega

end Stages
