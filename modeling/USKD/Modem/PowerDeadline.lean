import USKD.Lib.Run
import USKD.Lib.Stages
import USKD.Modem.Power

/-!
# The power sequence is over, or given up, in time

Three states of the sequence only let time pass, two wait for a pin: `WAIT_HI_GSM_PG` and
`WAIT_5000_MS`.  These two look at the pin before they look at the time, so that a pin that is high at
a late call still counts, and they give up at a call that comes too late and finds it low.

`powered_in_time` says how long an attempt takes, and exactly when it is given up.  The milliseconds
do not wrap, the counter that the code reads does: it is enough that there is a call in 24 days.
-/

namespace USKD

namespace Modem

open Stages

/-- The states in their order. -/
def order : List State :=
  [.WAIT_DISCHARGE_CAPS, .WAIT_HI_GSM_PG, .WAIT_500_MS, .WAIT_1250_MS, .WAIT_5000_MS, .HARDWARE_IS_OK]

/-- The place of a state. -/
def stage (state : State) : ℕ := order.idxOf state

/-- What the meter is compared with. -/
def waits : State → UInt32
  | .IDLE | .HARDWARE_IS_OK => 0
  | .WAIT_DISCHARGE_CAPS => 3000
  | .WAIT_HI_GSM_PG => 100
  | .WAIT_500_MS => 500
  | .WAIT_1250_MS => 1250
  | .WAIT_5000_MS => 5000

/-- The same by the place of a state. -/
def wait (k : ℕ) : ℕ := (waits (order.getD k .HARDWARE_IS_OK)).toNat

/-- How long a state lasts: it is left at a call, and that is behind its wait. -/
def limit (gap k : ℕ) : ℕ := wait k + gap

variable {m : Modem} {env : Env} {gap : ℕ}

theorem wait_stage {state : State} (hidle : state ≠ .IDLE) :
    wait (stage state) = (waits state).toNat := by
  cases state with
  | IDLE => exact absurd rfl hidle
  | _ => rfl

theorem wait_le (k : ℕ) : wait k ≤ 5000 := by
  have hwaits : ∀ state, (waits state).toNat ≤ 5000 := by
    intro state
    cases state <;> decide
  exact hwaits _

/-- The states in front of `WAIT_5000_MS`, together. -/
theorem budget_status (gap : ℕ) : budget (limit gap) 4 = 4850 + 4 * gap := by
  have hwait : budget wait 4 = 4850 := by decide
  unfold budget at hwait ⊢
  simp only [limit]
  rw [Finset.sum_add_distrib, hwait, Finset.sum_const, Finset.card_range]
  rfl

/-! ## One call -/

/-- **A call gives up**: it comes too late, and the pin is low. -/
def GivesUp (m : Modem) (env : Env) : Prop :=
  m.state = .WAIT_HI_GSM_PG ∧ env.gsmPg = false ∧ 100 < m.meter.elapsedTime env.now ∨
    m.state = .WAIT_5000_MS ∧ env.gsmStatus = false ∧ 5000 < m.meter.elapsedTime env.now

/-- **What a call leaves**, between `IDLE` and `HARDWARE_IS_OK`. -/
inductive Moves (m : Modem) (env : Env) : Modem → Prop
  | stays (hleft : m.meter.elapsedTime env.now ≤ waits m.state) (hstays : ¬ GivesUp m env) :
      Moves m env m
  | goes (next : State) (hnext : stage m.state < stage next) (hidle : next ≠ .IDLE)
      (hgoes : ¬ GivesUp m env) : Moves m env ⟨next, .reset env.now⟩
  | givesUp (h : GivesUp m env) : Moves m env { m with state := .IDLE }

theorem not_givesUp (hpg : m.state ≠ .WAIT_HI_GSM_PG) (hstatus : m.state ≠ .WAIT_5000_MS) :
    ¬ GivesUp m env := by
  rintro (⟨hstate, -⟩ | ⟨hstate, -⟩)
  · exact hpg hstate
  · exact hstatus hstate

/-- A state that only lets time pass. -/
theorem moves_pass {next : State} {time : UInt32} (htime : time = waits m.state)
    (hstays : ¬ GivesUp m env) (hnext : stage m.state < stage next) (hidle : next ≠ .IDLE) :
    Moves m env
      (if m.meter.elapsedTime env.now > time then (⟨next, .reset env.now⟩, Call.nothing)
       else (m, .nothing)).1 := by
  by_cases hover : m.meter.elapsedTime env.now > time
  · rw [if_pos hover]
    exact .goes next hnext hidle hstays
  · rw [if_neg hover]
    exact .stays (htime ▸ UInt32.not_lt.mp hover) hstays

/-- A state that waits for a pin. -/
theorem moves_pin {next : State} {pin : Bool} {time : UInt32} (htime : time = waits m.state)
    (hgivesUp : GivesUp m env ↔ pin = false ∧ time < m.meter.elapsedTime env.now)
    (hnext : stage m.state < stage next) (hidle : next ≠ .IDLE) :
    Moves m env
      (let m' := if pin then ⟨next, .reset env.now⟩ else m
       if m'.meter.elapsedTime env.now > time then { m' with state := .IDLE } else m') := by
  cases pin with
  | true =>
      -- the meter has just been reset
      have hnow : ¬ (TimeMeterMS.reset env.now).elapsedTime env.now > time := by
        rw [TimeMeterMS.elapsedTime_reset]
        exact UInt32.not_lt.mpr (UInt32.zero_le)
      simp only [if_true]
      rw [if_neg hnow]
      exact .goes next hnext hidle fun h => absurd (hgivesUp.mp h).1 (by decide)
  | false =>
      simp only [Bool.false_eq_true, if_false]
      by_cases hover : m.meter.elapsedTime env.now > time
      · rw [if_pos hover]
        exact .givesUp (hgivesUp.mpr ⟨rfl, hover⟩)
      · rw [if_neg hover]
        refine .stays (htime ▸ UInt32.not_lt.mp hover) fun h => hover (hgivesUp.mp h).2

theorem moves_update (hidle : m.state ≠ .IDLE) (hok : m.state ≠ .HARDWARE_IS_OK) :
    Moves m env (m.update env).1 := by
  unfold update
  cases hstate : m.state with
  | IDLE => exact absurd hstate hidle
  | HARDWARE_IS_OK => exact absurd hstate hok
  | WAIT_DISCHARGE_CAPS | WAIT_500_MS | WAIT_1250_MS =>
      refine moves_pass (by rw [hstate]; rfl) (not_givesUp ?_ ?_) (by rw [hstate]; decide) (by decide)
      · rw [hstate]; decide
      · rw [hstate]; decide
  | WAIT_HI_GSM_PG =>
      refine moves_pin (by rw [hstate]; rfl) ?_ (by rw [hstate]; decide) (by decide)
      simp [GivesUp, hstate]
  | WAIT_5000_MS =>
      refine moves_pin (by rw [hstate]; rfl) ?_ (by rw [hstate]; decide) (by decide)
      simp [GivesUp, hstate]

/-! ## An attempt -/

/-- A call, in milliseconds that do not wrap. -/
structure Poll where
  now : ℕ
  gsmPg : Bool
  gsmStatus : Bool

/-- What the code finds. -/
def Poll.toEnv (p : Poll) : Env := ⟨.ofNat p.now, p.gsmPg, p.gsmStatus⟩

/-- An attempt to switch the modem on, from the `IDLE` step until the modem is back in `IDLE`. -/
structure Attempt where
  modem : Modem
  clock : Clock

namespace Attempt

/-- The modem was reset, and `Modem::Update` is called. -/
def begun (m : Modem) (p : Poll) : Attempt := ⟨(m.reset.update p.toEnv).1, .start p.now⟩

/-- A call of `Modem::Update`. -/
def step (a : Attempt) (p : Poll) : Option Attempt :=
  let m := (a.modem.update p.toEnv).1
  if m.state = .IDLE then none
  else some ⟨m, a.clock.tick p.now true (m.state ≠ a.modem.state)⟩

/-- There is a call in every `gap`. -/
def Polled (gap : ℕ) (a : Attempt) (p : Poll) : Prop := a.clock.Follows gap p.now

instance (gap : ℕ) (a : Attempt) : DecidablePred (Polled gap a) :=
  fun p => inferInstanceAs (Decidable (a.clock.Follows gap p.now))

/-- **A call that comes too late**, and finds the pin low. -/
def TooLate (a : Attempt) (p : Poll) : Prop :=
  a.modem.state = .WAIT_HI_GSM_PG ∧ p.gsmPg = false ∧ a.clock.entered + 100 < p.now ∨
    a.modem.state = .WAIT_5000_MS ∧ p.gsmStatus = false ∧ a.clock.entered + 5000 < p.now

/-- **The invariant** in front of `HARDWARE_IS_OK`: the state is in time, and the meter was reset when
it was entered. -/
structure Sound (gap : ℕ) (a : Attempt) : Prop where
  idle : a.modem.state ≠ .IDLE
  inTime : InTime wait (limit gap) (stage a.modem.state) a.clock
  meter : a.modem.meter = .reset (.ofNat a.clock.entered)

variable {a b : Attempt} {p : Poll}

theorem sound_begun (m : Modem) (p : Poll) : Sound gap (begun m p) := by
  have hbegun : begun m p = ⟨⟨.WAIT_DISCHARGE_CAPS, .reset (.ofNat p.now)⟩, .start p.now⟩ := by
    rw [begun, update_of_idle _ rfl]
    rfl
  rw [hbegun]
  refine ⟨?_, inTime_start _ _ _ _, rfl⟩
  rintro ⟨⟩

/-- The meter shows what has passed. -/
theorem Sound.elapsedTime_le_iff (h : Sound gap a) (hgap : gap ≤ 2 ^ 31) (hpolled : Polled gap a p)
    (time : UInt32) :
    a.modem.meter.elapsedTime p.toEnv.now ≤ time ↔ p.now ≤ a.clock.entered + time.toNat := by
  obtain ⟨hlow, hhigh⟩ := h.inTime.bounds hpolled
  have hwait := wait_le (stage a.modem.state)
  rw [h.meter]
  exact TimeMeterMS.elapsedTime_le_iff time hlow (by omega)

theorem Sound.givesUp_iff (h : Sound gap a) (hgap : gap ≤ 2 ^ 31) (hpolled : Polled gap a p) :
    GivesUp a.modem p.toEnv ↔ TooLate a p := by
  unfold GivesUp TooLate
  rw [← UInt32.not_le, ← UInt32.not_le, h.elapsedTime_le_iff hgap hpolled,
    h.elapsedTime_le_iff hgap hpolled, Nat.not_le, Nat.not_le]
  rfl

/-- **Step lemma.**  A call gives up exactly if it comes too late; otherwise the state is in time, or
`HARDWARE_IS_OK`. -/
theorem Sound.step (h : Sound gap a) (hgap : gap ≤ 2 ^ 31) (hpolled : Polled gap a p)
    (hok : a.modem.state ≠ .HARDWARE_IS_OK) :
    (a.step p = none ↔ TooLate a p) ∧
      ∀ b, a.step p = some b → b.modem.state = .HARDWARE_IS_OK ∨ Sound gap b := by
  have hmoves := @moves_update a.modem p.toEnv h.idle hok
  rw [← h.givesUp_iff hgap hpolled]
  unfold Attempt.step
  generalize (a.modem.update p.toEnv).1 = m at hmoves
  cases hmoves with
  | givesUp hgives =>
      simp only [if_true]
      refine ⟨iff_of_true trivial hgives, fun b hb => ?_⟩
      exact absurd hb (by simp)
  | stays hleft hstays =>
      simp only [if_neg h.idle]
      refine ⟨iff_of_false (by simp) hstays, ?_⟩
      rintro b hb
      obtain rfl := Option.some.inj hb
      rw [h.elapsedTime_le_iff hgap hpolled, ← wait_stage h.idle] at hleft
      refine .inr ⟨h.idle, ?_, ?_⟩
      · rw [decide_eq_false (not_not.mpr rfl)]
        exact h.inTime.stay hpolled.1 fun _ => hleft
      · rw [decide_eq_false (not_not.mpr rfl)]
        exact h.meter
  | goes next hnext hidle hgoes =>
      simp only [if_neg hidle]
      refine ⟨iff_of_false (by simp) hgoes, ?_⟩
      rintro b hb
      obtain rfl := Option.some.inj hb
      have hne : next ≠ a.modem.state := by
        rintro rfl
        exact Nat.lt_irrefl _ hnext
      have hnow : p.now ≤ a.clock.entered + limit gap (stage a.modem.state) := by
        have hhigh := (h.inTime.bounds hpolled).2
        unfold limit
        omega
      refine .inr ⟨hidle, ?_, ?_⟩
      · rw [decide_eq_true hne]
        exact h.inTime.go hpolled.1 hnow hnext
      · rw [decide_eq_true hne]
        rfl

/-- `HARDWARE_IS_OK` is not left by `Modem::Update`. -/
theorem step_of_ok (hok : a.modem.state = .HARDWARE_IS_OK) (p : Poll) :
    ∃ b, a.step p = some b ∧ b.modem.state = .HARDWARE_IS_OK := by
  have hupdate : (a.modem.update p.toEnv).1 = a.modem := by
    unfold update
    rw [hok]
  unfold step
  simp only [hupdate]
  rw [if_neg (by rw [hok]; decide)]
  exact ⟨_, rfl, hok⟩

theorem started_of_step (hstep : a.step p = some b) : b.clock.started = a.clock.started := by
  obtain ⟨-, hb⟩ := Option.ite_none_left_eq_some.mp hstep
  obtain rfl := Option.some.inj hb
  rfl

/-- What holds all along: in `HARDWARE_IS_OK`, or sound before it. -/
structure Timely (gap start : ℕ) (a : Attempt) : Prop where
  ok_or_sound : a.modem.state = .HARDWARE_IS_OK ∨ Sound gap a
  started : a.clock.started = start

theorem Timely.step {start : ℕ} (h : Timely gap start a) (hgap : gap ≤ 2 ^ 31)
    (hpolled : Polled gap a p) (hstep : a.step p = some b) : Timely gap start b := by
  refine ⟨?_, (started_of_step hstep).trans h.started⟩
  by_cases hok : a.modem.state = .HARDWARE_IS_OK
  · obtain ⟨c, hc, hstate⟩ := step_of_ok hok p
    obtain rfl := Option.some.inj (hstep.symm.trans hc)
    exact .inl hstate
  · exact ((h.ok_or_sound.resolve_left hok).step hgap hpolled hok).2 b hstep

theorem Sound.polled_le (h : Sound gap a) (hok : a.modem.state ≠ .HARDWARE_IS_OK) :
    a.clock.polled ≤ a.clock.started + 9850 + 4 * gap := by
  have hentered := h.inTime.entered
  have hpolled := h.inTime.polled
  have hbudget := budget_status gap
  have hlast : stage a.modem.state ≤ 4 := by
    cases hstate : a.modem.state with
    | IDLE => exact absurd hstate h.idle
    | HARDWARE_IS_OK => exact absurd hstate hok
    | _ => decide
  rcases Nat.lt_or_ge (stage a.modem.state) 4 with hearlier | hlater
  · have htotal := h.inTime.polled_le (Nat.le_add_right _ _) hearlier
    omega
  · have hwait := wait_le (stage a.modem.state)
    have hstage : stage a.modem.state = 4 := Nat.le_antisymm hlast hlater
    rw [hstage] at hentered hpolled hwait
    omega

/-- **The power sequence is over, or given up, in time.**  With a call in every `gap`: at a call later
than 9.85 seconds and four gaps after the `IDLE` step the hardware is in order, unless the attempt was
given up; and a call gives it up exactly if it comes later than the pin may take and finds it low. -/
theorem powered_in_time (hgap : gap ≤ 2 ^ 31) {m : Modem} {first : Poll} {ps : List Poll}
    (hrun : LTS.Run (LTS.Guarded (Polled gap) (LTS.stepOf step)) (begun m first) ps a) :
    (a.modem.state = .HARDWARE_IS_OK ∨ a.clock.polled ≤ first.now + 9850 + 4 * gap) ∧
      ∀ p, Polled gap a p → (a.step p = none ↔ TooLate a p) := by
  have htimely : Timely gap first.now a := by
    refine hrun.invariant (show Timely gap first.now (begun m first) from ?_) ?_
    · exact ⟨.inr (sound_begun m first), rfl⟩
    · rintro a p b h ⟨hpolled, hstep⟩
      exact h.step hgap hpolled hstep
  by_cases hok : a.modem.state = .HARDWARE_IS_OK
  · refine ⟨.inl hok, fun p _ => ?_⟩
    obtain ⟨b, hb, -⟩ := step_of_ok hok p
    rw [hb]
    refine iff_of_false (by simp) ?_
    rintro (⟨hstate, -⟩ | ⟨hstate, -⟩)
    · exact absurd (hstate.symm.trans hok) (by decide)
    · exact absurd (hstate.symm.trans hok) (by decide)
  · have hsound := htimely.ok_or_sound.resolve_left hok
    have hbudget := hsound.polled_le hok
    rw [htimely.started] at hbudget
    exact ⟨.inr hbudget, fun p hpolled => (hsound.step hgap hpolled hok).1⟩

/-- Calls every second, and a modem that shows its status at the last moment. -/
def lateStatus : List Poll :=
  [⟨4294967000, false, false⟩, ⟨4294968000, false, false⟩, ⟨4294969000, false, false⟩,
    ⟨4294970000, false, false⟩, ⟨4294971000, true, false⟩, ⟨4294972000, true, false⟩,
    ⟨4294973000, true, false⟩, ⟨4294974000, true, false⟩, ⟨4294975000, true, false⟩,
    ⟨4294976000, true, false⟩, ⟨4294977000, true, false⟩, ⟨4294978000, true, false⟩,
    ⟨4294979000, true, false⟩]

/-- A status that is late, with the counter wrapped in the course of the sequence: one more call
without it gives up. -/
theorem powered_in_time_lateStatus : ∃ a,
    LTS.Run (LTS.Guarded (Polled 1000) (LTS.stepOf step)) (begun .boot ⟨4294966000, false, false⟩)
      lateStatus a ∧
      a.modem.state = .WAIT_5000_MS ∧ a.clock.polled ≤ 4294966000 + 9850 + 4 * 1000 ∧
        a.step ⟨4294980000, true, false⟩ = none := by
  have hrun : LTS.Run (LTS.Guarded (Polled 1000) (LTS.stepOf step))
      (begun .boot ⟨4294966000, false, false⟩) lateStatus _ := LTS.run_of_execRun_guardedBy rfl
  obtain ⟨hover, hgives⟩ := powered_in_time (by decide) hrun
  exact ⟨_, hrun, by decide, hover.resolve_left (by decide),
    (hgives ⟨4294980000, true, false⟩ (by decide)).mpr (.inr (by decide))⟩

end Attempt

end Modem

end USKD
