import USKD.Lib.Stages
import USKD.Modem.MQTT.Retries

/-!
# A request is over in time

A request waits a second for the prompt and five for the confirmation, and finds that the time is
over at the next call; a retry begins with the call behind that.  So five attempts take half a
minute and ten times what lies between two calls, whatever is answered: then the request is finished
or has reset the modem (`over_in_time`).

`IsFinished` compares with a moment and does not take a difference.  A call that misses this moment
while the counter wraps misses it for seven weeks, so that the bound is one for the time between two
wraps.
-/

namespace USKD.MQTT.Request

open Stages

/-- The place of a state in its attempt. -/
def place : RequestMQTT.State → ℕ
  | .IDLE => 0
  | .NEED_SEND => 1
  | .WAIT_CONFIRM => 2
  | .FINISHED => 3

/-- The stages of five attempts. -/
def stage (r : Request) : ℕ := 3 * (5 - r.counter).toNat + place r.state

/-- The last moment at which a call leaves the stage as it is. -/
def wait (k : ℕ) : ℕ :=
  match k % 3 with
  | 0 => 0
  | 1 => 1000
  | _ => 4999

/-- How long a stage lasts: an attempt as a whole and its first state are left behind their wait. -/
def limit (gap k : ℕ) : ℕ :=
  match k % 3 with
  | 0 => gap
  | 1 => 1000
  | _ => 4999 + gap

theorem wait_stage (r : Request) : wait r.stage = wait (place r.state) := by
  unfold wait stage
  rw [Nat.mul_add_mod]

theorem wait_le_limit (gap k : ℕ) : wait k ≤ limit gap k := by
  unfold wait limit
  split
  · exact Nat.zero_le _
  · exact Nat.le_refl _
  · exact Nat.le_add_right _ _

theorem limit_idle (gap m : ℕ) : limit gap (3 * m) = gap := by
  unfold limit
  rw [Nat.mul_mod_right]
  rfl

theorem limit_prompt (gap m : ℕ) : limit gap (3 * m + 1) = 1000 := by
  unfold limit
  rw [Nat.mul_add_mod]
  rfl

theorem limit_confirm (gap m : ℕ) : limit gap (3 * m + 2) = 4999 + gap := by
  unfold limit
  rw [Nat.mul_add_mod]
  rfl

/-- What is left of an attempt, in `WAIT_CONFIRM` and in `NEED_SEND`. -/
theorem budget_confirm (gap m : ℕ) :
    budget (limit gap) (3 * m + 3) = budget (limit gap) (3 * m + 2) + (4999 + gap) := by
  rw [budget_succ, limit_confirm]

theorem budget_prompt (gap m : ℕ) :
    budget (limit gap) (3 * m + 3) = budget (limit gap) (3 * m + 1) + 1000 + (4999 + gap) := by
  rw [budget_confirm, budget_succ, limit_prompt]

/-- The five attempts, together. -/
theorem budget_attempts (gap : ℕ) : budget (limit gap) 15 = 29995 + 10 * gap := by
  simp only [budget, Finset.sum_range_succ, Finset.sum_range_zero, limit, Nat.reduceMod]
  omega

/-! ## One call -/

/-- **What a call leaves** if it does not reset the modem. -/
inductive Moves (r : Request) (meter : TimeMeterMS) (now : UInt32) : Request → TimeMeterMS → Prop
  | stays (hidle : r.state ≠ .IDLE)
      (hprompt : r.state = .NEED_SEND → meter.elapsedTime now ≤ 1000)
      (hconfirm : r.state = .WAIT_CONFIRM → meter.isFinished now = false) : Moves r meter now r meter
  | asks (hstate : r.state = .IDLE) :
      Moves r meter now { r with state := .NEED_SEND } (.reset now)
  | sends (hstate : r.state = .NEED_SEND) (htime : meter.elapsedTime now ≤ 1000) :
      Moves r meter now { r with state := .WAIT_CONFIRM } (meter.setResponseTime now 5000)
  | retries (hcounter : 1 < r.counter) (hstate : r.state = .NEED_SEND ∨ r.state = .WAIT_CONFIRM) :
      Moves r meter now { r with
        counter := r.counter - 1
        state := .IDLE } meter
  | finishes (r' : Request) (meter' : TimeMeterMS) (hfinished : r'.state = .FINISHED) :
      Moves r meter now r' meter'

variable {r : Request} {meter : TimeMeterMS} {connected : Bool} {now : UInt32}
  {answer : List UInt8}

theorem moves_dump (hstate : r.state = .NEED_SEND ∨ r.state = .WAIT_CONFIRM)
    (hreset : (r.dump meter).call ≠ .modemReset) :
    Moves r meter now (r.dump meter).after (r.dump meter).meter := by
  by_cases hcounter : r.counter - 1 > 0
  · have hdump : r.dump meter = ⟨{ r with
        counter := r.counter - 1
        state := .IDLE }, meter, [], .nothing⟩ := if_pos hcounter
    rw [hdump]
    exact .retries (by omega) hstate
  · have hdump : r.dump meter = ⟨{ r with counter := r.counter - 1 }, meter, [], .modemReset⟩ :=
      if_neg hcounter
    rw [hdump] at hreset
    exact absurd rfl hreset

/-- **`RequestMQTT::Update`**, one call. -/
theorem moves_update (hfinished : r.state ≠ .FINISHED)
    (hreset : (r.update meter connected now answer).call ≠ .modemReset) :
    Moves r meter now (r.update meter connected now answer).after
      (r.update meter connected now answer).meter := by
  unfold update at hreset ⊢
  cases hstate : r.state with
  | FINISHED => exact absurd hstate hfinished
  | IDLE => exact .asks hstate
  | NEED_SEND =>
      rw [hstate] at hreset
      simp only at hreset ⊢
      by_cases htime : meter.elapsedTime now > 1000
      · rw [if_pos htime] at hreset ⊢
        exact moves_dump (.inl hstate) hreset
      · rw [if_neg htime]
        by_cases hanswer : answer = ascii ">"
        · rw [if_pos hanswer]
          exact .sends hstate (UInt32.not_lt.mp htime)
        · rw [if_neg hanswer]
          refine .stays (by rw [hstate]; decide) (fun _ => UInt32.not_lt.mp htime) fun hwait => ?_
          exact absurd (hstate.symm.trans hwait) (by decide)
  | WAIT_CONFIRM =>
      rw [hstate] at hreset
      simp only at hreset ⊢
      by_cases htime : meter.isFinished now = true
      · rw [if_pos htime] at hreset ⊢
        exact moves_dump (.inr hstate) hreset
      · rw [if_neg htime]
        by_cases hanswer : answer = confirmation r.request
        · rw [if_pos hanswer]
          refine .finishes _ _ ?_
          cases r.request.isCONNECT <;> rfl
        · rw [if_neg hanswer]
          refine .stays (by rw [hstate]; decide) (fun hneed => ?_) fun _ =>
            Bool.eq_false_iff.mpr htime
          exact absurd (hstate.symm.trans hneed) (by decide)

/-! ## Runs -/

/-- A call, in milliseconds that do not wrap. -/
structure TimedCall where
  connected : Bool
  now : ℕ
  answer : List UInt8

/-- The current request, the meter, and the clock since the request was made current. -/
structure Timed where
  request : Request
  meter : TimeMeterMS
  clock : Clock

namespace Timed

/-- A new request. -/
def new (request : RequestMQTT) (meter : TimeMeterMS) (start : ℕ) : Timed :=
  ⟨.new request, meter, .start start⟩

/-- A call; one that resets the modem is the last one. -/
def step (a : Timed) (c : TimedCall) : Option Timed :=
  let e := a.request.update a.meter c.connected (.ofNat c.now) c.answer
  if e.call = .modemReset then none
  else some ⟨e.after, e.meter, a.clock.tick c.now true (e.after.stage ≠ a.request.stage)⟩

/-- There is a call in every `gap`, and the counter does not wrap. -/
def Polled (gap : ℕ) (a : Timed) (c : TimedCall) : Prop :=
  a.clock.Follows gap c.now ∧ a.clock.started / 2 ^ 32 = (c.now + 5000) / 2 ^ 32

instance (gap : ℕ) (a : Timed) : DecidablePred (Polled gap a) :=
  fun _ => inferInstanceAs (Decidable (_ ∧ _))

/-- **The invariant** of a request that is not finished: there are attempts left, it is in time, and
the meter is what the state was entered with. -/
structure Sound (gap : ℕ) (a : Timed) : Prop where
  counter : 1 ≤ a.request.counter ∧ a.request.counter ≤ 5
  inTime : InTime wait (limit gap) a.request.stage a.clock
  asked : a.request.state = .NEED_SEND → a.meter = .reset (.ofNat a.clock.entered)
  sent : a.request.state = .WAIT_CONFIRM →
    a.meter.timeResponse = .ofNat (a.clock.entered + 5000) ∧
      a.clock.started / 2 ^ 32 = (a.clock.entered + 5000) / 2 ^ 32

variable {gap : ℕ} {a b : Timed} {c : TimedCall}

theorem sound_new (request : RequestMQTT) (meter : TimeMeterMS) (start : ℕ) :
    Sound gap (new request meter start) where
  counter := ⟨show (1 : ℤ) ≤ 5 by decide, le_refl (5 : ℤ)⟩
  inTime := inTime_start _ _ _ _
  asked h := absurd h (by simp [new, Request.new])
  sent h := absurd h (by simp [new, Request.new])

/-- In `NEED_SEND` the meter shows what has passed. -/
theorem Sound.le_of_prompt (h : Sound gap a) (hgap : gap < 2 ^ 31) (hpolled : Polled gap a c)
    (hstate : a.request.state = .NEED_SEND) (hleft : a.meter.elapsedTime (.ofNat c.now) ≤ 1000) :
    c.now ≤ a.clock.entered + 1000 := by
  obtain ⟨hlow, hhigh⟩ := h.inTime.bounds hpolled.1
  have hwait : wait a.request.stage = 1000 := by rw [wait_stage, hstate]; rfl
  rw [h.asked hstate, TimeMeterMS.elapsedTime_le_iff _ hlow (by omega)] at hleft
  exact hleft

/-- In `WAIT_CONFIRM` it is compared with the moment that was set. -/
theorem Sound.le_of_confirm (h : Sound gap a) (hpolled : Polled gap a c)
    (hstate : a.request.state = .WAIT_CONFIRM)
    (hleft : a.meter.isFinished (.ofNat c.now) = false) : c.now ≤ a.clock.entered + 4999 := by
  obtain ⟨hnow, hwrap⟩ := hpolled
  obtain ⟨hlow, -⟩ := h.inTime.bounds hnow
  obtain ⟨hresponse, hentered⟩ := h.sent hstate
  rw [TimeMeterMS.isFinished, decide_eq_false_iff_not, hresponse, ge_iff_le,
    UInt32.le_iff_toNat_le, UInt32.toNat_ofNat', UInt32.toNat_ofNat'] at hleft
  omega

/-- A retry is begun within what is left of the attempt. -/
theorem Sound.le_of_retry (h : Sound gap a) (hpolled : Polled gap a c)
    (hstate : a.request.state = .NEED_SEND ∨ a.request.state = .WAIT_CONFIRM) :
    c.now + budget (limit gap) a.request.stage ≤
      a.clock.entered + budget (limit gap) (3 * (5 - a.request.counter).toNat + 3) := by
  have hhigh := (h.inTime.bounds hpolled.1).2
  rw [wait_stage] at hhigh
  unfold stage
  rcases hstate with hstate | hstate
  · rw [hstate] at hhigh ⊢
    have hwait : wait (place .NEED_SEND) = 1000 := rfl
    have hplace : place .NEED_SEND = 1 := rfl
    rw [budget_prompt, hplace]
    omega
  · rw [hstate] at hhigh ⊢
    have hwait : wait (place .WAIT_CONFIRM) = 4999 := rfl
    have hplace : place .WAIT_CONFIRM = 2 := rfl
    rw [budget_confirm, hplace]
    omega

/-- **Step lemma.** -/
theorem Sound.step (h : Sound gap a) (hgap : gap < 2 ^ 31) (hpolled : Polled gap a c)
    (hfinished : a.request.state ≠ .FINISHED) (hstep : a.step c = some b) :
    b.request.state = .FINISHED ∨ Sound gap b := by
  obtain ⟨hreset, hb⟩ := Option.ite_none_left_eq_some.mp hstep
  obtain rfl := Option.some.inj hb
  have hmoves := @moves_update a.request a.meter c.connected (.ofNat c.now) c.answer hfinished hreset
  generalize (a.request.update a.meter c.connected (.ofNat c.now) c.answer).after = r' at hmoves ⊢
  generalize (a.request.update a.meter c.connected (.ofNat c.now) c.answer).meter = meter' at hmoves ⊢
  obtain ⟨hnow, hwrap⟩ := id hpolled
  obtain ⟨hfew, hmany⟩ := h.counter
  cases hmoves with
  | finishes r' meter' hdone => exact .inl hdone
  | stays hidle hprompt hconfirm =>
      refine .inr ⟨h.counter, ?_, ?_, ?_⟩
      · rw [decide_eq_false (not_not.mpr rfl)]
        refine h.inTime.stay hnow.1 fun _ => ?_
        rw [wait_stage]
        cases hstate : a.request.state with
        | IDLE => exact absurd hstate hidle
        | FINISHED => exact absurd hstate hfinished
        | NEED_SEND => exact h.le_of_prompt hgap hpolled hstate (hprompt hstate)
        | WAIT_CONFIRM => exact h.le_of_confirm hpolled hstate (hconfirm hstate)
      · rw [decide_eq_false (not_not.mpr rfl)]
        exact h.asked
      · rw [decide_eq_false (not_not.mpr rfl)]
        exact h.sent
  | asks hstate =>
      have hlater : a.request.stage < stage { a.request with state := .NEED_SEND } := by
        simp only [stage, hstate, place]
        omega
      have hlimit : c.now ≤ a.clock.entered + limit gap a.request.stage := by
        have hhigh := (h.inTime.bounds hnow).2
        rw [wait_stage, hstate] at hhigh
        have hwait : wait (place .IDLE) = 0 := rfl
        have hplace : place .IDLE = 0 := rfl
        rw [stage, hstate, hplace, Nat.add_zero, limit_idle]
        omega
      refine .inr ⟨h.counter, ?_, ?_, fun hwait => absurd hwait (by simp)⟩
      · rw [decide_eq_true hlater.ne']
        exact h.inTime.go hnow.1 hlimit hlater
      · rw [decide_eq_true hlater.ne']
        exact fun _ => rfl
  | sends hstate htime =>
      have hlater : a.request.stage < stage { a.request with state := .WAIT_CONFIRM } := by
        simp only [stage, hstate, place]
        omega
      have hlimit : c.now ≤ a.clock.entered + limit gap a.request.stage := by
        have hplace : place .NEED_SEND = 1 := rfl
        rw [stage, hstate, hplace, limit_prompt]
        exact h.le_of_prompt hgap hpolled hstate htime
      refine .inr ⟨h.counter, ?_, fun hneed => absurd hneed (by simp), ?_⟩
      · rw [decide_eq_true hlater.ne']
        exact h.inTime.go hnow.1 hlimit hlater
      · rw [decide_eq_true hlater.ne']
        refine fun _ => ⟨?_, hwrap⟩
        show UInt32.ofNat c.now + 5000 = .ofNat (c.now + 5000)
        exact (UInt32.ofNat_add _ _).symm
  | retries hcounter hstate =>
      have hnext : stage { a.request with
          counter := a.request.counter - 1
          state := .IDLE } = 3 * (5 - a.request.counter).toNat + 3 := by
        show 3 * (5 - (a.request.counter - 1)).toNat + 0 = _
        omega
      have hlater : a.request.stage ≠ 3 * (5 - a.request.counter).toNat + 3 := by
        unfold stage
        rcases hstate with hstate | hstate
        · rw [hstate]
          exact Nat.ne_of_lt (Nat.add_lt_add_left (by decide) _)
        · rw [hstate]
          exact Nat.ne_of_lt (Nat.add_lt_add_left (by decide) _)
      refine .inr ⟨⟨?_, ?_⟩, ?_, fun hneed => absurd hneed (by simp),
        fun hwait => absurd hwait (by simp)⟩
      · show 1 ≤ a.request.counter - 1
        omega
      · show a.request.counter - 1 ≤ 5
        omega
      · simp only [hnext]
        rw [decide_eq_true hlater.symm]
        exact h.inTime.skip hnow.1 (h.le_of_retry hpolled hstate)

/-- What holds all along. -/
structure Timely (gap start : ℕ) (a : Timed) : Prop where
  finished_or_sound : a.request.state = .FINISHED ∨ Sound gap a
  started : a.clock.started = start

theorem finished_of_step (hfinished : a.request.state = .FINISHED) (hstep : a.step c = some b) :
    b.request.state = .FINISHED := by
  obtain ⟨-, hb⟩ := Option.ite_none_left_eq_some.mp hstep
  obtain rfl := Option.some.inj hb
  have hupdate : a.request.update a.meter c.connected (.ofNat c.now) c.answer =
      ⟨a.request, a.meter, [], .nothing⟩ := by
    unfold update
    rw [hfinished]
  show (a.request.update a.meter c.connected (.ofNat c.now) c.answer).after.state = _
  rw [hupdate]
  exact hfinished

theorem Timely.step {start : ℕ} (h : Timely gap start a) (hgap : gap < 2 ^ 31)
    (hpolled : Polled gap a c) (hstep : a.step c = some b) : Timely gap start b := by
  refine ⟨?_, ?_⟩
  · by_cases hfinished : a.request.state = .FINISHED
    · exact .inl (finished_of_step hfinished hstep)
    · exact (h.finished_or_sound.resolve_left hfinished).step hgap hpolled hfinished hstep
  · obtain ⟨-, hb⟩ := Option.ite_none_left_eq_some.mp hstep
    obtain rfl := Option.some.inj hb
    exact h.started

theorem Sound.stage_lt (h : Sound gap a) (hfinished : a.request.state ≠ .FINISHED) :
    a.request.stage < 15 := by
  obtain ⟨hfew, hmany⟩ := h.counter
  have hplace : place a.request.state < 3 := by
    cases hstate : a.request.state with
    | FINISHED => exact absurd hstate hfinished
    | IDLE | NEED_SEND | WAIT_CONFIRM => decide
  unfold stage
  omega

/-- **A request is over in time.**  With a call in every `gap`, between two wraps of the counter: half
a minute and ten gaps after the request was made current it is finished or has reset the modem,
whatever the answers are. -/
theorem over_in_time (hgap : gap < 2 ^ 31) {request : RequestMQTT} {meter : TimeMeterMS}
    {start : ℕ} {calls : List TimedCall}
    (hrun : LTS.Run (LTS.Guarded (Polled gap) (LTS.stepOf step)) (new request meter start) calls a) :
    a.request.state = .FINISHED ∨ a.clock.polled ≤ start + 29995 + 10 * gap := by
  have htimely : Timely gap start a := by
    refine hrun.invariant (show Timely gap start (new request meter start) from ?_) ?_
    · exact ⟨.inr (sound_new request meter start), rfl⟩
    · rintro a c b h ⟨hpolled, hstep⟩
      exact h.step hgap hpolled hstep
  by_cases hfinished : a.request.state = .FINISHED
  · exact .inl hfinished
  · have hsound := htimely.finished_or_sound.resolve_left hfinished
    have hbudget := hsound.inTime.polled_le (wait_le_limit _ _) (hsound.stage_lt hfinished)
    rw [budget_attempts, htimely.started] at hbudget
    exact .inr (by omega)

/-- An attempt without a confirmation, in which each call comes as late as it may. -/
def unconfirmed (start : ℕ) : List TimedCall :=
  [⟨true, start + 1000, []⟩, ⟨true, start + 2000, ascii ">"⟩] ++
    [2999, 3999, 4999, 5999, 6999, 7999].map fun passed => ⟨true, start + passed, []⟩

/-- Four attempts, and a fifth one but for its last call, which would reset the modem. -/
def attempts : List TimedCall :=
  unconfirmed 0 ++ unconfirmed 7999 ++ unconfirmed 15998 ++ unconfirmed 23997 ++
    (unconfirmed 31996).dropLast

set_option maxRecDepth 10000 in
/-- A request that is never confirmed: it lasts but for one gap as long as it may. -/
theorem over_in_time_attempts : ∃ a,
    LTS.Run (LTS.Guarded (Polled 1000) (LTS.stepOf step))
      (new (.SUBSCRIBE ⟨ascii "a", by decide⟩) (.reset 0) 0) attempts a ∧
      a.request.state ≠ .FINISHED ∧ a.clock.polled ≤ 0 + 29995 + 10 * 1000 ∧
      a.clock.polled + 1000 = 0 + 29995 + 10 * 1000 := by
  have hrun : LTS.Run (LTS.Guarded (Polled 1000) (LTS.stepOf step))
      (new (.SUBSCRIBE ⟨ascii "a", by decide⟩) (.reset 0) 0) attempts _ :=
    LTS.run_of_execRun_guardedBy rfl
  exact ⟨_, hrun, by decide, (over_in_time (by decide) hrun).resolve_left (by decide), rfl⟩

end Timed

end USKD.MQTT.Request
