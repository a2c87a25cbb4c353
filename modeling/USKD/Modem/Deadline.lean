import USKD.Lib.Stages
import USKD.Modem.SIM868

/-!
# The set-up is over, or given up, in time

Each state between `START` and `RUNNING_MQTT` waits for ten seconds, for a minute or for 160 seconds,
and resets the modem when a call finds that the time is over.  A call looks at the time unless
`ProcessUnsolicited` ends it; the call without an answer, behind every other one, always does.

So six minutes after `ATE0` the device is in `RUNNING_MQTT` or has reset the modem, whatever the
modem answers and however often the calls come, as long as there is one in 24 days: the millisecond
counter wraps, and a meter that is not looked at for longer shows less than has passed.
-/

namespace USKD

namespace SIM868

open Stages

/-- The states in their order. -/
def order : List State :=
  [.START, .WAIT_ATE0, .WAIT_BAUDRADE, .WAIT_GSMBUSY, .WAIT_CREG_INIT, .WAIT_REGISTRATION,
    .WAIT_IP_INITIAL, .WAIT_CSTT, .WAIT_IP_START, .WAIT_CIICR, .WAIT_IP_GPRSACT, .WAIT_CIFSR,
    .WAIT_IP_STATUS, .WAIT_TCP_CONNECT, .WAIT_CIPHEAD, .WAIT_CGNSPWR, .WAIT_CGNSURC, .RUNNING_MQTT]

/-- The place of a state. -/
def stage (state : State) : ℕ := order.idxOf state

/-- How long a state waits, by its place; nothing is waited for in `START`. -/
def limit : ℕ → ℕ
  | 0 => 0
  | k + 1 => (waits (order.getD (k + 1) .RUNNING_MQTT)).toNat

theorem limit_stage {state : State} (h : state ≠ .START) :
    limit (stage state) = (waits state).toNat := by
  cases state with
  | START => exact absurd rfl h
  | _ => rfl

theorem limit_le (k : ℕ) : limit k ≤ 160000 := by
  have hwaits : ∀ state, (waits state).toNat ≤ 160000 := by
    intro state
    cases state <;> decide
  cases k with
  | zero => exact Nat.zero_le _
  | succ k => exact hwaits _

theorem stage_lt {state : State} (h : state ≠ .RUNNING_MQTT) : stage state < 17 := by
  cases state with
  | RUNNING_MQTT => exact absurd rfl h
  | _ => decide

/-- Everything up to `RUNNING_MQTT` takes six minutes. -/
theorem budget_running : budget limit 17 = 360000 := by decide

/-! ## One call -/

variable {homeVersion : Bool} {s : SIM868} {now : UInt32} {answer : List UInt8} {e : Effect}

/-- **A call that does not give up** and looks at the time: there is time left, and the state stays
or a later one is entered. -/
structure Moves (s : SIM868) (now : UInt32) (e : Effect) : Prop where
  left : s.stateMeter.elapsedTime now ≤ waits s.state
  next : e.sim = s ∨ ∃ next, e.sim = s.set next now ∧ stage s.state < stage next

theorem moves_await {time : UInt32} {found : Option Bool} {next : State}
    {command : Option (List UInt8)} (h : s.await now time found next command = some e)
    (hreset : e.reset = false) (htime : time = waits s.state) (hnext : stage s.state < stage next) :
    Moves s now e := by
  unfold await at h
  by_cases hleft : s.stateMeter.elapsedTime now ≤ time
  · rw [if_pos hleft] at h
    obtain ⟨b, -, rfl⟩ := Option.map_eq_some_iff.mp h
    refine ⟨htime ▸ hleft, ?_⟩
    cases b with
    | false => exact .inl rfl
    | true => exact .inr ⟨next, rfl, hnext⟩
  · rw [if_neg hleft] at h
    obtain rfl := Option.some.inj h
    exact absurd hreset (by simp [resets])

theorem moves_dialogue (h : s.dialogue homeVersion now answer = some e) (hreset : e.reset = false)
    (hstart : s.state ≠ .START) (hrunning : s.state ≠ .RUNNING_MQTT) : Moves s now e := by
  unfold dialogue at h
  cases hstate : s.state with
  | START => exact absurd hstate hstart
  | RUNNING_MQTT => exact absurd hstate hrunning
  | WAIT_TCP_CONNECT =>
      rw [hstate] at h
      by_cases hleft : s.stateMeter.elapsedTime now ≤ 160000
      · obtain ⟨connected, -, h⟩ := Option.bind_eq_some_iff.mp ((if_pos hleft).symm.trans h)
        refine ⟨by rwa [hstate], ?_⟩
        cases connected with
        | true =>
            obtain rfl := Option.some.inj h
            exact .inr ⟨.WAIT_CIPHEAD, rfl, by rw [hstate]; decide⟩
        | false =>
            obtain ⟨fail, -, h⟩ := Option.bind_eq_some_iff.mp h
            obtain rfl := Option.some.inj h
            cases fail with
            | true => exact absurd hreset (by simp [resets])
            | false => exact .inl rfl
      · obtain rfl := Option.some.inj ((if_neg hleft).symm.trans h)
        exact absurd hreset (by simp [resets])
  | WAIT_CIPHEAD =>
      rw [hstate] at h
      refine moves_await h hreset (by rw [hstate]; rfl) ?_
      rw [hstate]
      cases homeVersion <;> decide
  | _ =>
      rw [hstate] at h
      exact moves_await h hreset (by rw [hstate]; rfl) (by rw [hstate]; decide)

/-- A call without an answer always looks at the time. -/
theorem moves_of_update (h : s.update homeVersion now answer = some e) (hreset : e.reset = false)
    (hstart : s.state ≠ .START) (hrunning : s.state ≠ .RUNNING_MQTT) :
    Moves s now e ∨ answer ≠ [] ∧ e.sim = s := by
  obtain ⟨unsolicited, hunsolicited, h⟩ := Option.bind_eq_some_iff.mp h
  cases unsolicited with
  | passed => exact .inl (moves_dialogue h hreset hstart hrunning)
  | handled =>
      obtain rfl := Option.some.inj h
      refine .inr ⟨?_, rfl⟩
      rintro rfl
      exact absurd hunsolicited (by decide)
  | reset =>
      obtain rfl := Option.some.inj h
      exact absurd hreset (by simp [resets])

/-- `RUNNING_MQTT` is not left. -/
theorem state_of_running (h : s.update homeVersion now answer = some e)
    (hrunning : s.state = .RUNNING_MQTT) : e.sim.state = .RUNNING_MQTT := by
  cases updates_of_update h with
  | keeps | resets | runs => exact hrunning
  | starts _ hstart => exact absurd (hstart.symm.trans hrunning) (by decide)
  | goes _ _ hnot => exact absurd hrunning hnot

/-! ## An attempt -/

/-- A call, in milliseconds that do not wrap. -/
structure Call where
  now : ℕ
  answer : List UInt8

/-- An attempt to set the modem up, from `ATE0` until the modem is reset. -/
structure Attempt where
  sim : SIM868
  clock : Clock

namespace Attempt

/-- `ATE0` has been transmitted. -/
def begun (s : SIM868) (now : ℕ) : Attempt := ⟨s.set .WAIT_ATE0 (.ofNat now), .start now⟩

/-- A call of `SIM868::Update`; one that resets the modem ends the attempt. -/
def step (homeVersion : Bool) (a : Attempt) (c : Call) : Option Attempt :=
  (a.sim.update homeVersion (.ofNat c.now) c.answer).bind fun e =>
    if e.reset then none
    else some ⟨e.sim, a.clock.tick c.now (c.answer = []) (e.sim.state ≠ a.sim.state)⟩

/-- The calls are in order, and the modem is polled every 24 days. -/
def Polled (a : Attempt) (c : Call) : Prop := a.clock.Follows (2 ^ 31) c.now

instance (a : Attempt) : DecidablePred (Polled a) :=
  fun c => inferInstanceAs (Decidable (a.clock.Follows (2 ^ 31) c.now))

/-- **The invariant**, before `RUNNING_MQTT`: the state is in time, and its meter was reset when it
was entered. -/
structure Sound (a : Attempt) : Prop where
  started : a.sim.state ≠ .START
  inTime : InTime limit limit (stage a.sim.state) a.clock
  meter : a.sim.stateMeter = .reset (.ofNat a.clock.entered)

variable {a b : Attempt} {c : Call}

theorem sound_begun (s : SIM868) (now : ℕ) : Sound (begun s now) :=
  ⟨by simp [begun, set], inTime_start limit limit _ now, rfl⟩

/-- What the meter shows has passed. -/
theorem Sound.le_of_left (h : Sound a) (hpolled : Polled a c)
    (hleft : a.sim.stateMeter.elapsedTime (.ofNat c.now) ≤ waits a.sim.state) :
    c.now ≤ a.clock.entered + limit (stage a.sim.state) := by
  obtain ⟨hlow, hhigh⟩ := h.inTime.bounds hpolled
  have hlimit := limit_le (stage a.sim.state)
  rw [h.meter, TimeMeterMS.elapsedTime_le_iff _ hlow (by omega), ← limit_stage h.started] at hleft
  exact hleft

theorem Sound.step (h : Sound a) (hrunning : a.sim.state ≠ .RUNNING_MQTT) (hpolled : Polled a c)
    (hstep : a.step homeVersion c = some b) : Sound b := by
  obtain ⟨e, he, hb⟩ := Option.bind_eq_some_iff.mp hstep
  split at hb
  · exact absurd hb (by simp)
  rename_i hreset
  obtain rfl := Option.some.inj hb
  rw [Bool.not_eq_true] at hreset
  rcases moves_of_update he hreset h.started hrunning with ⟨hleft, hsame | ⟨next, hnext, hlater⟩⟩ |
    ⟨hanswer, hsame⟩
  · -- the state stays, and there is time left
    rw [hsame]
    refine ⟨h.started, ?_, ?_⟩
    · rw [decide_eq_false (not_not.mpr rfl)]
      exact h.inTime.stay hpolled.1 fun _ => h.le_of_left hpolled hleft
    · rw [decide_eq_false (not_not.mpr rfl)]
      exact h.meter
  · -- a later state is entered
    have hne : next ≠ a.sim.state := by
      rintro rfl
      exact absurd hlater (Nat.lt_irrefl _)
    rw [hnext]
    refine ⟨?_, ?_, ?_⟩
    · rintro (rfl : next = .START)
      exact absurd hlater (Nat.not_lt_zero _)
    · rw [decide_eq_true (show (a.sim.set next _).state ≠ a.sim.state from hne)]
      exact h.inTime.go hpolled.1 (h.le_of_left hpolled hleft) hlater
    · rw [decide_eq_true (show (a.sim.set next _).state ≠ a.sim.state from hne)]
      rfl
  · -- the answer was handled before
    rw [hsame]
    refine ⟨h.started, ?_, ?_⟩
    · rw [decide_eq_false (not_not.mpr rfl)]
      exact h.inTime.stay hpolled.1 fun hpoll => absurd (of_decide_eq_true hpoll) hanswer
    · rw [decide_eq_false (not_not.mpr rfl)]
      exact h.meter

/-- What holds all along: in `RUNNING_MQTT`, or sound before it. -/
structure Timely (start : ℕ) (a : Attempt) : Prop where
  running_or_sound : a.sim.state = .RUNNING_MQTT ∨ Sound a
  started : a.clock.started = start

theorem timely_step {start : ℕ} (h : Timely start a) (hpolled : Polled a c)
    (hstep : a.step homeVersion c = some b) : Timely start b := by
  have hcall := hstep
  obtain ⟨e, he, hb⟩ := Option.bind_eq_some_iff.mp hstep
  split at hb
  · exact absurd hb (by simp)
  obtain rfl := Option.some.inj hb
  refine ⟨?_, h.started⟩
  by_cases hrunning : a.sim.state = .RUNNING_MQTT
  · exact .inl (state_of_running he hrunning)
  · exact .inr ((h.running_or_sound.resolve_left hrunning).step hrunning hpolled hcall)

/-- **The set-up is over, or given up, in six minutes**: in every attempt, whatever the modem answers
and whenever the calls come, at a poll later than six minutes after `ATE0` the state is
`RUNNING_MQTT`, unless the modem has been reset; and no state waits for longer than it may. -/
theorem set_up_in_time (s : SIM868) (start : ℕ) {cs : List Call}
    (hrun : LTS.Run (LTS.Guarded Polled (LTS.stepOf (step homeVersion))) (begun s start) cs a) :
    a.sim.state = .RUNNING_MQTT ∨
      a.clock.polled ≤ start + 360000 ∧
        a.clock.polled ≤ a.clock.entered + (waits a.sim.state).toNat := by
  have htimely : Timely start a := by
    refine hrun.invariant (show Timely start (begun s start) from ?_) ?_
    · exact ⟨.inr (sound_begun s start), rfl⟩
    · rintro a c b h ⟨hpolled, hstep⟩
      exact timely_step h hpolled hstep
  obtain ⟨hrunning | hsound, hstart⟩ := htimely
  · exact .inl hrunning
  · by_cases hrunning : a.sim.state = .RUNNING_MQTT
    · exact .inl hrunning
    · have hbudget := hsound.inTime.polled_le le_rfl (stage_lt hrunning)
      have hlimit := hsound.inTime.polled
      rw [budget_running, hstart] at hbudget
      rw [limit_stage hsound.started] at hlimit
      exact .inr ⟨hbudget, hlimit⟩

/-- An answer just in time, with the counter wrapped before it, and a poll at the last moment. -/
def slowModem : List Call :=
  [⟨4294971296, []⟩, ⟨4294972196, ascii "OK"⟩, ⟨4294982196, []⟩]

/-- A slow modem. -/
theorem set_up_in_time_slowModem : ∃ a,
    LTS.Run (LTS.Guarded Polled (LTS.stepOf (step false))) (begun boot 4294962296) slowModem a ∧
      a.sim.state = .WAIT_BAUDRADE ∧ a.clock.polled ≤ 4294962296 + 360000 ∧
        a.clock.polled ≤ a.clock.entered + 10000 := by
  have hrun : LTS.Run (LTS.Guarded Polled (LTS.stepOf (step false))) (begun boot 4294962296)
      slowModem _ := LTS.run_of_execRun_guardedBy rfl
  obtain ⟨hbudget, hlimit⟩ :=
    (set_up_in_time boot 4294962296 hrun).resolve_left (by decide)
  exact ⟨_, hrun, rfl, hbudget, hlimit⟩

end Attempt

end SIM868

end USKD
