import Mathlib.Order.Monotone.Basic
import USKD.Lib.Run
import USKD.Lib.Trace
import USKD.Modem.Power

/-!
# The power sequence with its pins

`Modem.update` again, with what it does to the pins and in time that does not wrap.  The
counter may go on between two statements of a call, so that a call comes with the instants
of its statements; what the code sees of them are the lower 32 bits.

`pins` lists what was written to `GSM_PWR`, `GSM_PG` and `GSM_PWRKEY` and which input was
read high, each with its instant.  No other function of the repository drives these pins.

In `HARDWARE_IS_OK` a call runs `InData::Update`, which calls `SIM868::Update` for each
answer and once more with an empty one.  What these calls do is left open: `Modem::Reset`
may be called at any moment, and `Modem::Update` again from within.
-/

namespace USKD

/-- A pin that is written, or read high; `ok` is the entry into `HARDWARE_IS_OK`. -/
inductive PowerSequence.Pin
  | pwrOff
  | pgOutLow
  | pgInPullDown
  | pwrOn
  | pgHigh
  | keyLow
  | keyReleased
  | statusHigh
  | ok
deriving DecidableEq

/-- A call of `InData::Update` that is going on: more calls of `SIM868::Update` will come, or
the last one is going on. -/
inductive PowerSequence.Stage
  | scanning
  | last
deriving DecidableEq

/-- The modem, the time, what was done to the pins, the calls of `InData::Update` going on
(the innermost first), and the states in which `SIM868::Update` was called. -/
structure PowerSequence where
  modem : Modem
  clock : ℕ
  pins : List (ℕ × PowerSequence.Pin)
  calls : List PowerSequence.Stage
  answered : List Modem.State

namespace PowerSequence

/-- What a call of `Modem::Update` finds: the instants of its statements, and the inputs. -/
structure Env where
  time : ℕ → ℕ
  mono : Monotone time
  gsmPg : Bool
  gsmStatus : Bool

inductive Op
  /-- `Modem::Update` is called. -/
  | update (env : Env)
  /-- `Modem::Reset` is called. -/
  | reset
  /-- `InData::Update` calls `SIM868::Update` with an answer. -/
  | answer
  /-- `InData::Update` calls `SIM868::Update("")`, its last call. -/
  | poll
  /-- `InData::Update` returns. -/
  | ret

def boot : PowerSequence := ⟨.boot, 0, [], [], []⟩

/-- The `switch` of `Modem::Update`, but for its last case. -/
def power (s : PowerSequence) (env : Env) : PowerSequence :=
  let counter (i : ℕ) : UInt32 := .ofNat (env.time i)
  match s.modem.state with
  | .IDLE => { s with
      pins := s.pins ++ [(env.time 0, .pwrOff), (env.time 1, .pgOutLow)]
      modem := ⟨.WAIT_DISCHARGE_CAPS, .reset (counter 2)⟩ }
  | .WAIT_DISCHARGE_CAPS =>
      if s.modem.meter.elapsedTime (counter 0) > 3000 then { s with
        pins := s.pins ++ [(env.time 1, .pgInPullDown), (env.time 2, .pwrOn)]
        modem := ⟨.WAIT_HI_GSM_PG, .reset (counter 3)⟩ }
      else s
  | .WAIT_HI_GSM_PG =>
      let s := if env.gsmPg then { s with
          pins := s.pins ++ [(env.time 0, .pgHigh)]
          modem := ⟨.WAIT_500_MS, .reset (counter 1)⟩ }
        else s
      if s.modem.meter.elapsedTime (counter 2) > 100 then { s with modem := s.modem.reset } else s
  | .WAIT_500_MS =>
      if s.modem.meter.elapsedTime (counter 0) > 500 then { s with
        pins := s.pins ++ [(env.time 1, .keyLow)]
        modem := ⟨.WAIT_1250_MS, .reset (counter 2)⟩ }
      else s
  | .WAIT_1250_MS =>
      if s.modem.meter.elapsedTime (counter 0) > 1250 then { s with
        pins := s.pins ++ [(env.time 1, .keyReleased)]
        modem := ⟨.WAIT_5000_MS, .reset (counter 2)⟩ }
      else s
  | .WAIT_5000_MS =>
      let s := if env.gsmStatus then { s with
          pins := s.pins ++ [(env.time 0, .statusHigh), (env.time 1, .ok)]
          modem := ⟨.HARDWARE_IS_OK, .reset (counter 2)⟩ }
        else s
      if s.modem.meter.elapsedTime (counter 3) > 5000 then { s with modem := s.modem.reset } else s
  | .HARDWARE_IS_OK => s

/-- One step; `none` for a call that is not possible. -/
def step (s : PowerSequence) : Op → Option PowerSequence
  | .update env =>
      if s.clock ≤ env.time 0 then
        if s.modem.state = .HARDWARE_IS_OK then some { s with
          clock := env.time 3
          calls := .scanning :: s.calls }
        else some { s.power env with clock := env.time 3 }
      else none
  | .reset => some { s with modem := s.modem.reset }
  | .answer =>
      match s.calls with
      | .scanning :: _ => some { s with answered := s.answered ++ [s.modem.state] }
      | _ => none
  | .poll =>
      match s.calls with
      | .scanning :: calls => some { s with
          answered := s.answered ++ [s.modem.state]
          calls := .last :: calls }
      | _ => none
  | .ret =>
      match s.calls with
      | .last :: calls => some { s with calls }
      | _ => none

/-- The calls of `Modem::Reset` after which no call of `InData::Update` goes on to call
`SIM868::Update`. -/
def Finished (s : PowerSequence) : Op → Prop
  | .reset => ∀ call ∈ s.calls, call = .last
  | _ => True

instance (s : PowerSequence) : DecidablePred (Finished s)
  | .reset => inferInstanceAs (Decidable (∀ call ∈ s.calls, call = .last))
  | .update _ | .answer | .poll | .ret => .isTrue trivial

/-- **The power sequence was carried out**, at the end of `pins` and since the `IDLE` step,
which is the one that switches the power off. -/
def PoweredUp (pins : List (ℕ × Pin)) : Prop :=
  ∃ old off low input on high press release status,
    pins = old ++ [(off, .pwrOff), (low, .pgOutLow), (input, .pgInPullDown), (on, .pwrOn),
      (high, .pgHigh), (press, .keyLow), (release, .keyReleased), (status, .statusHigh)] ∧
    off ≤ low ∧ low + 3000 < input ∧ input ≤ on ∧ on ≤ high ∧ high + 500 < press ∧
    press + 1250 < release ∧ release ≤ status

/-- What must have happened before an event. -/
def After (pins : List (ℕ × Pin)) (event : ℕ × Pin) : Prop := event.2 = .ok → PoweredUp pins

/-! ## The history of a state -/

/-- `Since state events c`: the pin events since the `IDLE` step, in a state that was entered
by a restart of the meter at `c`. -/
inductive Since : Modem.State → List (ℕ × Pin) → ℕ → Prop
  | idle {a b c : ℕ} : a ≤ b → b ≤ c →
      Since .WAIT_DISCHARGE_CAPS [(a, .pwrOff), (b, .pgOutLow)] c
  | discharged {events : List (ℕ × Pin)} {c d e f g : ℕ} : Since .WAIT_DISCHARGE_CAPS events c →
      c + 3000 < d → d ≤ e → e ≤ f → f ≤ g →
      Since .WAIT_HI_GSM_PG (events ++ [(e, .pgInPullDown), (f, .pwrOn)]) g
  | powered {events : List (ℕ × Pin)} {c d e : ℕ} : Since .WAIT_HI_GSM_PG events c → c ≤ d →
      d ≤ e → Since .WAIT_500_MS (events ++ [(d, .pgHigh)]) e
  | waited {events : List (ℕ × Pin)} {c d e f : ℕ} : Since .WAIT_500_MS events c →
      c + 500 < d → d ≤ e → e ≤ f → Since .WAIT_1250_MS (events ++ [(e, .keyLow)]) f
  | released {events : List (ℕ × Pin)} {c d e f : ℕ} : Since .WAIT_1250_MS events c →
      c + 1250 < d → d ≤ e → e ≤ f → Since .WAIT_5000_MS (events ++ [(e, .keyReleased)]) f

/-- `GSM_STATUS` read high in `WAIT_5000_MS` completes the sequence. -/
theorem Since.poweredUp {events : List (ℕ × Pin)} {c status : ℕ}
    (h : Since .WAIT_5000_MS events c) (hstatus : c ≤ status) (old : List (ℕ × Pin)) :
    PoweredUp (old ++ events ++ [(status, .statusHigh)]) := by
  cases h with | @released _ _ _ release _ hwaited hheld hrelease hreset₅ =>
  cases hwaited with | @waited _ _ _ press _ hpowered hpause hpress hreset₄ =>
  cases hpowered with | @powered _ _ high _ hdischarged hhigh hreset₃ =>
  cases hdischarged with | @discharged _ _ _ input on _ hidle hdischarge hinput hon hreset₂ =>
  cases hidle with | @idle off low _ hlow hreset₁ =>
  refine ⟨old, off, low, input, on, high, press, release, status, ?_, hlow, ?_, hon, ?_, ?_, ?_,
    ?_⟩
  · simp only [List.append_assoc, List.cons_append, List.nil_append]
  all_goals omega

/-- The history of the state the modem is in: the last pin events, and the restart of the
meter. -/
structure Current (s : PowerSequence) (events : List (ℕ × Pin)) (c : ℕ) : Prop where
  pins : ∃ old, s.pins = old ++ events
  since : Since s.modem.state events c
  meter : s.modem.meter = .reset (.ofNat c)
  le : c ≤ s.clock

/-- **The invariant of the power sequence.**  Behind a reset and in `HARDWARE_IS_OK` no
history is needed. -/
structure Sound (s : PowerSequence) : Prop where
  current : s.modem.state = .IDLE ∨ s.modem.state = .HARDWARE_IS_OK ∨ ∃ events c, Current s events c
  entered : Trace.Each After s.pins

variable {s t : PowerSequence} {env : Env} {events : List (ℕ × Pin)} {c : ℕ}

theorem sound_boot : Sound boot := ⟨.inl rfl, Trace.each_nil⟩

/-- The history of a state between `IDLE` and `HARDWARE_IS_OK`. -/
theorem Sound.history (h : Sound s) {state : Modem.State} (hstate : s.modem.state = state)
    (hidle : state ≠ .IDLE) (hok : state ≠ .HARDWARE_IS_OK) :
    ∃ old events c, s.pins = old ++ events ∧ Since state events c ∧ Current s events c := by
  subst hstate
  rcases h.current with h | h | ⟨events, c, hcurrent⟩
  · exact absurd h hidle
  · exact absurd h hok
  · obtain ⟨old, hpins⟩ := hcurrent.pins
    exact ⟨old, events, c, hpins, hcurrent.since, hcurrent⟩

/-- What the meter shows has passed since its restart. -/
theorem Current.elapsed (h : Current s events c) (hclock : s.clock ≤ env.time 0) {i : ℕ}
    {time : UInt32} (hmore : time < s.modem.meter.elapsedTime (.ofNat (env.time i))) :
    c + time.toNat < env.time i := by
  rw [h.meter] at hmore
  have hle : c ≤ env.time i := h.le.trans (hclock.trans (env.mono (Nat.zero_le i)))
  exact TimeMeterMS.lt_of_lt_elapsedTime hle hmore

/-- Events other than the entry ask for nothing. -/
theorem each_after_append {pins es : List (ℕ × Pin)} (h : Trace.Each After pins)
    (hes : ∀ e ∈ es, e.2 ≠ .ok) : Trace.Each After (pins ++ es) :=
  h.append fun _ _ e he hentry => absurd hentry (hes e he)

/-- A step that only takes time. -/
theorem Sound.same (h : Sound s) (hmodem : t.modem = s.modem) (hpins : t.pins = s.pins)
    (hclock : s.clock ≤ t.clock) : Sound t := by
  refine ⟨?_, hpins ▸ h.entered⟩
  rw [hmodem]
  rcases h.current with h | h | ⟨events, c, h⟩
  · exact .inl h
  · exact .inr (.inl h)
  · refine .inr (.inr ⟨events, c, ?_, ?_, ?_, h.le.trans hclock⟩)
    · rw [hpins]
      exact h.pins
    · rw [hmodem]
      exact h.since
    · rw [hmodem]
      exact h.meter

/-- A call that goes back to `IDLE`. -/
theorem Sound.restart (h : Sound s) (clock : ℕ) :
    Sound { s with
      modem := s.modem.reset
      clock } :=
  ⟨.inl rfl, h.entered⟩

/-- A call that goes on to `state` and restarts the meter at `d`. -/
theorem Sound.next (h : Sound s) {old es : List (ℕ × Pin)} {state : Modem.State} {d clock : ℕ}
    (hpins : s.pins = old ++ events) (hsince : Since state (events ++ es) d)
    (hes : ∀ e ∈ es, e.2 ≠ .ok) (hd : d ≤ clock) :
    Sound { s with
      pins := s.pins ++ es
      modem := ⟨state, .reset (.ofNat d)⟩
      clock } := by
  refine ⟨.inr (.inr ⟨events ++ es, d, ⟨old, ?_⟩, hsince, rfl, hd⟩),
    each_after_append h.entered hes⟩
  rw [hpins, List.append_assoc]

/-- **A call of `Modem::Update`** keeps the invariant. -/
theorem Sound.power (h : Sound s) (hclock : s.clock ≤ env.time 0) :
    Sound { s.power env with clock := env.time 3 } := by
  have h01 : env.time 0 ≤ env.time 1 := env.mono (by decide)
  have h12 : env.time 1 ≤ env.time 2 := env.mono (by decide)
  have h23 : env.time 2 ≤ env.time 3 := env.mono (by decide)
  have h03 : env.time 0 ≤ env.time 3 := env.mono (by decide)
  have hlast : s.clock ≤ env.time 3 := hclock.trans h03
  unfold PowerSequence.power
  cases hstate : s.modem.state with
  | IDLE => exact h.next (List.append_nil s.pins).symm (.idle h01 h12) (by simp) h23
  | WAIT_DISCHARGE_CAPS =>
      obtain ⟨old, events, c, hpins, hsince, hcurrent⟩ :=
        h.history hstate (by decide) (by decide)
      simp only
      split
      · next hmore =>
        have hpassed := hcurrent.elapsed hclock hmore
        exact h.next hpins (.discharged hsince hpassed h01 h12 h23) (by simp) le_rfl
      · exact h.same rfl rfl hlast
  | WAIT_HI_GSM_PG =>
      obtain ⟨old, events, c, hpins, hsince, hcurrent⟩ :=
        h.history hstate (by decide) (by decide)
      simp only
      by_cases hhigh : env.gsmPg = true
      · -- the input is high; the call may still end in `IDLE`
        have hpowered : Since .WAIT_500_MS (events ++ [(env.time 0, .pgHigh)]) (env.time 1) :=
          .powered hsince (hcurrent.le.trans hclock) h01
        have hnext := h.next hpins hpowered (by simp) (h12.trans h23)
        rw [if_pos hhigh]
        split
        · exact hnext.restart (env.time 3)
        · exact hnext
      · rw [if_neg hhigh]
        split
        · exact h.restart (env.time 3)
        · exact h.same rfl rfl hlast
  | WAIT_500_MS =>
      obtain ⟨old, events, c, hpins, hsince, hcurrent⟩ :=
        h.history hstate (by decide) (by decide)
      simp only
      split
      · next hmore =>
        have hpassed := hcurrent.elapsed hclock hmore
        exact h.next hpins (.waited hsince hpassed h01 h12) (by simp) h23
      · exact h.same rfl rfl hlast
  | WAIT_1250_MS =>
      obtain ⟨old, events, c, hpins, hsince, hcurrent⟩ :=
        h.history hstate (by decide) (by decide)
      simp only
      split
      · next hmore =>
        have hpassed := hcurrent.elapsed hclock hmore
        exact h.next hpins (.released hsince hpassed h01 h12) (by simp) h23
      · exact h.same rfl rfl hlast
  | WAIT_5000_MS =>
      obtain ⟨old, events, c, hpins, hsince, hcurrent⟩ :=
        h.history hstate (by decide) (by decide)
      simp only
      by_cases hhigh : env.gsmStatus = true
      · -- the entry into `HARDWARE_IS_OK`; the call may still end in `IDLE`
        have hentered : Trace.Each After
            (s.pins ++ [(env.time 0, .statusHigh), (env.time 1, .ok)]) := by
          rw [← List.singleton_append, ← List.append_assoc, Trace.each_snoc]
          refine ⟨each_after_append h.entered (by simp), fun _ => ?_⟩
          rw [hpins]
          exact hsince.poweredUp (hcurrent.le.trans hclock) old
        rw [if_pos hhigh]
        split
        · exact ⟨.inl rfl, hentered⟩
        · exact ⟨.inr (.inl rfl), hentered⟩
      · rw [if_neg hhigh]
        split
        · exact h.restart (env.time 3)
        · exact h.same rfl rfl hlast
  | HARDWARE_IS_OK => exact h.same rfl rfl hlast

/-- What the steps of `InData::Update` do. -/
theorem step_answer (hstep : s.step .answer = some t) :
    ∃ calls, s.calls = .scanning :: calls ∧
      t = { s with answered := s.answered ++ [s.modem.state] } := by
  rw [step] at hstep
  split at hstep
  · next calls hcalls => exact ⟨calls, hcalls, (Option.some.inj hstep).symm⟩
  · exact absurd hstep (by simp)

theorem step_poll (hstep : s.step .poll = some t) :
    ∃ calls, s.calls = .scanning :: calls ∧ t = { s with
      answered := s.answered ++ [s.modem.state]
      calls := .last :: calls } := by
  rw [step] at hstep
  split at hstep
  · next calls hcalls => exact ⟨calls, hcalls, (Option.some.inj hstep).symm⟩
  · exact absurd hstep (by simp)

theorem step_ret (hstep : s.step .ret = some t) :
    ∃ calls, s.calls = .last :: calls ∧ t = { s with calls } := by
  rw [step] at hstep
  split at hstep
  · next calls hcalls => exact ⟨calls, hcalls, (Option.some.inj hstep).symm⟩
  · exact absurd hstep (by simp)

/-- **A step** keeps the invariant. -/
theorem Sound.step {op : Op} (h : Sound s) (hstep : s.step op = some t) : Sound t := by
  cases op with
  | update env =>
      obtain ⟨hclock, hstep⟩ := Option.ite_none_right_eq_some.mp hstep
      split at hstep
      · obtain rfl := Option.some.inj hstep
        have hlast : s.clock ≤ env.time 3 := hclock.trans (env.mono (by decide))
        exact h.same rfl rfl hlast
      · obtain rfl := Option.some.inj hstep
        exact h.power hclock
  | reset =>
      obtain rfl := Option.some.inj hstep
      exact h.restart s.clock
  | answer =>
      obtain ⟨calls, -, rfl⟩ := step_answer hstep
      exact h.same rfl rfl le_rfl
  | poll =>
      obtain ⟨calls, -, rfl⟩ := step_poll hstep
      exact h.same rfl rfl le_rfl
  | ret =>
      obtain ⟨calls, -, rfl⟩ := step_ret hstep
      exact h.same rfl rfl le_rfl

/-! ## Where `SIM868::Update` is called -/

/-- While a call of `InData::Update` goes on calling, the modem is in `HARDWARE_IS_OK`. -/
structure Answering (s : PowerSequence) : Prop where
  scanning : .scanning ∈ s.calls → s.modem.state = .HARDWARE_IS_OK
  answered : ∀ state ∈ s.answered, state = .HARDWARE_IS_OK

theorem answering_boot : Answering boot where
  scanning h := absurd h List.not_mem_nil
  answered _ h := absurd h List.not_mem_nil

/-- One more call of `SIM868::Update`. -/
theorem Answering.snoc (h : Answering s) (hscanning : .scanning ∈ s.calls) :
    ∀ state ∈ s.answered ++ [s.modem.state], state = .HARDWARE_IS_OK := by
  intro state hstate
  rcases List.mem_append.mp hstate with hold | hnew
  · exact h.answered state hold
  · rw [List.mem_singleton.mp hnew]
    exact h.scanning hscanning

/-- `Modem::Update` leaves the calls alone. -/
theorem frame_power (s : PowerSequence) (env : Env) :
    (s.power env).calls = s.calls ∧ (s.power env).answered = s.answered := by
  unfold power
  cases s.modem.state with
  | IDLE | HARDWARE_IS_OK => exact ⟨rfl, rfl⟩
  | WAIT_DISCHARGE_CAPS | WAIT_500_MS | WAIT_1250_MS => simp only; split <;> exact ⟨rfl, rfl⟩
  | WAIT_HI_GSM_PG | WAIT_5000_MS => simp only; split <;> split <;> exact ⟨rfl, rfl⟩

theorem Answering.step {op : Op} (h : Answering s) (hfinished : Finished s op)
    (hstep : s.step op = some t) : Answering t := by
  cases op with
  | update env =>
      obtain ⟨hclock, hstep⟩ := Option.ite_none_right_eq_some.mp hstep
      split at hstep
      · next hok =>
        obtain rfl := Option.some.inj hstep
        exact ⟨fun _ => hok, h.answered⟩
      · next hok =>
        -- no call goes on, as the modem is not in `HARDWARE_IS_OK`
        obtain rfl := Option.some.inj hstep
        obtain ⟨hcalls, hanswered⟩ := frame_power s env
        constructor
        · intro hscanning
          exact absurd (h.scanning (hcalls ▸ hscanning)) hok
        · show ∀ state ∈ (s.power env).answered, state = .HARDWARE_IS_OK
          rw [hanswered]
          exact h.answered
  | reset =>
      obtain rfl := Option.some.inj hstep
      refine ⟨fun hscanning => ?_, h.answered⟩
      exact absurd (hfinished .scanning hscanning) (by decide)
  | answer =>
      obtain ⟨calls, hcalls, rfl⟩ := step_answer hstep
      refine ⟨h.scanning, h.snoc ?_⟩
      rw [hcalls]
      exact List.mem_cons_self
  | poll =>
      obtain ⟨calls, hcalls, rfl⟩ := step_poll hstep
      have hfirst : .scanning ∈ s.calls := by
        rw [hcalls]
        exact List.mem_cons_self
      exact ⟨fun _ => h.scanning hfirst, h.snoc hfirst⟩
  | ret =>
      obtain ⟨calls, hcalls, rfl⟩ := step_ret hstep
      refine ⟨fun hscanning => h.scanning ?_, h.answered⟩
      rw [hcalls]
      exact List.mem_cons_of_mem _ hscanning

/-- **The way to `HARDWARE_IS_OK`, and where `SIM868::Update` is called.**  In every run the
state is entered only behind the whole power sequence; and `SIM868::Update` is called in no
other state, if `Modem::Reset` is not called while a call of `InData::Update` still has calls
of `SIM868::Update` to make. -/
theorem entered_and_answered {ops : List Op} (hrun : LTS.Run (LTS.stepOf step) boot ops s) :
    Trace.Each After s.pins ∧
      (LTS.Run (LTS.Guarded Finished (LTS.stepOf step)) boot ops s →
        ∀ state ∈ s.answered, state = .HARDWARE_IS_OK) := by
  constructor
  · have hsound : Sound s := hrun.invariant sound_boot fun _ _ _ h hstep => h.step hstep
    exact hsound.entered
  · intro hguarded
    have hanswering : Answering s :=
      hguarded.invariant answering_boot fun _ _ _ h hstep => h.step hstep.1 hstep.2
    exact hanswering.answered

/-- A call all of whose statements find the same counter. -/
def Env.at (now : ℕ) (gsmPg gsmStatus : Bool) : Env :=
  ⟨fun _ => now, monotone_const, gsmPg, gsmStatus⟩

/-- **`Modem.update` is this call** when all its statements find the same counter. -/
theorem modem_power (s : PowerSequence) (now : ℕ) (gsmPg gsmStatus : Bool) :
    (s.power (.at now gsmPg gsmStatus)).modem =
      (s.modem.update ⟨.ofNat now, gsmPg, gsmStatus⟩).1 := by
  unfold power Modem.update Env.at
  cases hstate : s.modem.state with
  | IDLE | HARDWARE_IS_OK => rfl
  | WAIT_DISCHARGE_CAPS | WAIT_500_MS | WAIT_1250_MS =>
      simp only
      split <;> rfl
  | WAIT_HI_GSM_PG =>
      simp only
      cases gsmPg <;> simp only [if_true, if_false, Bool.false_eq_true] <;> split <;> rfl
  | WAIT_5000_MS =>
      simp only
      cases gsmStatus <;> simp only [if_true, if_false, Bool.false_eq_true] <;> split <;> rfl

/-- The calls that lead from boot to the first call of `InData::Update`. -/
def toInData : List Op :=
  [.update (.at 0 false false), .update (.at 3001 false false), .update (.at 3002 true false),
    .update (.at 3503 false false), .update (.at 4754 false false), .update (.at 4755 false true),
    .update (.at 4756 false false)]

/-- The last call of `SIM868::Update` resets the modem, and the next call switches it off. -/
def toReset : List Op := toInData ++ [.answer, .poll, .reset, .ret, .update (.at 4757 false false)]

theorem entered_and_answered_toReset :
    ∃ s, LTS.Run (LTS.stepOf step) boot toReset s ∧ s.modem.state = .WAIT_DISCHARGE_CAPS ∧
      Trace.Each After s.pins ∧ ∀ state ∈ s.answered, state = .HARDWARE_IS_OK := by
  have hguarded : LTS.Run (LTS.Guarded Finished (LTS.stepOf step)) boot toReset _ :=
    LTS.run_of_execRun_guardedBy rfl
  have hrun := hguarded.mono fun _ _ _ h => h.2
  obtain ⟨hentered, hanswered⟩ := entered_and_answered hrun
  exact ⟨_, hrun, rfl, hentered, hanswered hguarded⟩

/-- **A reset in the middle of a call.**  An answer such as `CLOSED` makes `SIM868::Update`
call `Modem::Reset`; `InData::Update` goes on and calls `SIM868::Update` again, in `IDLE`. -/
theorem not_answered_reset :
    ∃ s, LTS.Run (LTS.stepOf step) boot (toInData ++ [.answer, .reset, .poll]) s ∧
      ¬ ∀ state ∈ s.answered, state = .HARDWARE_IS_OK := by
  refine ⟨_, LTS.run_of_execRun rfl, ?_⟩
  intro hall
  exact absurd (hall .IDLE (by decide)) (by decide)

end PowerSequence

end USKD
