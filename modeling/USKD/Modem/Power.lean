import USKD.Hardware.Timer

/-!
# `Modem::Update`: the power sequence

The state machine that switches the modem off and on.  Only in its last state does it look
at the bytes received (`InData::Update`); in `IDLE`, where `Modem::Reset` puts it, it
resets `SIM868` and `MQTT`.

The environment of a call is the counter and the two input pins; the output pins are left
out, as nothing here reads them back.
-/

namespace USKD

/-- `Modem::State::E`. -/
inductive Modem.State
  | IDLE
  | WAIT_DISCHARGE_CAPS
  | WAIT_HI_GSM_PG
  | WAIT_500_MS
  | WAIT_1250_MS
  | WAIT_5000_MS
  | HARDWARE_IS_OK
deriving DecidableEq

/-- The state of the modem, and the static `meter` of `Modem::Update`. -/
structure Modem where
  state : Modem.State
  meter : TimeMeterMS
deriving DecidableEq

namespace Modem

/-- The state at boot; the meter is reset in the first call. -/
def boot : Modem := ⟨.IDLE, .reset 0⟩

/-- What a call finds: `TIME_MS`, `GSM_PG::ReadInput()` and `pinGSM_STATUS.IsHi()`. -/
structure Env where
  now : UInt32
  gsmPg : Bool
  gsmStatus : Bool

/-- What a call runs besides the power sequence: nothing, `SIM868::Reset` and
`MQTT::Reset`, or `InData::Update`. -/
inductive Call
  | nothing
  | reset
  | inDataUpdate
deriving DecidableEq

/-- `Modem::Reset`. -/
def reset (m : Modem) : Modem := { m with state := .IDLE }

/-- `Modem::Update`. -/
def update (m : Modem) (env : Env) : Modem × Call :=
  let elapsed (meter : TimeMeterMS) : UInt32 := meter.elapsedTime env.now
  let restart : TimeMeterMS := .reset env.now
  match m.state with
  | .IDLE => (⟨.WAIT_DISCHARGE_CAPS, restart⟩, .reset)
  | .WAIT_DISCHARGE_CAPS =>
      if elapsed m.meter > 3000 then (⟨.WAIT_HI_GSM_PG, restart⟩, .nothing) else (m, .nothing)
  | .WAIT_HI_GSM_PG =>
      let m := if env.gsmPg then ⟨.WAIT_500_MS, restart⟩ else m
      -- the meter is read again: with `GSM_PG` seen it has just been reset
      (if elapsed m.meter > 100 then { m with state := .IDLE } else m, .nothing)
  | .WAIT_500_MS =>
      if elapsed m.meter > 500 then (⟨.WAIT_1250_MS, restart⟩, .nothing) else (m, .nothing)
  | .WAIT_1250_MS =>
      if elapsed m.meter > 1250 then (⟨.WAIT_5000_MS, restart⟩, .nothing) else (m, .nothing)
  | .WAIT_5000_MS =>
      let m := if env.gsmStatus then ⟨.HARDWARE_IS_OK, restart⟩ else m
      (if elapsed m.meter > 5000 then { m with state := .IDLE } else m, .nothing)
  | .HARDWARE_IS_OK => (m, .inDataUpdate)

/-- The state says what a call runs. -/
theorem call_update (m : Modem) (env : Env) :
    (m.update env).2 =
      match m.state with
      | .IDLE => .reset
      | .HARDWARE_IS_OK => .inDataUpdate
      | _ => .nothing := by
  unfold update
  cases m.state with
  | IDLE | HARDWARE_IS_OK => rfl
  | WAIT_DISCHARGE_CAPS | WAIT_500_MS | WAIT_1250_MS =>
      simp only
      split <;> rfl
  | WAIT_HI_GSM_PG | WAIT_5000_MS => rfl

theorem state_of_reset {m : Modem} {env : Env} (h : (m.update env).2 = .reset) :
    m.state = .IDLE := by
  rw [call_update] at h
  cases hstate : m.state with
  | IDLE => rfl
  | _ => exact absurd (hstate ▸ h) (by simp)

/-- The power sequence is going on. -/
theorem state_of_nothing {m : Modem} {env : Env} (h : (m.update env).2 = .nothing) :
    m.state ≠ .IDLE ∧ m.state ≠ .HARDWARE_IS_OK := by
  rw [call_update] at h
  constructor
  · intro hidle
    exact absurd (hidle ▸ h) (by simp)
  · intro hok
    exact absurd (hok ▸ h) (by simp)

theorem update_of_idle {m : Modem} (env : Env) (h : m.state = .IDLE) :
    (m.update env).1 = ⟨.WAIT_DISCHARGE_CAPS, .reset env.now⟩ := by
  unfold update
  rw [h]

theorem update_of_inDataUpdate {m : Modem} {env : Env} (h : (m.update env).2 = .inDataUpdate) :
    (m.update env).1 = m := by
  rw [call_update] at h
  unfold update
  cases hstate : m.state with
  | HARDWARE_IS_OK => rfl
  | _ => exact absurd (hstate ▸ h) (by simp)

/-- Environments that lead from the `IDLE` step at `now` to `HARDWARE_IS_OK`. -/
def powerUp (now : UInt32) : List Env :=
  [⟨now + 3001, false, false⟩, ⟨now + 3001, true, false⟩, ⟨now + 3001 + 501, false, false⟩,
    ⟨now + 3001 + 501 + 1251, false, false⟩, ⟨now + 3001 + 501 + 1251, false, true⟩]

end Modem

end USKD
