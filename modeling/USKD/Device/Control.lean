import USKD.Lib.Run
import USKD.Lib.Trace
import USKD.Modem.Power
import USKD.Modem.SIM868
import USKD.Modem.MQTT.MQTT

/-!
# The device: who calls whom

`Device::Update` sends a request each second and calls `Modem::Update`.  In `HARDWARE_IS_OK`
this is `InData::Update`, which calls `SIM868::Update` for each answer and once without one, and
hands the packets of the server to `MQTT::Update`; `SIM868::Update` calls `MQTT::Update` and
then looks at the time of the last `AT+CSQ`.  All of them may call `Modem::Reset`, which only
notes it.  `Queue::Append` calls `Modem::Update` as long as the queue is full.

The state therefore has the calls that are going on, the innermost first; a step goes on with
the innermost.  What the modem says is left open: `InData::Update` may find any answers and
packets, in any order, and the times are arbitrary.  A pointer to an object that is not there
is a crash, behind which there are no steps.

These are more runs than real bytes have.  `PBD::AppendByte` is called before its byte is taken off
the buffer, so that an `InData::Update` that is called from within a `packet` is handed the same
byte again; a step `packet` keeps nothing of its byte, and any answers may follow within it.  And
the runs go on where `ProcessUnsolicited` has written behind `levelSignal`, or behind the text of a
coordinate.
-/

namespace USKD

/-- A call that is going on, and what of it is still to come. -/
inductive Device.Call
  /-- `Device::Update`, with its call of `Modem::Update` -/
  | device
  /-- `InData::Update` -/
  | inData
  /-- `SIM868::Update`, behind `MQTT::Update` -/
  | checkCSQ
  /-- `Queue::Append`, and what follows it -/
  | append (address : ℕ) (next : MQTT.Then)
deriving DecidableEq

/-- The static data of the device, the calls that are going on, and what has happened. -/
structure Device where
  modem : Modem
  sim : SIM868
  mqtt : MQTT
  meter : TimeMeterMS
  calls : List Device.Call
  history : List Device.Event
  crashed : Bool

namespace Device

/-- What differs from device to device: `HOME_VERSION` and `HAL::GetUID()`. -/
structure Build where
  homeVersion : Bool
  uid : Utils.String

inductive Op
  /-- `Device::Update` is called. -/
  | loop (now : UInt32)
  /-- `Modem::Update` is called. -/
  | update (env : Modem.Env)
  /-- `InData::Update` finds an answer, comes to its end, finds a packet that confirms, or finds
  a CONNACK that refuses. -/
  | answer (now : UInt32) (answer : List UInt8)
  | poll (now : UInt32)
  | packet (now : UInt32) (answer : List UInt8)
  | refused
  /-- `SIM868::Update` goes on behind `MQTT::Update`. -/
  | checkCSQ (now : UInt32)
  /-- `Queue::Append` finds room. -/
  | stored

def boot : Device where
  modem := .boot
  sim := .boot
  mqtt := .boot
  meter := .reset 0
  calls := []
  history := []
  crashed := false

/-- The code of `MQTT` has run. -/
def run (d : Device) : Option MQTT.Ran → Device
  | none => { d with crashed := true }
  | some ran => { d with
      modem := if ran.reset then d.modem.reset else d.modem
      mqtt := ran.mqtt
      calls := (ran.waiting.map fun w => Call.append w.1 w.2).toList ++ d.calls
      history := d.history ++ ran.events }

/-- `SIM868::Update`. -/
def simUpdate (d : Device) (b : Build) (now : UInt32) (answer : List UInt8) : Option Device :=
  (d.sim.update b.homeVersion now answer).map fun e =>
    let d := { d with
      modem := if e.reset then d.modem.reset else d.modem
      sim := e.sim
      history := d.history ++ .answer answer ::
        (e.command.toList.map Event.command ++ if e.reset then [Event.modemReset] else []) }
    -- `AT+CSQ` is looked at when `MQTT::Update` has returned
    if e.runs then
      { d with calls := .checkCSQ :: d.calls }.run (d.mqtt.update b.uid now answer)
    else d

/-- `Modem::Update`, with the calls behind it. -/
def modemUpdate (d : Device) (env : Modem.Env) (calls : List Call) : Device :=
  let modem := (d.modem.update env).1
  match (d.modem.update env).2 with
  | .nothing => { d with
      modem
      calls
      history := d.history ++
        if modem.state = .HARDWARE_IS_OK then [Event.powered] else [] }
  | .reset =>
      match d.mqtt.reset with
      | none => { d with crashed := true }
      | some mqtt => { d with
          modem
          sim := d.sim.reset
          mqtt
          calls
          history := d.history ++ [Event.mqttReset] }
  | .inDataUpdate => { d with
      modem
      calls := .inData :: calls }

/-- The texts `ResponseMQTT` passes to `MQTT::Update`. -/
def confirmations : List (List UInt8) :=
  [ascii "MQTT OK", ascii "SUBS OK", ascii "FALSE", ascii "PUBLISH OK"]

/-- One step. -/
def step (b : Build) (d : Device) (op : Op) : Option Device :=
  if d.crashed then none
  else
    match op, d.calls with
    -- no call goes on: the main loop calls `Device::Update`
    | .loop now, [] =>
        if d.mqtt.isConnected ∧ d.meter.elapsedTime now > 1000 then
          some ({ d with
            meter := .reset now
            calls := [.device] }.run (d.mqtt.send (MQTT.getTime b.uid) .device))
        else some { d with calls := [.device] }
    | .update env, .device :: calls => some (d.modemUpdate env calls)
    -- `Append` calls `Modem::Update` as long as there is no room
    | .update env, .append p next :: calls =>
        if d.mqtt.requests.length = MQTT.maxRequests then
          some (d.modemUpdate env (.append p next :: calls))
        else none
    | .stored, .append p next :: calls =>
        if d.mqtt.requests.length = MQTT.maxRequests then none
        else some ({ d with calls }.run ((d.mqtt.store p).resume next))
    | .answer now answer, .inData :: _ =>
        if answer = [] then none else d.simUpdate b now answer
    -- the call without an answer is the last one of `InData::Update`
    | .poll now, .inData :: calls => { d with calls }.simUpdate b now []
    | .packet now answer, .inData :: _ =>
        if answer ∈ confirmations then
          some ({ d with history := d.history ++ [Event.answer answer] }.run
            (d.mqtt.update b.uid now answer))
        else none
    | .refused, .inData :: _ => some { d with
        modem := d.modem.reset
        history := d.history ++ [.modemReset] }
    | .checkCSQ now, .checkCSQ :: calls => some { d with
        sim := (d.sim.checkCSQ now).1
        calls
        history := d.history ++ (d.sim.checkCSQ now).2.toList.map .command }
    | _, _ => none

/-! ## What a step can do -/

/-- **What `SIM868::Update` can do** to the device. -/
inductive SimUpdates (b : Build) (d : Device) (now : UInt32) (answer : List UInt8) : Device → Prop
  | keeps : SimUpdates b d now answer { d with history := d.history ++ [.answer answer] }
  | resets : SimUpdates b d now answer { d with
      modem := d.modem.reset
      history := d.history ++ [.answer answer, .modemReset] }
  | starts (hpassed : SIM868.processUnsolicited answer = some .passed)
      (hstate : d.sim.state = .START) : SimUpdates b d now answer { d with
        sim := d.sim.set .WAIT_ATE0 now
        history := d.history ++ [.answer answer, .command (ascii "ATE0")] }
  | goes (hpassed : SIM868.processUnsolicited answer = some .passed) (hstart : d.sim.state ≠ .START)
      (hrunning : d.sim.state ≠ .RUNNING_MQTT) {next : SIM868.State} (hnext : next ≠ .START)
      (hanswer : answer = [] → d.sim.state = .WAIT_CIFSR ∧
        d.sim.stateMeter.elapsedTime now ≤ SIM868.defaultTime)
      {command : Option (List UInt8)} (hcommand : command ≠ some (ascii "AT+CIPSEND"))
      (hawaited : command ≠ none → d.sim.Awaited now answer) :
      SimUpdates b d now answer { d with
        sim := d.sim.set next now
        history := d.history ++ Event.answer answer :: command.toList.map Event.command }
  | runs (hpassed : SIM868.processUnsolicited answer = some .passed)
      (hstate : d.sim.state = .RUNNING_MQTT) :
      SimUpdates b d now answer ({ d with
        calls := .checkCSQ :: d.calls
        history := d.history ++ [Event.answer answer] }.run (d.mqtt.update b.uid now answer))

theorem simUpdates_of_simUpdate {b : Build} {d t : Device} {now : UInt32} {answer : List UInt8}
    (h : d.simUpdate b now answer = some t) : SimUpdates b d now answer t := by
  obtain ⟨e, he, rfl⟩ := Option.map_eq_some_iff.mp h
  cases SIM868.updates_of_update he with
  | keeps => exact .keeps
  | resets => exact .resets
  | starts hpassed hstate => exact .starts hpassed hstate
  | @goes hpassed hstart hrunning next hnext hanswer command hcommand =>
      show SimUpdates b d now answer { d with
        sim := d.sim.set next now
        history := d.history ++ Event.answer answer :: (command.toList.map Event.command ++ []) }
      rw [List.append_nil]
      exact .goes hpassed hstart hrunning hnext hanswer hcommand (SIM868.awaited_of_update he)
  | runs hpassed hstate => exact .runs hpassed hstate

/-- **The steps**, each with the call it goes on with. -/
inductive Steps (b : Build) (d : Device) : Op → Device → Prop
  | idles {now : UInt32} (hcalls : d.calls = [])
      (hdue : ¬ (d.mqtt.isConnected ∧ d.meter.elapsedTime now > 1000)) :
      Steps b d (.loop now) { d with calls := [.device] }
  | sends {now : UInt32} (hcalls : d.calls = [])
      (hdue : d.mqtt.isConnected ∧ d.meter.elapsedTime now > 1000) :
      Steps b d (.loop now) ({ d with
        meter := .reset now
        calls := [.device] }.run (d.mqtt.send (MQTT.getTime b.uid) .device))
  | update {env : Modem.Env} {calls : List Call} (hcalls : d.calls = .device :: calls) :
      Steps b d (.update env) (d.modemUpdate env calls)
  | waits {env : Modem.Env} {p : ℕ} {next : MQTT.Then} {calls : List Call}
      (hcalls : d.calls = .append p next :: calls)
      (hfull : d.mqtt.requests.length = MQTT.maxRequests) :
      Steps b d (.update env) (d.modemUpdate env d.calls)
  | stored {p : ℕ} {next : MQTT.Then} {calls : List Call}
      (hcalls : d.calls = .append p next :: calls)
      (hroom : d.mqtt.requests.length ≠ MQTT.maxRequests) :
      Steps b d .stored ({ d with calls }.run ((d.mqtt.store p).resume next))
  | answer {now : UInt32} {answer : List UInt8} {calls : List Call} {t : Device}
      (hcalls : d.calls = .inData :: calls) (hanswer : answer ≠ [])
      (ht : d.simUpdate b now answer = some t) : Steps b d (.answer now answer) t
  | poll {now : UInt32} {calls : List Call} {t : Device} (hcalls : d.calls = .inData :: calls)
      (ht : { d with calls }.simUpdate b now [] = some t) : Steps b d (.poll now) t
  | packet {now : UInt32} {answer : List UInt8} {calls : List Call}
      (hcalls : d.calls = .inData :: calls) (hanswer : answer ∈ confirmations) :
      Steps b d (.packet now answer) ({ d with history := d.history ++ [Event.answer answer] }.run
        (d.mqtt.update b.uid now answer))
  | refused {calls : List Call} (hcalls : d.calls = .inData :: calls) :
      Steps b d .refused { d with
        modem := d.modem.reset
        history := d.history ++ [.modemReset] }
  | checkCSQ {now : UInt32} {calls : List Call} (hcalls : d.calls = .checkCSQ :: calls) :
      Steps b d (.checkCSQ now) { d with
        sim := (d.sim.checkCSQ now).1
        calls
        history := d.history ++ (d.sim.checkCSQ now).2.toList.map .command }

theorem steps_of_step {b : Build} {d t : Device} {op : Op} (h : d.step b op = some t) :
    d.crashed = false ∧ Steps b d op t := by
  unfold step at h
  by_cases hcrashed : d.crashed = true
  · rw [if_pos hcrashed] at h
    exact absurd h (by simp)
  · rw [if_neg hcrashed] at h
    refine ⟨Bool.eq_false_iff.mpr hcrashed, ?_⟩
    split at h
    · next now hcalls =>
      split at h
      · next hdue =>
        obtain rfl := Option.some.inj h
        exact .sends hcalls hdue
      · next hdue =>
        obtain rfl := Option.some.inj h
        exact .idles hcalls hdue
    · next env calls hcalls =>
      obtain rfl := Option.some.inj h
      exact .update hcalls
    · next env p next calls hcalls =>
      obtain ⟨hfull, h⟩ := Option.ite_none_right_eq_some.mp h
      obtain rfl := Option.some.inj h
      rw [← hcalls]
      exact .waits hcalls hfull
    · next p next calls hcalls =>
      obtain ⟨hroom, h⟩ := Option.ite_none_left_eq_some.mp h
      obtain rfl := Option.some.inj h
      exact .stored hcalls hroom
    · next now answer calls hcalls =>
      obtain ⟨hanswer, h⟩ := Option.ite_none_left_eq_some.mp h
      exact .answer hcalls hanswer h
    · next now calls hcalls => exact .poll hcalls h
    · next now answer calls hcalls =>
      obtain ⟨hanswer, h⟩ := Option.ite_none_right_eq_some.mp h
      obtain rfl := Option.some.inj h
      exact .packet hcalls hanswer
    · next calls hcalls =>
      obtain rfl := Option.some.inj h
      exact .refused hcalls
    · next now calls hcalls =>
      obtain rfl := Option.some.inj h
      exact .checkCSQ hcalls
    · exact absurd h (by simp)

/-! ## Pieces of runs -/

/-- The board without sensors. -/
def home : Build := ⟨true, ⟨ascii "F95562E2", by decide⟩⟩

/-- `Device::Update` with its call of `Modem::Update`. -/
def round (env : Modem.Env) : List Op := [.loop env.now, .update env]

/-- A round that comes to `InData::Update`. -/
def roundAt (now : UInt32) : List Op := round ⟨now, false, false⟩

/-- The rounds behind the `IDLE` step, up to `HARDWARE_IS_OK`. -/
def powerUp (now : UInt32) : List Op := (Modem.powerUp now).flatMap round

/-- The set-up dialogue; the last answer leads to `RUNNING_MQTT`. -/
def setUp (now : UInt32) : List Op :=
  roundAt now ++ [.poll now] ++ roundAt now ++
    [ascii "OK", ascii "RDY", ascii "OK", ascii "OK", ascii "+CREG: 1",
      ascii "STATE: IP INITIAL", ascii "OK", ascii "STATE: IP START", ascii "OK",
      ascii "STATE: IP GPRSACT", ascii "10.0.0.1", ascii "STATE: IP STATUS", ascii "CONNECT OK",
      ascii "OK"].map (.answer now)

/-- `SIM868::Update` in `RUNNING_MQTT`. -/
def running (now : UInt32) (answer : List UInt8) : List Op := [.answer now answer, .checkCSQ now]

/-- The next request is taken, begins, and asks for its prompt. -/
def ask (now : UInt32) : List Op :=
  running now (ascii "OK") ++ running now (ascii "OK") ++ running now (ascii "OK")

/-- The prompt, the confirmation of the server, and the end of `InData::Update`. -/
def confirm (now : UInt32) (answer : List UInt8) : List Op :=
  running now (ascii ">") ++ [.packet now answer, .poll now, .checkCSQ now]

/-- From boot to `RUNNING_MQTT`. -/
def toRunning : List Op := roundAt 0 ++ powerUp 0 ++ setUp 6000

/-- From boot to the connection with the server. -/
def toConnected : List Op := toRunning ++ ask 6000 ++ confirm 6000 (ascii "MQTT OK")

end Device

end USKD
