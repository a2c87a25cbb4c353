import USKD.Lib.Run
import USKD.Lib.Trace
import USKD.Hardware.Timer
import USKD.Modem.Parser

/-!
# `SIM868::Update`: the set-up dialogue

The state machine that sets the modem up: each state waits for an answer to the command
transmitted on the way to it.  `InData::Update` calls it with every answer, and with the empty
text each time nothing (more) has been received.

An answer is first looked at by `ProcessUnsolicited`, which ends the call for some of them.
What it stores, the signal level and the coordinates, nothing here reads back; it is left out.

`MQTT::Update` and the inquiry `AT+CSQ` behind it belong to `RUNNING_MQTT`: a call that reaches
them `runs`.  With `HOME_VERSION` the dialogue ends two commands earlier.
-/

namespace USKD

/-- `SIM868::State::E`. -/
inductive SIM868.State
  | START
  | WAIT_ATE0
  | WAIT_BAUDRADE
  | WAIT_GSMBUSY
  | WAIT_CREG_INIT
  | WAIT_REGISTRATION
  | WAIT_IP_INITIAL
  | WAIT_CSTT
  | WAIT_IP_START
  | WAIT_CIICR
  | WAIT_IP_GPRSACT
  | WAIT_CIFSR
  | WAIT_IP_STATUS
  | WAIT_TCP_CONNECT
  | WAIT_CIPHEAD
  | WAIT_CGNSPWR
  | WAIT_CGNSURC
  | RUNNING_MQTT
deriving DecidableEq

/-- The static data of `namespace SIM868`. -/
structure SIM868 where
  state : SIM868.State
  stateMeter : TimeMeterMS
  meterCSQ : TimeMeterMS
deriving DecidableEq

namespace SIM868

/-- The state at boot. -/
def boot : SIM868 := ⟨.START, .reset 0, .reset 0⟩

/-- What a call of `SIM868::Update` leaves and does: a command for `Transmit::With0D`, a call
of `Modem::Reset`, a call of `MQTT::Update`. -/
structure Effect where
  sim : SIM868
  command : Option (List UInt8)
  reset : Bool
  runs : Bool
deriving DecidableEq

/-- `SIM868::Reset`. -/
def reset (s : SIM868) : SIM868 := { s with state := .START }

/-- `State::Set`. -/
def set (s : SIM868) (state : State) (now : UInt32) : SIM868 :=
  { s with
    state
    stateMeter := .reset now }

/-- Nothing happens. -/
def keeps (s : SIM868) : Effect := ⟨s, none, false, false⟩

/-- `Modem::Reset` is called. -/
def resets (s : SIM868) : Effect := ⟨s, none, true, false⟩

/-- What `ProcessUnsolicited` makes of an answer: it ends the call (`true`), it ends the call
and resets the modem, or it leaves the answer to the state machine. -/
inductive Unsolicited
  | handled
  | reset
  | passed
deriving DecidableEq

/-- `ProcessUnsolicited`. -/
def processUnsolicited (answer : List UInt8) : Option Unsolicited :=
  if answer = [] then some .passed
  else do
    let firstWord ← Parser.getWord answer 1
    if answer = ascii "ERROR" then pure .handled
    else if answer = ascii "CLOSED" then pure .reset
    else if answer = ascii "SEND FAIL" then pure .reset
    else if firstWord = ascii "+CSQ" then
      let _levelSignal ← Parser.getWord answer 2
      pure .handled
    else if firstWord = ascii "+UGNSINF" then pure .passed
    else if answer = ascii "SEND OK" then pure .handled
    else pure .passed

/-- `DEFAULT_TIME`. -/
def defaultTime : UInt32 := 10000

/-- A state that waits: `METER_IS_RUNNING(time)`, the test of the answer, and what follows it. -/
def await (s : SIM868) (now time : UInt32) (found : Option Bool) (next : State)
    (command : Option (List UInt8)) : Option Effect :=
  if s.stateMeter.elapsedTime now ≤ time then
    found.map fun found => if found then ⟨s.set next now, command, false, false⟩ else s.keeps
  else some s.resets

/-- `strcmp(GetWord(answer, num, &buffer), text) == 0`. -/
def isWord (answer : List UInt8) (num : ℕ) (text : List UInt8) : Option Bool :=
  (Parser.getWord answer num).map fun word => decide (word = text)

/-- The test of `WAIT_REGISTRATION`: registered in the home network, or roaming. -/
def isRegistration (answer : List UInt8) : Option Bool := do
  let creg ← isWord answer 1 (ascii "+CREG")
  if creg then
    let word ← Parser.getWord answer 2
    let stat := word.headD 0 &&& 0x0F
    pure (decide (stat = 1 ∨ stat = 5))
  else pure false

/-- The test of `WAIT_TCP_CONNECT`. -/
def isConnected (answer : List UInt8) : Option Bool := do
  let already ← isWord answer 1 (ascii "ALREADY")
  if already then pure true else isWord answer 2 (ascii "OK")

/-- The `switch` of `SIM868::Update`. -/
def dialogue (homeVersion : Bool) (s : SIM868) (now : UInt32) (answer : List UInt8) :
    Option Effect :=
  let is (text : String) : Option Bool := some (decide (answer = ascii text))
  let word (num : ℕ) (text : String) : Option Bool := isWord answer num (ascii text)
  let command (text : String) : Option (List UInt8) := some (ascii text)
  match s.state with
  | .START => some ⟨s.set .WAIT_ATE0 now, command "ATE0", false, false⟩
  | .WAIT_ATE0 => s.await now defaultTime (is "OK") .WAIT_BAUDRADE (command "AT+IPR=115200")
  | .WAIT_BAUDRADE => s.await now defaultTime (is "RDY") .WAIT_GSMBUSY (command "AT+GSMBUSY=1")
  | .WAIT_GSMBUSY => s.await now defaultTime (is "OK") .WAIT_CREG_INIT (command "AT+CREG=1")
  | .WAIT_CREG_INIT => s.await now defaultTime (is "OK") .WAIT_REGISTRATION none
  | .WAIT_REGISTRATION =>
      s.await now 60000 (isRegistration answer) .WAIT_IP_INITIAL (command "AT+CIPSTATUS")
  | .WAIT_IP_INITIAL =>
      s.await now defaultTime (word 3 "INITIAL") .WAIT_CSTT
        (command "AT+CSTT=\"internet\",\"\",\"\"")
  | .WAIT_CSTT => s.await now defaultTime (word 1 "OK") .WAIT_IP_START (command "AT+CIPSTATUS")
  | .WAIT_IP_START => s.await now defaultTime (word 3 "START") .WAIT_CIICR (command "AT+CIICR")
  | .WAIT_CIICR =>
      s.await now defaultTime (word 1 "OK") .WAIT_IP_GPRSACT (command "AT+CIPSTATUS")
  | .WAIT_IP_GPRSACT =>
      s.await now defaultTime (word 3 "GPRSACT") .WAIT_CIFSR (command "AT+CIFSR")
  | .WAIT_CIFSR =>
      -- the test is for a word that is not "OK": an address, or no word at all
      s.await now defaultTime ((word 1 "OK").map Bool.not) .WAIT_IP_STATUS
        (command "AT+CIPSTATUS")
  | .WAIT_IP_STATUS =>
      s.await now defaultTime (word 3 "STATUS") .WAIT_TCP_CONNECT
        (command "AT+CIPSTART=\"TCP\",\"85.143.167.242\",\"1883\"")
  | .WAIT_TCP_CONNECT =>
      if s.stateMeter.elapsedTime now ≤ 160000 then do
        let connected ← isConnected answer
        if connected then pure ⟨s.set .WAIT_CIPHEAD now, command "AT+CIPHEAD=1", false, false⟩
        else
          let fail ← word 2 "FAIL"
          pure (if fail then s.resets else s.keeps)
      else some s.resets
  | .WAIT_CIPHEAD =>
      s.await now defaultTime (is "OK") (if homeVersion then .RUNNING_MQTT else .WAIT_CGNSPWR)
        (command "AT+CGNSPWR=1")
  | .WAIT_CGNSPWR => s.await now defaultTime (is "OK") .WAIT_CGNSURC (command "AT+CGNSURC=5")
  | .WAIT_CGNSURC => s.await now defaultTime (is "OK") .RUNNING_MQTT none
  | .RUNNING_MQTT => some { s.keeps with runs := true }

/-- `SIM868::Update`, but for what `RUNNING_MQTT` runs. -/
def update (homeVersion : Bool) (s : SIM868) (now : UInt32) (answer : List UInt8) :
    Option Effect := do
  match ← processUnsolicited answer with
  | .handled => pure s.keeps
  | .reset => pure s.resets
  | .passed => s.dialogue homeVersion now answer

/-- What `RUNNING_MQTT` does behind `MQTT::Update`. -/
def checkCSQ (s : SIM868) (now : UInt32) : SIM868 × Option (List UInt8) :=
  if s.meterCSQ.elapsedTime now > 5000 then
    ({ s with meterCSQ := .reset now }, some (ascii "AT+CSQ"))
  else (s, none)

/-! ## A call without an answer -/

variable {homeVersion : Bool} {s : SIM868} {now : UInt32} {answer : List UInt8}

/-- A state that waits and does not find. -/
theorem await_false {time : UInt32} {next : State} {command : Option (List UInt8)} :
    s.await now time (some false) next command = some s.keeps ∨
      s.await now time (some false) next command = some s.resets := by
  unfold await
  by_cases hrunning : s.stateMeter.elapsedTime now ≤ time
  · rw [if_pos hrunning]
    exact .inl rfl
  · rw [if_neg hrunning]
    exact .inr rfl

/-- **Without an answer** every state but three stays as it is, or times out. -/
theorem update_nil (hstart : s.state ≠ .START) (hcifsr : s.state ≠ .WAIT_CIFSR)
    (hrunning : s.state ≠ .RUNNING_MQTT) :
    s.update homeVersion now [] = some s.keeps ∨ s.update homeVersion now [] = some s.resets := by
  show s.dialogue homeVersion now [] = _ ∨ s.dialogue homeVersion now [] = _
  unfold dialogue
  cases hstate : s.state with
  | START => exact absurd hstate hstart
  | WAIT_CIFSR => exact absurd hstate hcifsr
  | RUNNING_MQTT => exact absurd hstate hrunning
  | WAIT_TCP_CONNECT =>
      by_cases htime : s.stateMeter.elapsedTime now ≤ 160000
      · exact .inl ((if_pos htime).trans rfl)
      · exact .inr (if_neg htime)
  | _ => exact await_false

/-- `WAIT_CIFSR` takes no word for an address. -/
theorem update_nil_cifsr (h : s.state = .WAIT_CIFSR) :
    s.update homeVersion now [] =
      some (if s.stateMeter.elapsedTime now ≤ defaultTime then
        ⟨s.set .WAIT_IP_STATUS now, some (ascii "AT+CIPSTATUS"), false, false⟩ else s.resets) := by
  show s.dialogue homeVersion now [] = _
  unfold dialogue
  rw [h]
  show (if _ then _ else _) = _
  split <;> rfl

/-- **What a call can do.**  The first command is transmitted at once, every other one, and
every step without a command, is for an answer, but for the one of `WAIT_CIFSR`. -/
inductive Updates (s : SIM868) (now : UInt32) (answer : List UInt8) : Effect → Prop
  | keeps : Updates s now answer s.keeps
  | resets : Updates s now answer s.resets
  | starts (hpassed : processUnsolicited answer = some .passed) (hstate : s.state = .START) :
      Updates s now answer ⟨s.set .WAIT_ATE0 now, some (ascii "ATE0"), false, false⟩
  | goes (hpassed : processUnsolicited answer = some .passed) (hstart : s.state ≠ .START)
      (hrunning : s.state ≠ .RUNNING_MQTT) {next : State} (hnext : next ≠ .START)
      (hanswer : answer = [] → s.state = .WAIT_CIFSR ∧ s.stateMeter.elapsedTime now ≤ defaultTime)
      {command : Option (List UInt8)} (hcommand : command ≠ some (ascii "AT+CIPSEND")) :
      Updates s now answer ⟨s.set next now, command, false, false⟩
  | runs (hpassed : processUnsolicited answer = some .passed) (hstate : s.state = .RUNNING_MQTT) :
      Updates s now answer { s.keeps with runs := true }

theorem Updates.await {e : Effect} {time : UInt32} {found : Option Bool} {next : State}
    {command : Option (List UInt8)} (h : s.await now time found next command = some e)
    (hpassed : processUnsolicited answer = some .passed) (hstart : s.state ≠ .START)
    (hrunning : s.state ≠ .RUNNING_MQTT) (hnext : next ≠ .START)
    (hcommand : command ≠ some (ascii "AT+CIPSEND"))
    (hanswer : found = some true → answer = [] → s.state = .WAIT_CIFSR ∧ time = defaultTime) :
    Updates s now answer e := by
  unfold SIM868.await at h
  by_cases htime : s.stateMeter.elapsedTime now ≤ time
  · rw [if_pos htime] at h
    obtain ⟨b, hfound, rfl⟩ := Option.map_eq_some_iff.mp h
    cases b with
    | false => exact .keeps
    | true =>
        refine .goes hpassed hstart hrunning hnext (fun hnil => ?_) hcommand
        obtain ⟨hstate, rfl⟩ := hanswer hfound hnil
        exact ⟨hstate, htime⟩
  · rw [if_neg htime] at h
    obtain rfl := Option.some.inj h
    exact .resets

theorem updates_dialogue {e : Effect} (h : s.dialogue homeVersion now answer = some e)
    (hpassed : processUnsolicited answer = some .passed) : Updates s now answer e := by
  unfold dialogue at h
  cases hstate : s.state with
  | START =>
      rw [hstate] at h
      obtain rfl := Option.some.inj h
      exact .starts hpassed hstate
  | RUNNING_MQTT =>
      rw [hstate] at h
      obtain rfl := Option.some.inj h
      exact .runs hpassed hstate
  | WAIT_CIFSR =>
      rw [hstate] at h
      exact Updates.await h hpassed (by rw [hstate]; decide) (by rw [hstate]; decide) (by decide)
        (by decide) fun _ _ => ⟨hstate, rfl⟩
  | WAIT_TCP_CONNECT =>
      rw [hstate] at h
      by_cases htime : s.stateMeter.elapsedTime now ≤ 160000
      · obtain ⟨connected, hconnected, h⟩ :=
          Option.bind_eq_some_iff.mp ((if_pos htime).symm.trans h)
        cases connected with
        | true =>
            obtain rfl := Option.some.inj h
            refine .goes hpassed (by rw [hstate]; decide) (by rw [hstate]; decide) (by decide) ?_
              (by decide)
            rintro rfl
            exact absurd hconnected (by decide)
        | false =>
            obtain ⟨fail, -, h⟩ := Option.bind_eq_some_iff.mp h
            obtain rfl := Option.some.inj h
            cases fail with
            | true => exact .resets
            | false => exact .keeps
      · obtain rfl := Option.some.inj ((if_neg htime).symm.trans h)
        exact .resets
  | WAIT_CIPHEAD =>
      rw [hstate] at h
      refine Updates.await h hpassed (by rw [hstate]; decide) (by rw [hstate]; decide) ?_
        (by decide) ?_
      · cases homeVersion <;> decide
      · rintro hfound rfl
        exact absurd hfound (by decide)
  | _ =>
      rw [hstate] at h
      refine Updates.await h hpassed (by rw [hstate]; decide) (by rw [hstate]; decide) (by decide)
        (by decide) ?_
      rintro hfound rfl
      exact absurd hfound (by decide)

theorem updates_of_update {e : Effect} (h : s.update homeVersion now answer = some e) :
    Updates s now answer e := by
  obtain ⟨unsolicited, hunsolicited, h⟩ := Option.bind_eq_some_iff.mp h
  cases unsolicited with
  | handled =>
      obtain rfl := Option.some.inj h
      exact .keeps
  | reset =>
      obtain rfl := Option.some.inj h
      exact .resets
  | passed => exact updates_dialogue h hunsolicited

/-! ## What the dialogue waits for -/

/-- The test of the answer for which a state transmits a command. -/
def awaits (state : State) (answer : List UInt8) : Option Bool :=
  match state with
  | .WAIT_ATE0 | .WAIT_GSMBUSY | .WAIT_CIPHEAD | .WAIT_CGNSPWR =>
      some (decide (answer = ascii "OK"))
  | .WAIT_BAUDRADE => some (decide (answer = ascii "RDY"))
  | .WAIT_REGISTRATION => isRegistration answer
  | .WAIT_IP_INITIAL => isWord answer 3 (ascii "INITIAL")
  | .WAIT_CSTT | .WAIT_CIICR => isWord answer 1 (ascii "OK")
  | .WAIT_IP_START => isWord answer 3 (ascii "START")
  | .WAIT_IP_GPRSACT => isWord answer 3 (ascii "GPRSACT")
  | .WAIT_CIFSR => (isWord answer 1 (ascii "OK")).map Bool.not
  | .WAIT_IP_STATUS => isWord answer 3 (ascii "STATUS")
  | .WAIT_TCP_CONNECT => isConnected answer
  | .START | .WAIT_CREG_INIT | .WAIT_CGNSURC | .RUNNING_MQTT => some false

/-- How long a state waits. -/
def waits : State → UInt32
  | .WAIT_REGISTRATION => 60000
  | .WAIT_TCP_CONNECT => 160000
  | _ => defaultTime

/-- **The state transmits a command for this answer.** -/
def Awaited (s : SIM868) (now : UInt32) (answer : List UInt8) : Prop :=
  s.state = .START ∨
    awaits s.state answer = some true ∧ s.stateMeter.elapsedTime now ≤ waits s.state

instance (s : SIM868) (now : UInt32) (answer : List UInt8) : Decidable (s.Awaited now answer) :=
  inferInstanceAs (Decidable (_ ∨ _ ∧ _))

theorem await_command {e : Effect} {time : UInt32} {found : Option Bool} {next : State}
    {command : Option (List UInt8)} (h : s.await now time found next command = some e)
    (he : e.command ≠ none) :
    command ≠ none ∧ found = some true ∧ s.stateMeter.elapsedTime now ≤ time := by
  unfold SIM868.await at h
  by_cases htime : s.stateMeter.elapsedTime now ≤ time
  · rw [if_pos htime] at h
    obtain ⟨b, hfound, rfl⟩ := Option.map_eq_some_iff.mp h
    cases b with
    | false => exact absurd rfl he
    | true => exact ⟨he, hfound, htime⟩
  · rw [if_neg htime] at h
    obtain rfl := Option.some.inj h
    exact absurd rfl he

theorem awaited_of_dialogue {e : Effect} (h : s.dialogue homeVersion now answer = some e)
    (he : e.command ≠ none) : s.Awaited now answer := by
  unfold dialogue at h
  unfold Awaited
  cases hstate : s.state with
  | START => exact .inl rfl
  | RUNNING_MQTT =>
      rw [hstate] at h
      obtain rfl := Option.some.inj h
      exact absurd rfl he
  | WAIT_CREG_INIT | WAIT_CGNSURC =>
      rw [hstate] at h
      exact absurd rfl (await_command h he).1
  | WAIT_TCP_CONNECT =>
      rw [hstate] at h
      by_cases htime : s.stateMeter.elapsedTime now ≤ 160000
      · obtain ⟨connected, hconnected, h⟩ :=
          Option.bind_eq_some_iff.mp ((if_pos htime).symm.trans h)
        cases connected with
        | true => exact .inr ⟨hconnected, htime⟩
        | false =>
            obtain ⟨fail, -, h⟩ := Option.bind_eq_some_iff.mp h
            obtain rfl := Option.some.inj h
            cases fail <;> exact absurd rfl he
      · obtain rfl := Option.some.inj ((if_neg htime).symm.trans h)
        exact absurd rfl he
  | _ =>
      rw [hstate] at h
      exact .inr (await_command h he).2

/-- A call that transmits has found what it waits for. -/
theorem awaited_of_update {e : Effect} (h : s.update homeVersion now answer = some e)
    (he : e.command ≠ none) : s.Awaited now answer := by
  obtain ⟨unsolicited, -, h⟩ := Option.bind_eq_some_iff.mp h
  cases unsolicited with
  | handled | reset =>
      obtain rfl := Option.some.inj h
      exact absurd rfl he
  | passed => exact awaited_of_dialogue h he

/-! ## Runs of the dialogue -/

/-- What happens in the dialogue. -/
inductive Event
  | answer (answer : List UInt8)
  | command (text : List UInt8)
  | restart

/-- A call, at any time and with any answer; and `SIM868::Reset`, at any moment. -/
inductive Op
  | update (now : UInt32) (answer : List UInt8)
  | reset

/-- The state, and what has happened. -/
structure Dialogue where
  sim : SIM868
  history : List Event

namespace Dialogue

def boot : Dialogue := ⟨.boot, []⟩

def step (homeVersion : Bool) (d : Dialogue) : Op → Option Dialogue
  | .update now answer => (d.sim.update homeVersion now answer).map fun e =>
      ⟨e.sim, d.history ++ .answer answer :: e.command.toList.map .command⟩
  | .reset => some ⟨d.sim.reset, d.history ++ [.restart]⟩

/-- A set-up command. -/
def IsCommand : Event → Prop
  | .command _ => True
  | _ => False

/-- A line of the modem, or the start of a new dialogue. -/
def IsHeard : Event → Prop
  | .answer line => line ≠ []
  | .restart => True
  | .command _ => False

/-- **A set-up command answers an answer**: since every earlier one a line of the modem has been
received, or the dialogue has been started again. -/
def Acknowledged (pre : List Event) (e : Event) : Prop :=
  IsCommand e → Trace.Since IsCommand IsHeard pre

/-- A call that does not come to `WAIT_CIFSR` without an answer, before it times out. -/
def Answered (d : Dialogue) : Op → Prop
  | .update now answer => answer = [] → d.sim.state = .WAIT_CIFSR →
      ¬ d.sim.stateMeter.elapsedTime now ≤ defaultTime
  | .reset => True

instance (d : Dialogue) : DecidablePred (Answered d)
  | .update now answer => inferInstanceAs (Decidable (answer = [] → d.sim.state = .WAIT_CIFSR →
      ¬ d.sim.stateMeter.elapsedTime now ≤ defaultTime))
  | .reset => .isTrue trivial

/-- **The invariant**: in `START` the dialogue has been started again since every command. -/
structure Sound (d : Dialogue) : Prop where
  started : d.sim.state = .START → Trace.Since IsCommand IsHeard d.history
  acknowledged : Trace.Each Acknowledged d.history

theorem sound_boot : Sound boot := ⟨fun _ => Trace.since_nil, Trace.each_nil⟩

variable {d t : Dialogue}

/-- The answer of a call. -/
theorem Sound.snoc_answer (h : Sound d) (answer : List UInt8) :
    Sound { d with history := d.history ++ [.answer answer] } where
  started hstate := Trace.since_snoc.mpr ⟨not_false, .inr (h.started hstate)⟩
  acknowledged := Trace.each_snoc.mpr ⟨h.acknowledged, fun he => absurd he not_false⟩

/-- The command of a call, and the state it leads to. -/
theorem Sound.append_command (h : Sound d) {sim : SIM868} (hnext : sim.state ≠ .START)
    (hheard : Trace.Since IsCommand IsHeard d.history) (command : Option (List UInt8)) :
    Sound ⟨sim, d.history ++ command.toList.map .command⟩ := by
  refine ⟨fun hstate => absurd hstate hnext, ?_⟩
  cases command with
  | none =>
      show Trace.Each Acknowledged (d.history ++ [])
      rw [List.append_nil]
      exact h.acknowledged
  | some text => exact Trace.each_snoc.mpr ⟨h.acknowledged, fun _ => hheard⟩

theorem Sound.step {op : Op} (h : Sound d) (hanswered : Answered d op)
    (hstep : d.step homeVersion op = some t) : Sound t := by
  cases op with
  | reset =>
      obtain rfl := Option.some.inj hstep
      constructor
      · intro _
        exact Trace.since_snoc.mpr ⟨not_false, .inl trivial⟩
      · exact Trace.each_snoc.mpr ⟨h.acknowledged, fun he => absurd he not_false⟩
  | update now answer =>
      obtain ⟨e, he, rfl⟩ := Option.map_eq_some_iff.mp hstep
      have hlast := h.snoc_answer answer
      rw [← List.singleton_append, ← List.append_assoc]
      cases updates_of_update he with
      | keeps | resets | runs =>
          show Sound ⟨d.sim, d.history ++ [.answer answer] ++ []⟩
          rw [List.append_nil]
          exact hlast
      | starts hpassed hstate =>
          exact hlast.append_command (by simp [set]) (hlast.started hstate) _
      | goes hpassed hstart hrunning hnext hanswer hcommand =>
          refine hlast.append_command hnext ?_ _
          -- the call is for an answer: `WAIT_CIFSR` does not go on without
          refine Trace.since_snoc.mpr ⟨not_false, .inl fun hnil => ?_⟩
          obtain ⟨hcifsr, htime⟩ := hanswer hnil
          exact hanswered hnil hcifsr htime

/-- **The handshake is driven by answers.**  In every run in which `WAIT_CIFSR` is not called
without an answer, a set-up command follows another one only behind a line of the modem; and a
call without an answer that does not time out leaves each state between `START` and
`RUNNING_MQTT` alone, and transmits nothing, exactly if the state is not `WAIT_CIFSR`. -/
theorem acknowledged_and_polled :
    (∀ ops d, LTS.Run (LTS.Guarded Answered (LTS.stepOf (step homeVersion))) boot ops d →
      Trace.Each Acknowledged d.history) ∧
    ∀ (s : SIM868) (now : UInt32), s.state ≠ .START → s.state ≠ .RUNNING_MQTT →
      ∃ e, s.update homeVersion now [] = some e ∧
        (e.reset = false → (e.sim = s ∧ e.command = none ↔ s.state ≠ .WAIT_CIFSR)) := by
  constructor
  · intro ops d hrun
    have hsound : Sound d :=
      hrun.invariant sound_boot fun _ _ _ h hstep => h.step hstep.1 hstep.2
    exact hsound.acknowledged
  · intro s now hstart hrunning
    by_cases hcifsr : s.state = .WAIT_CIFSR
    · refine ⟨_, update_nil_cifsr hcifsr, fun hreset => ?_⟩
      by_cases htime : s.stateMeter.elapsedTime now ≤ defaultTime
      · rw [if_pos htime]
        exact ⟨fun h => absurd h.2 (by simp), fun h => absurd hcifsr h⟩
      · rw [if_neg htime] at hreset
        exact absurd hreset (by simp [resets])
    · rcases @update_nil homeVersion s now hstart hcifsr hrunning with hkeeps | hresets
      · exact ⟨_, hkeeps, fun _ => ⟨fun _ => hcifsr, fun _ => ⟨rfl, rfl⟩⟩⟩
      · exact ⟨_, hresets, fun hreset => absurd hreset (by simp [resets])⟩

/-- The dialogue up to `AT+CIFSR`. -/
def toCIFSR : List Op :=
  [[], ascii "OK", ascii "RDY", ascii "OK", ascii "OK", ascii "+CREG: 1",
    ascii "STATE: IP INITIAL", ascii "OK", ascii "STATE: IP START", ascii "OK",
    ascii "STATE: IP GPRSACT"].map (.update 0)

theorem acknowledged_and_polled_toCIFSR :
    (∃ d, LTS.Run (LTS.Guarded Answered (LTS.stepOf (step true))) boot toCIFSR d ∧
      Trace.Each Acknowledged d.history) ∧
    ∃ e, (SIM868.set .boot .WAIT_ATE0 0).update true 0 [] = some e ∧
      (e.reset = false → (e.sim = SIM868.set .boot .WAIT_ATE0 0 ∧ e.command = none ↔
        State.WAIT_ATE0 ≠ .WAIT_CIFSR)) := by
  obtain ⟨hruns, hpolls⟩ := @acknowledged_and_polled true
  have hrun : LTS.Run (LTS.Guarded Answered (LTS.stepOf (step true))) boot toCIFSR _ :=
    LTS.run_of_execRun_guardedBy rfl
  refine ⟨⟨_, hrun, hruns _ _ hrun⟩, ?_⟩
  exact hpolls (SIM868.set .boot .WAIT_ATE0 0) 0 (by decide) (by decide)

/-- The state behind `AT+CIFSR`. -/
def atCIFSR : Dialogue := (LTS.execRun (step true) boot toCIFSR).getD boot

/-- **A call without an answer** behind `AT+CIFSR` transmits the next command. -/
theorem not_acknowledged_poll :
    ∃ d, LTS.Run (LTS.stepOf (step true)) boot (toCIFSR ++ [.update 0 []]) d ∧
      ¬ Trace.Each Acknowledged d.history := by
  have hfirst : LTS.Run (LTS.stepOf (step true)) boot toCIFSR atCIFSR := LTS.run_of_execRun rfl
  have hpoll : atCIFSR.step true (.update 0 []) = some ⟨atCIFSR.sim.set .WAIT_IP_STATUS 0,
      atCIFSR.history ++ [.answer []] ++ [.command (ascii "AT+CIPSTATUS")]⟩ := by rfl
  refine ⟨_, hfirst.exec hpoll, fun hall => ?_⟩
  have hsince := (Trace.each_snoc.mp hall).2 trivial
  have hlast : atCIFSR.history = atCIFSR.history.dropLast ++ [.command (ascii "AT+CIFSR")] := by rfl
  rw [Trace.since_snoc, hlast, Trace.since_snoc] at hsince
  rcases hsince.2 with hheard | ⟨hcommand, -⟩
  · exact absurd rfl hheard
  · exact absurd trivial hcommand

end Dialogue

end SIM868

end USKD
