import USKD.Device.Session
import USKD.Device.Silence
import USKD.Lib.Script

/-!
# The set-up commands

From `ATE0` to `RUNNING_MQTT` the device transmits the commands of a fixed script, one for each
answer.  The states of `SIM868` say how far it has got, so that whatever the modem answers, and
however often the dialogue is started again, the commands since the last `ATE0` are a front of the
script (`handshake`).

The script does not stand alone on the line.  A packet of the server is handed to `MQTT::Update` in
every state, and a `Queue::Append` that waited through a reset goes on behind it: `AT+CIPSEND` and
`AT+CSQ` may come in between.  A packet of the device may not.  Its prompt is an answer like the
others, which only `RUNNING_MQTT` hands on.
-/

namespace USKD

namespace SIM868

/-- **The set-up commands**, in their order. -/
def script (homeVersion : Bool) : Script (List UInt8) where
  first := ascii "ATE0"
  rest :=
    [ascii "AT+IPR=115200", ascii "AT+GSMBUSY=1", ascii "AT+CREG=1", ascii "AT+CIPSTATUS",
      ascii "AT+CSTT=\"internet\",\"\",\"\"", ascii "AT+CIPSTATUS", ascii "AT+CIICR",
      ascii "AT+CIPSTATUS", ascii "AT+CIFSR", ascii "AT+CIPSTATUS",
      ascii "AT+CIPSTART=\"TCP\",\"85.143.167.242\",\"1883\"", ascii "AT+CIPHEAD=1",
      ascii "AT+CGNSPWR=1"] ++ if homeVersion then [] else [ascii "AT+CGNSURC=5"]
  fresh := by cases homeVersion <;> decide

/-- How many of them have been transmitted in a state. -/
def place (homeVersion : Bool) : State → ℕ
  | .START => 0
  | .WAIT_ATE0 => 1
  | .WAIT_BAUDRADE => 2
  | .WAIT_GSMBUSY => 3
  | .WAIT_CREG_INIT | .WAIT_REGISTRATION => 4
  | .WAIT_IP_INITIAL => 5
  | .WAIT_CSTT => 6
  | .WAIT_IP_START => 7
  | .WAIT_CIICR => 8
  | .WAIT_IP_GPRSACT => 9
  | .WAIT_CIFSR => 10
  | .WAIT_IP_STATUS => 11
  | .WAIT_TCP_CONNECT => 12
  | .WAIT_CIPHEAD => 13
  | .WAIT_CGNSPWR => 14
  | .WAIT_CGNSURC => 15
  | .RUNNING_MQTT => (script homeVersion).words.length

/-- A state of the dialogue that the build comes to. -/
def Entered (homeVersion : Bool) (state : State) : Prop :=
  state ≠ .START ∧ (homeVersion = true → state ≠ .WAIT_CGNSPWR ∧ state ≠ .WAIT_CGNSURC)

instance (homeVersion : Bool) : DecidablePred (Entered homeVersion) := fun _ =>
  inferInstanceAs (Decidable (_ ∧ (_ → _ ∧ _)))

/-- **What a change of the state says**: the first command, the next one, or nothing. -/
inductive Says (homeVersion : Bool) : State → Option (List UInt8) → State → Prop
  | stays {state : State} : Says homeVersion state none state
  | begins : Says homeVersion .START (some (script homeVersion).first) .WAIT_ATE0
  | passes {state next : State} (hstart : state ≠ .START) (hnext : Entered homeVersion next)
      (hplace : place homeVersion next = place homeVersion state) : Says homeVersion state none next
  | goes {state next : State} {command : List UInt8} (hstart : state ≠ .START)
      (hnext : Entered homeVersion next)
      (hcommand : (script homeVersion).words[place homeVersion state]? = some command)
      (hplace : place homeVersion next = place homeVersion state + 1) :
      Says homeVersion state (some command) next

variable {homeVersion : Bool} {s : SIM868} {now : UInt32} {answer : List UInt8} {e : Effect}

theorem place_ne_zero {state : State} (h : state ≠ .START) : place homeVersion state ≠ 0 := by
  cases state with
  | START => exact absurd rfl h
  | _ => exact Nat.succ_ne_zero _

theorem says_await {time : UInt32} {found : Option Bool} {next : State}
    {command : Option (List UInt8)} (h : s.await now time found next command = some e)
    (htold : Says homeVersion s.state command next) :
    Says homeVersion s.state e.command e.sim.state := by
  unfold SIM868.await at h
  by_cases htime : s.stateMeter.elapsedTime now ≤ time
  · rw [if_pos htime] at h
    obtain ⟨b, -, rfl⟩ := Option.map_eq_some_iff.mp h
    cases b with
    | false => exact .stays
    | true => exact htold
  · rw [if_neg htime] at h
    obtain rfl := Option.some.inj h
    exact .stays

/-- The last two states are not there with `HOME_VERSION`. -/
theorem eq_false_of_entered {state : State} (h : state = .START ∨ Entered homeVersion state)
    (hlast : state = .WAIT_CGNSPWR ∨ state = .WAIT_CGNSURC) : homeVersion = false := by
  rcases h with rfl | ⟨-, hhome⟩
  · exact absurd hlast (by decide)
  · refine Bool.eq_false_iff.mpr fun hversion => ?_
    obtain ⟨hnot, hnot'⟩ := hhome hversion
    exact hlast.elim hnot hnot'

/-- **Every state knows its command.** -/
theorem says_dialogue (h : s.dialogue homeVersion now answer = some e)
    (hentered : s.state = .START ∨ Entered homeVersion s.state) :
    Says homeVersion s.state e.command e.sim.state := by
  unfold dialogue at h
  cases hstate : s.state with
  | START =>
      rw [hstate] at h
      obtain rfl := Option.some.inj h
      exact .begins
  | RUNNING_MQTT =>
      rw [hstate] at h
      obtain rfl := Option.some.inj h
      exact hstate ▸ .stays
  | WAIT_TCP_CONNECT =>
      rw [hstate] at h
      by_cases htime : s.stateMeter.elapsedTime now ≤ 160000
      · obtain ⟨connected, -, h⟩ := Option.bind_eq_some_iff.mp ((if_pos htime).symm.trans h)
        cases connected with
        | true =>
            obtain rfl := Option.some.inj h
            show Says homeVersion .WAIT_TCP_CONNECT (some (ascii "AT+CIPHEAD=1")) .WAIT_CIPHEAD
            exact .goes (by decide) ⟨by decide, fun _ => by decide⟩ rfl rfl
        | false =>
            obtain ⟨fail, -, h⟩ := Option.bind_eq_some_iff.mp h
            obtain rfl := Option.some.inj h
            cases fail with
            | true => exact hstate ▸ .stays
            | false => exact hstate ▸ .stays
      · obtain rfl := Option.some.inj ((if_neg htime).symm.trans h)
        exact hstate ▸ .stays
  | WAIT_CREG_INIT =>
      rw [hstate] at h
      exact hstate ▸ says_await h (hstate ▸ .passes (by decide) ⟨by decide, fun _ => by decide⟩ rfl)
  | WAIT_CGNSPWR =>
      rw [hstate] at h
      obtain rfl := eq_false_of_entered hentered (.inl hstate)
      exact hstate ▸ says_await h (hstate ▸ .goes (by decide) (by decide) rfl rfl)
  | WAIT_CGNSURC =>
      rw [hstate] at h
      obtain rfl := eq_false_of_entered hentered (.inr hstate)
      exact hstate ▸ says_await h (hstate ▸ .passes (by decide) (by decide) rfl)
  | WAIT_CIPHEAD =>
      rw [hstate] at h
      -- with `HOME_VERSION` the script ends here
      cases homeVersion with
      | false => exact hstate ▸ says_await h (hstate ▸ .goes (by decide) (by decide) rfl rfl)
      | true => exact hstate ▸ says_await h (hstate ▸ .goes (by decide) (by decide) rfl rfl)
  | _ =>
      rw [hstate] at h
      exact hstate ▸ says_await h (hstate ▸ .goes (by decide) ⟨by decide, fun _ => by decide⟩ rfl rfl)

theorem says_of_update (h : s.update homeVersion now answer = some e)
    (hentered : s.state = .START ∨ Entered homeVersion s.state) :
    Says homeVersion s.state e.command e.sim.state := by
  obtain ⟨unsolicited, -, h⟩ := Option.bind_eq_some_iff.mp h
  cases unsolicited with
  | handled =>
      obtain rfl := Option.some.inj h
      exact .stays
  | reset =>
      obtain rfl := Option.some.inj h
      exact .stays
  | passed => exact says_dialogue h hentered

/-! ## How far the script has got -/

/-- **The state says how much of the script has been said.**  In `START` it may be any front. -/
structure Follows (homeVersion : Bool) (state : State) (commands : List (List UInt8)) : Prop where
  entered : state = .START ∨ Entered homeVersion state
  front : ∃ n, (script homeVersion).Reached commands n
  reached : state ≠ .START → (script homeVersion).Reached commands (place homeVersion state)

variable {state next : State} {commands : List (List UInt8)}

theorem follows_boot : Follows homeVersion .START [] where
  entered := .inl rfl
  front := ⟨0, Script.reached_nil⟩
  reached h := absurd rfl h

/-- `SIM868::Reset`. -/
theorem Follows.reset (h : Follows homeVersion state commands) :
    Follows homeVersion .START commands where
  entered := .inl rfl
  front := h.front
  reached hstart := absurd rfl hstart

/-- Commands that are not of the script. -/
theorem Follows.others (h : Follows homeVersion state commands) {others : List (List UInt8)}
    (hothers : ∀ c ∈ others, c ∉ (script homeVersion).words) :
    Follows homeVersion state (commands ++ others) where
  entered := h.entered
  front := h.front.imp fun _ hn => hn.others hothers
  reached hstart := (h.reached hstart).others hothers

/-- **One more command.** -/
theorem Follows.speak (h : Follows homeVersion state commands) {command : Option (List UInt8)}
    (htold : Says homeVersion state command next) :
    Follows homeVersion next (commands ++ command.toList) := by
  cases htold with
  | stays => exact (List.append_nil commands).symm ▸ h
  | begins =>
      have hfirst := Script.reached_first (s := script homeVersion) commands
      exact ⟨.inr ⟨by decide, fun _ => by decide⟩, ⟨1, hfirst⟩, fun _ => hfirst⟩
  | passes hstart hnext hplace =>
      rw [Option.toList_none, List.append_nil]
      exact ⟨.inr hnext, h.front, fun _ => hplace ▸ h.reached hstart⟩
  | goes hstart hnext hcommand hplace =>
      have hreached := (h.reached hstart).next (place_ne_zero hstart) hcommand
      exact ⟨.inr hnext, ⟨_, hreached⟩, fun _ => hplace ▸ hreached⟩

/-- In `RUNNING_MQTT` all of it has been said. -/
theorem Follows.whole (h : Follows homeVersion .RUNNING_MQTT commands) :
    (script homeVersion).said commands = (script homeVersion).words :=
  (h.reached (by decide)).whole (Nat.le_refl _)

end SIM868

namespace Device

open MQTT SIM868

/-! ## What `MQTT` puts in between -/

/-- The commands of a history. -/
def commands (history : List Event) : List (List UInt8) :=
  history.filterMap fun e => match e with
    | .command text => some text
    | _ => none

/-- `MQTT::Update` transmits `AT+CIPSEND`, or a packet for the prompt. -/
def ForPrompt (answer : List UInt8) : Event → Prop
  | .packet _ _ => answer = ascii ">"
  | .command text => text = ascii "AT+CIPSEND"
  | _ => True

variable {m : MQTT} {ran : Ran} {uid : Utils.String} {now : UInt32} {answer : List UInt8}

theorem MuteRan.forPrompt (h : MuteRan ran) : ∀ e ∈ ran.events, ForPrompt answer e := by
  intro e he
  have hmute := h.events e he
  cases e with
  | packet | command => exact absurd hmute not_false
  | _ => trivial

theorem forPrompt_of_updates {r : Request} {meter : TimeMeterMS} {connected : Bool}
    {e : Request.Effect} (h : r.Updates meter connected now answer e) :
    ∀ d ∈ e.events, ForPrompt answer d := by
  cases h with
  | asks hstate => exact List.forall_mem_singleton.mpr rfl
  | sends hstate htime hanswer =>
      exact List.forall_mem_cons.mpr ⟨hanswer, List.forall_mem_singleton.mpr trivial⟩
  | same | dumps | resets | connects | finishes => exact fun d hd => absurd hd List.not_mem_nil

/-- **`MQTT::Update`.** -/
theorem forPrompt_of_update (h : m.update uid now answer = some ran) :
    ∀ e ∈ ran.events, ForPrompt answer e := by
  cases outcome_of_update h with
  | mute hmute => exact hmute.forPrompt
  | resets hevents hreset =>
      rw [hevents]
      exact List.forall_mem_singleton.mpr trivial
  | speaks hspeaks hevents hreset =>
      rw [MQTT.update, hspeaks.1] at h
      obtain ⟨p, -, h⟩ := Option.bind_eq_some_iff.mp h
      obtain ⟨r, -, h⟩ := Option.bind_eq_some_iff.mp h
      have hupdates := r.updates_update m.meter m.isConnected now answer
      simp only [MQTT.follow] at h
      generalize r.update m.meter m.isConnected now answer = e at hupdates h
      cases hcall : e.call with
      | nothing =>
          rw [hcall] at h
          obtain ⟨m', -, rfl⟩ := Option.map_eq_some_iff.mp h
          exact forPrompt_of_updates hupdates
      | modemReset =>
          rw [hcall] at h
          obtain ⟨m', -, rfl⟩ := Option.map_eq_some_iff.mp h
          exact absurd hreset (by simp)
      | onConnect =>
          rw [hcall] at h
          exact (muteRan_send h).forPrompt

/-! ## Runs of the device -/

/-- A packet is put on the line behind the whole script. -/
def Prepared (b : Build) (pre : List Event) (e : Event) : Prop :=
  IsPacket e → (script b.homeVersion).said (commands pre) = (script b.homeVersion).words

/-- **The invariant.** -/
structure Scripted (b : Build) (sim : SIM868) (history : List Event) : Prop where
  follows : Follows b.homeVersion sim.state (commands history)
  prepared : Trace.Each (Prepared b) history

variable {b : Build} {sim : SIM868} {history events : List Event} {d t : Device} {op : Op}

theorem commands_append (history events : List Event) :
    commands (history ++ events) = commands history ++ commands events := List.filterMap_append

theorem scripted_boot (b : Build) : Scripted b SIM868.boot [] := ⟨follows_boot, Trace.each_nil⟩

/-- Events that are not of the script; packets among them only in `RUNNING_MQTT`. -/
theorem Scripted.others (h : Scripted b sim history)
    (hcommands : ∀ c ∈ commands events, c ∉ (script b.homeVersion).words)
    (hpackets : ∀ e ∈ events, IsPacket e → sim.state = .RUNNING_MQTT) :
    Scripted b sim (history ++ events) where
  follows := by
    rw [commands_append]
    exact h.follows.others hcommands
  prepared := by
    refine h.prepared.append fun pre hpre e he hpacket => ?_
    have hfollows := h.follows
    rw [hpackets e he hpacket] at hfollows
    rw [commands_append]
    refine (hfollows.others fun c hc => hcommands c ?_).whole
    exact (hpre.filterMap _).subset hc

theorem Scripted.silent (h : Scripted b sim history) (hcommands : commands events = [])
    (hpackets : ∀ e ∈ events, ¬ IsPacket e) : Scripted b sim (history ++ events) := by
  refine h.others ?_ fun e he hpacket => absurd hpacket (hpackets e he)
  rw [hcommands]
  exact fun c hc => absurd hc List.not_mem_nil

theorem Scripted.reset (h : Scripted b sim history) : Scripted b sim.reset history :=
  ⟨h.follows.reset, h.prepared⟩

/-- Neither `AT+CIPSEND` nor `AT+CSQ` is a set-up command. -/
theorem not_mem_words (homeVersion : Bool) :
    ascii "AT+CIPSEND" ∉ (script homeVersion).words ∧ ascii "AT+CSQ" ∉ (script homeVersion).words := by
  cases homeVersion with
  | false => decide
  | true => decide

/-- The code of `MQTT` has run. -/
theorem Scripted.run (h : Scripted b d.sim d.history) {ran : Option Ran}
    (hran : ∀ r, ran = some r → ∀ e ∈ r.events, ForPrompt answer e)
    (hprompt : answer = ascii ">" → d.sim.state = .RUNNING_MQTT) :
    Scripted b (d.run ran).sim (d.run ran).history := by
  cases ran with
  | none => exact h
  | some ran =>
      show Scripted b d.sim (d.history ++ ran.events)
      refine h.others (fun c hc => ?_) fun e he hpacket => ?_
      · obtain ⟨e, he, hcommand⟩ := List.mem_filterMap.mp hc
        have hprompt := hran ran rfl e he
        cases e with
        | command text =>
            obtain rfl := Option.some.inj hcommand
            obtain rfl : text = ascii "AT+CIPSEND" := hprompt
            exact (not_mem_words b.homeVersion).1
        | _ => exact absurd hcommand (by simp)
      · have hevent := hran ran rfl e he
        cases e with
        | packet r connected => exact hprompt hevent
        | _ => exact absurd hpacket not_false

/-- The state machine has gone on. -/
theorem Scripted.speak (h : Scripted b sim history) {sim' : SIM868} {command : Option (List UInt8)}
    (htold : Says b.homeVersion sim.state command sim'.state)
    (hcommands : commands events = command.toList) (hpackets : ∀ e ∈ events, ¬ IsPacket e) :
    Scripted b sim' (history ++ events) where
  follows := by
    rw [commands_append, hcommands]
    exact h.follows.speak htold
  prepared := h.prepared.append fun _ _ e he hpacket => absurd hpacket (hpackets e he)

/-- **`SIM868::Update`.** -/
theorem Scripted.simUpdate (h : Scripted b d.sim d.history)
    (ht : d.simUpdate b now answer = some t) : Scripted b t.sim t.history := by
  obtain ⟨e, he, rfl⟩ := Option.map_eq_some_iff.mp ht
  have htold := says_of_update he h.follows.entered
  cases updates_of_update he with
  | keeps => exact h.speak htold rfl (by simp [keeps, IsPacket])
  | resets => exact h.speak htold rfl (by simp [resets, IsPacket])
  | starts hpassed hstate => exact h.speak htold rfl (by simp [IsPacket])
  | @goes hpassed hstart hrunning next hnext hanswer command hcommand =>
      cases command with
      | none => exact h.speak htold rfl (by simp [IsPacket])
      | some text => exact h.speak htold rfl (by simp [IsPacket])
  | runs hpassed hstate =>
      have hanswered : Scripted b d.sim (d.history ++ [.answer answer]) :=
        h.speak htold rfl (by simp [IsPacket])
      exact @Scripted.run answer b { d with
        calls := .checkCSQ :: d.calls
        history := d.history ++ [.answer answer] } hanswered _
        (fun r hr => forPrompt_of_update hr) fun _ => hstate

/-- **`Modem::Update`.** -/
theorem Scripted.modemUpdate (h : Scripted b d.sim d.history) (env : Modem.Env)
    (calls : List Call) :
    Scripted b (d.modemUpdate env calls).sim (d.modemUpdate env calls).history := by
  rw [Device.modemUpdate]
  split
  · refine h.silent ?_ ?_
    · split <;> rfl
    · split <;> simp [IsPacket]
  · split
    · exact h
    · exact h.reset.silent rfl (by simp [IsPacket])
  · exact h

/-- **Step lemma.** -/
theorem Scripted.step (h : Scripted b d.sim d.history) (hstep : d.step b op = some t) :
    Scripted b t.sim t.history := by
  cases (steps_of_step hstep).2 with
  | idles hcalls hdue => exact h
  | @sends now hcalls hdue =>
      exact @Scripted.run [] b { d with
        meter := .reset now
        calls := [.device] } h _ (fun r hr => (muteRan_send hr).forPrompt) fun hnil =>
          absurd hnil (by decide)
  | update hcalls => exact h.modemUpdate _ _
  | waits hcalls hfull => exact h.modemUpdate _ _
  | @stored p next calls hcalls hroom =>
      exact @Scripted.run [] b { d with calls } h _
        (fun r hr => (muteRan_resume hr).forPrompt) fun hnil => absurd hnil (by decide)
  | answer hcalls hanswer ht => exact h.simUpdate ht
  | @poll now calls t hcalls ht => exact @Scripted.simUpdate now [] b { d with calls } t h ht
  | @packet now answer calls hcalls hconfirms =>
      have hanswered : Scripted b d.sim (d.history ++ [.answer answer]) :=
        h.silent rfl (by simp [IsPacket])
      refine @Scripted.run answer b { d with
        history := d.history ++ [.answer answer] } hanswered _
        (fun r hr => forPrompt_of_update hr) ?_
      -- no confirmation is a prompt
      rintro rfl
      exact absurd hconfirms (by decide)
  | refused hcalls => exact h.silent rfl (by simp [IsPacket])
  | @checkCSQ now calls hcalls =>
      show Scripted b (d.sim.checkCSQ now).1
        (d.history ++ (d.sim.checkCSQ now).2.toList.map .command)
      unfold SIM868.checkCSQ
      split
      · have hcsq : Scripted b d.sim (d.history ++ [.command (ascii "AT+CSQ")]) := by
          refine h.others (fun c hc => ?_) (by simp [IsPacket])
          rw [List.mem_singleton.mp hc]
          exact (not_mem_words b.homeVersion).2
        exact ⟨hcsq.follows, hcsq.prepared⟩
      · exact h.silent rfl (by simp [IsPacket])

theorem scripted_of_run {ops : List Op} (hrun : LTS.Run (LTS.stepOf (step b)) boot ops d) :
    Scripted b d.sim d.history :=
  @LTS.Run.invariant _ _ _ _ _ _ (fun d => Scripted b d.sim d.history) hrun (scripted_boot b)
    fun _ _ _ h hstep => h.step hstep

/-- **The handshake.**  In every run of the device, whatever the modem and the server say and
however often the modem is reset, the set-up commands since the last `ATE0` are a front of the
script; they are the whole script in `RUNNING_MQTT`, and before every packet. -/
theorem handshake {ops : List Op} (hrun : LTS.Run (LTS.stepOf (step b)) boot ops d) :
    (script b.homeVersion).said (commands d.history) <+: (script b.homeVersion).words ∧
      (d.sim.state = .RUNNING_MQTT →
        (script b.homeVersion).said (commands d.history) = (script b.homeVersion).words) ∧
      Trace.Each (Prepared b) d.history := by
  have hscripted := scripted_of_run hrun
  obtain ⟨n, hfront⟩ := hscripted.follows.front
  refine ⟨hfront.front, fun hrunning => ?_, hscripted.prepared⟩
  have hfollows := hscripted.follows
  rw [hrunning] at hfollows
  exact hfollows.whole

set_option maxRecDepth 100000 in
/-- The board without sensors has come to its first connection. -/
theorem handshake_connected :
    (script true).said (commands connected.history) = (script true).words ∧
      Trace.Each (Prepared home) connected.history := by
  have hrun : LTS.Run (LTS.stepOf (step home)) boot toConnected connected :=
    run_connected.mono fun _ _ _ h => h.step
  obtain ⟨-, hrunning, hprepared⟩ := handshake hrun
  exact ⟨hrunning (by decide), hprepared⟩

end Device

end USKD
