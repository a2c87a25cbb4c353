import USKD.Device.Control

/-!
# Behind `Modem::Reset`

`Modem::Reset` notes that the power sequence is to begin again, and returns to its caller.  The
modem is switched off in a later call of `Modem::Update`, and switched on again behind it; the
first thing it is to hear then is `ATE0`.

The callers of `Modem::Reset` go on meanwhile: `InData::Update` hands the answers it finds next
to `SIM868::Update`, and this one looks at the time of the last `AT+CSQ` behind `MQTT::Update`.
Nothing stops them from transmitting, so that what is said here of a run is said of one in which
none of these calls finds what it transmits for.

The queue need not be in order for it: the events of `MQTT::Update` are looked at without the
discipline of the queue.
-/

namespace USKD.Device

open MQTT

/-! ## The history behind a reset -/

def IsModemReset (e : Event) : Prop := e = .modemReset

def IsPowered (e : Event) : Prop := e = .powered

def IsATE0 (e : Event) : Prop := e = .command (ascii "ATE0")

/-- Something is transmitted to the modem. -/
def Transmits : Event → Prop
  | .command _ | .packet _ _ | .terminator => True
  | _ => False

/-- **The first thing transmitted behind `Modem::Reset`** is `ATE0`, once the power sequence has
come to its end. -/
def Restarted (pre : List Event) (e : Event) : Prop :=
  ¬ Trace.Since IsModemReset IsATE0 pre → Transmits e →
    IsATE0 e ∧ Trace.Since IsModemReset IsPowered pre

/-- Events with which nothing is transmitted and the modem is left alone. -/
def Mute : Event → Prop
  | .answer _ | .append _ | .current _ _ _ | .mqttReset => True
  | _ => False

theorem Mute.not_transmits {e : Event} (h : Mute e) : ¬ Transmits e := by
  cases e with
  | answer | append | current | mqttReset => exact not_false
  | _ => exact absurd h not_false

theorem Mute.not_reset {e : Event} (h : Mute e) : ¬ IsModemReset e := by
  rintro rfl
  exact h

theorem Transmits.not_reset {e : Event} (h : Transmits e) : ¬ IsModemReset e := by
  rintro rfl
  exact h

/-! ## What `MQTT` transmits -/

/-- Code that transmits nothing and leaves the modem alone. -/
structure MuteRan (ran : Ran) : Prop where
  events : ∀ e ∈ ran.events, Mute e
  reset : ran.reset = false

/-- **`MQTT::Update` transmits**: the current request has yet to ask for its prompt, or gets it. -/
def Speaks (m : MQTT) (now : UInt32) (answer : List UInt8) : Prop :=
  m.state = .RUNNING ∧ ∃ r ∈ m.request, r.state = .IDLE ∨
    r.state = .NEED_SEND ∧ ¬ m.meter.elapsedTime now > 1000 ∧ answer = ascii ">"

variable {m : MQTT} {ran : Ran} {uid : Utils.String} {now : UInt32} {answer : List UInt8}

theorem muteRan_ran (m : MQTT) : MuteRan (MQTT.ran m) where
  events _ he := absurd he List.not_mem_nil
  reset := rfl

theorem MuteRan.after (h : MuteRan ran) {events : List Event} (hes : ∀ e ∈ events, Mute e) :
    MuteRan (ran.after events) where
  events e he := (List.mem_append.mp he).elim (hes e) (h.events e)
  reset := h.reset

theorem muteRan_get (m : MQTT) : MuteRan m.get := by
  unfold MQTT.get
  split
  · exact muteRan_ran _
  · exact (muteRan_ran _).after (by simp [Mute])

theorem muteRan_resume {next : Then} (h : m.resume next = some ran) : MuteRan ran := by
  cases next with
  | device =>
      obtain rfl := Option.some.inj h
      exact muteRan_ran m
  | connect =>
      obtain rfl := Option.some.inj h
      exact muteRan_get m
  | answer p =>
      obtain ⟨r, -, h⟩ := Option.bind_eq_some_iff.mp h
      obtain ⟨m', -, h⟩ := Option.bind_eq_some_iff.mp h
      obtain rfl := Option.some.inj h
      exact muteRan_ran m'

theorem muteRan_append {p : ℕ} {next : Then} (h : m.append p next = some ran) : MuteRan ran := by
  unfold MQTT.append at h
  split at h
  · obtain rfl := Option.some.inj h
    exact ⟨by simp [Mute], rfl⟩
  · obtain ⟨ran', hran', rfl⟩ := Option.map_eq_some_iff.mp h
    exact (muteRan_resume hran').after (by simp [Mute])

theorem muteRan_send {request : RequestMQTT} {next : Then} (h : m.send request next = some ran) :
    MuteRan ran := by
  by_cases hconnected : m.isConnected = true
  · exact muteRan_append ((if_pos hconnected).symm.trans h)
  · obtain ⟨heap, -, h⟩ := Option.bind_eq_some_iff.mp ((if_neg hconnected).symm.trans h)
    exact muteRan_resume h

/-- **What `MQTT::Update` can do** to the modem: nothing, a reset, or a transmission, for which
the current request has to be ready. -/
inductive Outcome (m : MQTT) (now : UInt32) (answer : List UInt8) (ran : Ran) : Prop
  | mute (h : MuteRan ran)
  | resets (hevents : ran.events = [.modemReset]) (hreset : ran.reset = true)
  | speaks (hspeaks : Speaks m now answer) (hevents : ∀ e ∈ ran.events, Transmits e)
      (hreset : ran.reset = false)

theorem outcome_of_update (h : m.update uid now answer = some ran) : Outcome m now answer ran := by
  unfold MQTT.update at h
  cases hstate : m.state with
  | IDLE =>
      rw [hstate] at h
      simp only at h
      split at h
      · exact .mute (muteRan_append h)
      · obtain rfl := Option.some.inj h
        have htaken : MuteRan (if m.current = none then m.get else MQTT.ran m) := by
          split
          · exact muteRan_get m
          · exact muteRan_ran m
        exact .mute ⟨htaken.events, htaken.reset⟩
  | RUNNING =>
      rw [hstate] at h
      obtain ⟨p, hcurrent, h⟩ := Option.bind_eq_some_iff.mp h
      obtain ⟨r, hr, h⟩ := Option.bind_eq_some_iff.mp h
      have hrequest := request_of_current hcurrent hr
      have he := r.updates_update m.meter m.isConnected now answer
      simp only at h
      generalize r.update m.meter m.isConnected now answer = e at he h
      unfold MQTT.follow at h
      cases he with
      | same | dumps | finishes =>
          obtain ⟨m', -, rfl⟩ := Option.map_eq_some_iff.mp h
          exact .mute ⟨fun e he => absurd he List.not_mem_nil, rfl⟩
      | asks hidle =>
          obtain ⟨m', -, rfl⟩ := Option.map_eq_some_iff.mp h
          exact .speaks ⟨hstate, r, hrequest, .inl hidle⟩ (by simp [Transmits]) rfl
      | sends hneed htime hanswer =>
          obtain ⟨m', -, rfl⟩ := Option.map_eq_some_iff.mp h
          refine .speaks ⟨hstate, r, hrequest, .inr ⟨hneed, htime, hanswer⟩⟩ ?_ rfl
          simp [Transmits]
      | resets =>
          obtain ⟨m', -, rfl⟩ := Option.map_eq_some_iff.mp h
          exact .resets rfl rfl
      | connects => exact .mute (muteRan_send h)

/-! ## The modem behind a reset -/

/-- **The invariant behind a reset.** -/
structure Restart (modem : Modem) (s : SIM868) (history : List Event) : Prop where
  power : ¬ Trace.Since IsModemReset IsPowered history → modem.state ≠ .HARDWARE_IS_OK
  start : ¬ Trace.Since IsModemReset IsATE0 history → modem.state = .HARDWARE_IS_OK →
    s.state = .START
  off : modem.state ≠ .IDLE → modem.state ≠ .HARDWARE_IS_OK → s.state = .START
  each : Trace.Each Restarted history

variable {modem : Modem} {s s' : SIM868} {history events : List Event}

theorem restart_boot : Restart Modem.boot SIM868.boot [] where
  power h := absurd Trace.since_nil h
  start h := absurd Trace.since_nil h
  off _ _ := rfl
  each := Trace.each_nil

/-- The dialogue has been started again, or there has been no reset. -/
theorem Restart.closed (h : Restart modem s history) (hok : modem.state = .HARDWARE_IS_OK)
    (hstart : s.state ≠ .START) : Trace.Since IsModemReset IsATE0 history :=
  by_contra fun hopen => hstart (h.start hopen hok)

theorem Restart.mute (h : Restart modem s history) (hes : ∀ e ∈ events, Mute e)
    (hstart : s.state = .START → s'.state = .START) : Restart modem s' (history ++ events) := by
  have hold {S : Event → Prop} (hnot : ¬ Trace.Since IsModemReset S (history ++ events)) :
      ¬ Trace.Since IsModemReset S history := fun hsince =>
    hnot ((Trace.since_append fun e he => (hes e he).not_reset).mpr (.inr hsince))
  refine ⟨fun hnot => h.power (hold hnot), fun hnot hok => hstart (h.start (hold hnot) hok), ?_, ?_⟩
  · exact fun hidle hok => hstart (h.off hidle hok)
  · exact h.each.append fun pre _ e he _ htransmits =>
      absurd htransmits (hes e he).not_transmits

/-- `Modem::Reset`. -/
theorem Restart.reset (h : Restart modem s history) :
    Restart modem.reset s (history ++ [.modemReset]) where
  power _ := by simp [Modem.reset]
  start _ hok := absurd hok (by simp [Modem.reset])
  off hidle := absurd rfl hidle
  each := Trace.each_snoc.mpr ⟨h.each, fun _ htransmits => absurd htransmits not_false⟩

/-- A transmission when no restart is going on. -/
theorem Restart.transmit (h : Restart modem s history) (hok : modem.state = .HARDWARE_IS_OK)
    (hclosed : Trace.Since IsModemReset IsATE0 history) (hes : ∀ e ∈ events, Transmits e) :
    Restart modem s' (history ++ events) := by
  have hnew {S : Event → Prop} {es : List Event} (hsub : ∀ e ∈ es, e ∈ events)
      (hsince : Trace.Since IsModemReset S history) : Trace.Since IsModemReset S (history ++ es) :=
    (Trace.since_append fun e he => (hes e (hsub e he)).not_reset).mpr (.inr hsince)
  refine ⟨fun hnot => ?_, fun hopen => ?_, fun _ hnot => absurd hok hnot, ?_⟩
  · exact h.power fun hsince => hnot (hnew (fun _ => id) hsince)
  · exact absurd (hnew (fun _ => id) hclosed) hopen
  · refine h.each.append fun pre hpre e _ hopen => ?_
    exact absurd (hnew (fun _ hmem => hpre.subset hmem) hclosed) hopen

/-- The dialogue is started again. -/
theorem Restart.ate0 (h : Restart modem s history) (hok : modem.state = .HARDWARE_IS_OK) :
    Restart modem s' (history ++ [.command (ascii "ATE0")]) where
  power hnot := by
    refine h.power fun hsince => hnot (Trace.since_snoc.mpr ⟨?_, .inr hsince⟩)
    simp [IsModemReset]
  start hopen := by
    exact (hopen (Trace.since_snoc.mpr ⟨by simp [IsModemReset], .inl rfl⟩)).elim
  off _ hnot := absurd hok hnot
  each := by
    refine Trace.each_snoc.mpr ⟨h.each, fun _ _ => ⟨rfl, ?_⟩⟩
    exact by_contra fun hnot => h.power hnot hok

variable {d t : Device} {b : Build} {op : Op}

/-- Code of `MQTT` that transmits nothing. -/
theorem Restart.run_mute (h : Restart d.modem d.sim d.history) {ran : Option Ran}
    (hmute : ∀ r, ran = some r → MuteRan r) :
    Restart (d.run ran).modem (d.run ran).sim (d.run ran).history := by
  cases ran with
  | none => exact h
  | some ran =>
      have hran := hmute ran rfl
      show Restart (if ran.reset then d.modem.reset else d.modem) d.sim (d.history ++ ran.events)
      rw [hran.reset]
      exact h.mute hran.events id

/-- **`MQTT::Update`.** -/
theorem Restart.run_update (h : Restart d.modem d.sim d.history)
    (hspeaks : Speaks d.mqtt now answer → d.modem.state = .HARDWARE_IS_OK ∧
      Trace.Since IsModemReset IsATE0 d.history) :
    let t := d.run (d.mqtt.update uid now answer)
    Restart t.modem t.sim t.history := by
  cases hran : d.mqtt.update uid now answer with
  | none => exact h
  | some ran =>
      show Restart (if ran.reset then d.modem.reset else d.modem) d.sim (d.history ++ ran.events)
      cases outcome_of_update hran with
      | mute hmute =>
          rw [hmute.reset]
          exact h.mute hmute.events id
      | resets hevents hreset =>
          rw [hevents, hreset]
          exact h.reset
      | speaks hready hevents hreset =>
          obtain ⟨hok, hclosed⟩ := hspeaks hready
          rw [hreset]
          exact h.transmit hok hclosed hevents

/-- The answer is not the one for which `SIM868::Update` transmits, nor `MQTT::Update` behind it. -/
def Passive (d : Device) (now : UInt32) (answer : List UInt8) : Prop :=
  ¬ d.sim.Awaited now answer ∧ (d.sim.state = .RUNNING_MQTT → ¬ Speaks d.mqtt now answer)

/-- **`SIM868::Update`.** -/
theorem Restart.simUpdate (h : Restart d.modem d.sim d.history)
    (hpassive : d.modem.state ≠ .HARDWARE_IS_OK →
      SIM868.processUnsolicited answer = some .passed → Passive d now answer)
    (ht : d.simUpdate b now answer = some t) : Restart t.modem t.sim t.history := by
  have hanswer : Restart d.modem d.sim (d.history ++ [.answer answer]) :=
    h.mute (by simp [Mute]) id
  cases simUpdates_of_simUpdate ht with
  | keeps => exact hanswer
  | resets =>
      show Restart d.modem.reset d.sim (d.history ++ [.answer answer, .modemReset])
      rw [List.append_cons]
      exact hanswer.reset
  | starts hpassed hstate =>
      show Restart d.modem _ (d.history ++ [.answer answer, .command (ascii "ATE0")])
      rw [List.append_cons]
      refine hanswer.ate0 (by_contra fun hnot => ?_)
      exact (hpassive hnot hpassed).1 (.inl hstate)
  | @goes hpassed hstart hrunning next hnext hnil command hcommand hawaited =>
      cases command with
      | none => exact h.mute (by simp [Mute]) fun hstate => absurd hstate hstart
      | some text =>
          -- a command is sent for the answer that is waited for, and such an answer is not found
          have hok : d.modem.state = .HARDWARE_IS_OK := by
            by_contra hnot
            exact (hpassive hnot hpassed).1 (hawaited (by simp))
          show Restart d.modem (d.sim.set next now) (d.history ++ [.answer answer, .command text])
          rw [List.append_cons]
          exact hanswer.transmit hok (hanswer.closed hok hstart) (by simp [Transmits])
  | runs hpassed hstate =>
      refine @Restart.run_update b.uid now answer { d with
        calls := .checkCSQ :: d.calls
        history := d.history ++ [.answer answer] } hanswer fun hspeaks => ?_
      have hok : d.modem.state = .HARDWARE_IS_OK := by
        by_contra hnot
        exact (hpassive hnot hpassed).2 hstate hspeaks
      exact ⟨hok, hanswer.closed hok (by rw [hstate]; decide)⟩

/-- **`Modem::Update`.** -/
theorem Restart.modemUpdate (h : Restart d.modem d.sim d.history) (env : Modem.Env)
    (calls : List Call) :
    let t := d.modemUpdate env calls
    Restart t.modem t.sim t.history := by
  unfold Device.modemUpdate
  cases hcall : (d.modem.update env).2 with
  | nothing =>
      obtain ⟨hidle, hok⟩ := Modem.state_of_nothing hcall
      have hstart := h.off hidle hok
      show Restart (d.modem.update env).1 d.sim (d.history ++ _)
      split
      -- the last call of the sequence powers the modem up
      · next hnew =>
        refine ⟨fun hnot => ?_, fun _ _ => hstart, fun _ hnot => absurd hnew hnot, ?_⟩
        · exact (hnot (Trace.since_snoc.mpr ⟨by simp [IsModemReset], .inl rfl⟩)).elim
        · exact Trace.each_snoc.mpr ⟨h.each, fun _ htransmits => absurd htransmits not_false⟩
      · next hnew =>
        rw [List.append_nil]
        exact ⟨fun _ => hnew, fun _ hok => absurd hok hnew, fun _ _ => hstart, h.each⟩
  | reset =>
      cases hreset : d.mqtt.reset with
      | none => exact h
      | some mqtt =>
          have hnew := Modem.update_of_idle env (Modem.state_of_reset hcall)
          show Restart (d.modem.update env).1 d.sim.reset (d.history ++ [Event.mqttReset])
          rw [hnew]
          refine ⟨fun _ => by simp, fun _ hok => absurd hok (by simp), fun _ _ => rfl, ?_⟩
          exact Trace.each_snoc.mpr ⟨h.each, fun _ htransmits => absurd htransmits not_false⟩
  | inDataUpdate =>
      show Restart (d.modem.update env).1 d.sim d.history
      rw [Modem.update_of_inDataUpdate hcall]
      exact h

/-! ## Runs of the device -/

/-- The modem has been reset, and `ATE0` is still to come. -/
def Restarting (d : Device) : Prop :=
  d.modem.state ≠ .HARDWARE_IS_OK ∨ d.sim.state = .START ∧ ∃ e ∈ d.history, IsModemReset e

/-- **Nothing is found to transmit for** behind a reset: `SIM868::Update` finds only answers
that `ProcessUnsolicited` deals with or that are not the ones waited for, no packet of the server
and no answer meets a request that is ready, and `AT+CSQ` is not due. -/
def Hushed (d : Device) : Op → Prop
  | .answer now answer => d.modem.state ≠ .HARDWARE_IS_OK →
      SIM868.processUnsolicited answer = some .passed → Passive d now answer
  | .poll now => d.modem.state ≠ .HARDWARE_IS_OK → Passive d now []
  | .packet now answer => Restarting d → ¬ Speaks d.mqtt now answer
  | .checkCSQ now => Restarting d → ¬ d.sim.meterCSQ.elapsedTime now > 5000
  | .loop _ | .update _ | .refused | .stored => True

instance : DecidablePred IsModemReset
  | .modemReset => .isTrue rfl
  | .answer _ | .command _ | .packet _ _ | .terminator | .powered | .mqttReset | .append _
  | .current _ _ _ => .isFalse (by simp [IsModemReset])

instance (m : MQTT) (now : UInt32) (answer : List UInt8) : Decidable (Speaks m now answer) :=
  inferInstanceAs (Decidable (_ ∧ ∃ r ∈ m.request, _))

instance (d : Device) (now : UInt32) (answer : List UInt8) : Decidable (Passive d now answer) :=
  inferInstanceAs (Decidable (¬ d.sim.Awaited now answer ∧ (_ → ¬ Speaks d.mqtt now answer)))

instance (d : Device) : Decidable (Restarting d) :=
  inferInstanceAs (Decidable (_ ∨ _ ∧ ∃ e ∈ d.history, IsModemReset e))

instance (d : Device) : DecidablePred (Hushed d)
  | .answer now answer => inferInstanceAs (Decidable (_ → _ → Passive d now answer))
  | .poll now => inferInstanceAs (Decidable (_ → Passive d now []))
  | .packet now answer => inferInstanceAs (Decidable (Restarting d → ¬ Speaks d.mqtt now answer))
  | .checkCSQ _ => inferInstanceAs (Decidable (Restarting d → ¬ _))
  | .loop _ | .update _ | .refused | .stored => .isTrue trivial

/-- No restart is going on. -/
theorem Restart.closed_of_not_restarting (h : Restart d.modem d.sim d.history)
    (hnot : ¬ Restarting d) : d.modem.state = .HARDWARE_IS_OK ∧
      Trace.Since IsModemReset IsATE0 d.history := by
  obtain ⟨hok, hstart⟩ := not_or.mp hnot
  rw [ne_eq, not_not] at hok
  refine ⟨hok, ?_⟩
  by_cases hstate : d.sim.state = .START
  · exact Trace.since_of_not fun e he hreset => hstart ⟨hstate, e, he, hreset⟩
  · exact h.closed hok hstate

/-- **A step** that finds nothing to transmit for. -/
theorem Restart.step (h : Restart d.modem d.sim d.history) (hhushed : Hushed d op)
    (hstep : d.step b op = some t) : Restart t.modem t.sim t.history := by
  obtain ⟨-, hsteps⟩ := steps_of_step hstep
  cases hsteps with
  | idles hcalls hdue => exact h
  | @sends now hcalls hdue =>
      exact @Restart.run_mute { d with
        meter := .reset now
        calls := [.device] } h _ fun r hr => muteRan_send hr
  | @update env calls hcalls => exact h.modemUpdate env calls
  | @waits env p next calls hcalls hfull => exact h.modemUpdate env d.calls
  | @stored p next calls hcalls hroom =>
      exact @Restart.run_mute { d with calls } h _ fun r hr => muteRan_resume hr
  | answer hcalls hanswer ht => exact h.simUpdate hhushed ht
  | @poll now calls t hcalls ht =>
      exact @Restart.simUpdate now [] { d with calls } t b h (fun hnot _ => hhushed hnot) ht
  | @packet now answer calls hcalls hconfirms =>
      have hanswer : Restart d.modem d.sim (d.history ++ [.answer answer]) :=
        h.mute (by simp [Mute]) id
      refine @Restart.run_update b.uid now answer { d with
        history := d.history ++ [.answer answer] } hanswer fun hspeaks => ?_
      obtain ⟨hok, hclosed⟩ := h.closed_of_not_restarting fun hrestarting =>
        hhushed hrestarting hspeaks
      exact ⟨hok, Trace.since_snoc.mpr ⟨by simp [IsModemReset], .inr hclosed⟩⟩
  | refused hcalls => exact h.reset
  | @checkCSQ now calls hcalls =>
      show Restart d.modem (d.sim.checkCSQ now).1
        (d.history ++ (d.sim.checkCSQ now).2.toList.map .command)
      unfold SIM868.checkCSQ
      split
      · next hdue =>
        obtain ⟨hok, hclosed⟩ := h.closed_of_not_restarting fun hrestarting =>
          hhushed hrestarting hdue
        exact h.transmit hok hclosed (by simp [Transmits])
      · show Restart d.modem d.sim (d.history ++ [])
        rw [List.append_nil]
        exact h

/-- **Nothing is transmitted behind `Modem::Reset`** before the power sequence has come to its
end and `ATE0` is transmitted, in a run that finds nothing to transmit for. -/
theorem hushed {ops : List Op}
    (hrun : LTS.Run (LTS.Guarded Hushed (LTS.stepOf (step b))) boot ops d) :
    Trace.Each Restarted d.history := by
  have hrestart : Restart d.modem d.sim d.history :=
    @LTS.Run.invariant _ _ _ _ _ _ (fun d => Restart d.modem d.sim d.history) hrun restart_boot
      fun _ _ _ h hstep => h.step hstep.1 hstep.2
  exact hrestart.each

/-- The connection is `CLOSED` in `RUNNING_MQTT`, and nothing else is received until the modem has
been switched off and on. -/
def closing : List Op :=
  roundAt 0 ++ powerUp 0 ++ setUp 4900 ++ [.answer 4900 (ascii "CLOSED"), .poll 4900,
    .checkCSQ 4900] ++ roundAt 4901 ++ powerUp 4901 ++ roundAt 9900 ++ [.poll 9900]

set_option maxRecDepth 100000 in
theorem hushed_closing :
    Trace.Each Restarted
      ((LTS.execRun (LTS.guardedBy Hushed (step home)) boot closing).getD boot).history :=
  hushed (LTS.run_getD_guardedBy (by decide))

/-- `CLOSED` is found in front of the answer to `ATE0`. -/
def closed : List Op :=
  roundAt 0 ++ powerUp 0 ++ roundAt 4900 ++ [Op.poll 4900] ++ roundAt 4901 ++
    [Op.answer 4901 (ascii "CLOSED")]

/-- The state of `closed`. -/
def shut : Device := (LTS.execRun (step home) boot closed).getD boot

set_option maxRecDepth 100000 in
/-- **The next answer is answered.**  The dialogue goes on in the call of `InData::Update` that
has reset the modem. -/
theorem not_hushed_closed :
    ∃ d, LTS.Run (LTS.stepOf (step home)) boot (closed ++ [.answer 4901 (ascii "OK")]) d ∧
      ¬ Trace.Each Restarted d.history := by
  have hfirst : LTS.Run (LTS.stepOf (step home)) boot closed shut := LTS.run_getD (by decide)
  have hanswer : shut.step home (.answer 4901 (ascii "OK")) = some { shut with
      sim := shut.sim.set .WAIT_BAUDRADE 4901
      history := shut.history ++ [.answer (ascii "OK")] ++
        [.command (ascii "AT+IPR=115200")] } := by
    rfl
  have hlast : shut.history.getLast? = some .modemReset := by rfl
  refine ⟨_, hfirst.exec hanswer, fun hall => ?_⟩
  have hrestarted := (Trace.each_snoc.mp hall).2
  have hopen : ¬ Trace.Since IsModemReset IsATE0 (shut.history ++ [.answer (ascii "OK")]) := by
    obtain ⟨old, hold⟩ := List.getLast?_eq_some_iff.mp hlast
    rw [Trace.since_snoc, hold, Trace.since_snoc]
    rintro ⟨-, hate0 | ⟨hnot, -⟩⟩
    · exact absurd hate0 (by simp [IsATE0])
    · exact hnot rfl
  have hate0 : ascii "AT+IPR=115200" = ascii "ATE0" :=
    Event.command.inj (hrestarted hopen trivial).1
  exact absurd hate0 (by decide)

end USKD.Device
