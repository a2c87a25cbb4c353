import USKD.Device.Session

/-!
# The attempt to send a packet

A request asks for a prompt with `AT+CIPSEND`, sends its packet behind the prompt, and ends it
with the terminator.  Until then the modem takes every byte for one of the packet, so that
nothing else may be transmitted.

The order of the states of a request sees to the packet and its terminator.  It does not see to
the commands of the others: `SIM868::Update` looks at the time of the last `AT+CSQ` in the same
call that has asked for the prompt, a request that waits for longer than a second asks once more,
and a packet of the server may make a request ask in the middle of the set-up dialogue.
-/

namespace USKD.Device

open MQTT

/-! ## The history of an attempt -/

def IsCIPSEND (e : Event) : Prop := e = .command (ascii "AT+CIPSEND")

def IsTerminator (e : Event) : Prop := e = .terminator

/-- The attempt is over: the packet is ended, or `MQTT::Reset` has deleted its request. -/
def Closes (e : Event) : Prop := e = .terminator ∨ e = .mqttReset

/-- What an event makes of the current request. -/
def becomes (current : Option RequestMQTT) : Event → Option RequestMQTT
  | .current _ request _ => request
  | .mqttReset => none
  | _ => current

/-- The request made current last. -/
def currentIn (history : List Event) : Option RequestMQTT := history.foldl becomes none

/-- **Nothing but the packet.**  A command is transmitted when no attempt is going on; a packet is
the one of the current request, right behind the prompt, and the terminator follows it before
there is another packet. -/
def Prompted (pre : List Event) : Event → Prop
  | .command _ => Trace.Since IsCIPSEND Closes pre
  | .packet request _ =>
      currentIn pre = some request ∧ (∃ old, pre = old ++ [.answer (ascii ">")]) ∧
        Trace.Since IsPacket IsTerminator pre
  | .terminator => ∃ old request connected, pre = old ++ [.packet request connected]
  | _ => True

/-- Events that belong to no attempt. -/
def Quiet : Event → Prop
  | .answer _ | .modemReset | .powered | .append _ => True
  | _ => False

/-- The current request waits for its prompt, in `RUNNING_MQTT`. -/
def Asking (m : MQTT) (s : SIM868) : Prop :=
  (∃ r, m.request = some r ∧ r.state = .NEED_SEND) ∧ s.state = .RUNNING_MQTT

/-- **The invariant of an attempt.** -/
structure Attempt (m : MQTT) (s : SIM868) (history : List Event) : Prop where
  asking : ¬ Trace.Since IsCIPSEND Closes history → Asking m s
  current : ∀ r, m.request = some r → currentIn history = some r.request
  ended : Trace.Since IsPacket IsTerminator history
  each : Trace.Each Prompted history

variable {m m' : MQTT} {s s' : SIM868} {history events : List Event} {e : Event}

theorem currentIn_snoc (history : List Event) (e : Event) :
    currentIn (history ++ [e]) = becomes (currentIn history) e :=
  List.foldl_append

theorem currentIn_quiet (h : ∀ e ∈ events, Quiet e) :
    currentIn (history ++ events) = currentIn history := by
  unfold currentIn
  rw [List.foldl_append]
  generalize history.foldl becomes none = current
  induction events with
  | nil => rfl
  | cons e events ih =>
      have hhead := h e List.mem_cons_self
      have htail : ∀ d ∈ events, Quiet d := fun d hd => h d (List.mem_cons_of_mem e hd)
      rw [List.foldl_cons]
      cases e with
      | answer | modemReset | powered | append => exact ih htail
      | _ => exact absurd hhead not_false

theorem attempt_boot : Attempt MQTT.boot SIM868.boot [] where
  asking h := absurd Trace.since_nil h
  current r hr := absurd hr (by simp [MQTT.request, MQTT.boot])
  ended := Trace.since_nil
  each := Trace.each_nil

/-- The request that was current still is, or there is none. -/
def Continues (m m' : MQTT) : Prop :=
  ∀ r', m'.request = some r' → ∃ r, m.request = some r ∧ r.request = r'.request

theorem Continues.of_eq (h : m'.request = m.request) : Continues m m' :=
  fun r' hr' => ⟨r', h.symm.trans hr', rfl⟩

/-- Quiet events. -/
theorem Attempt.quiet (h : Attempt m s history) (hes : ∀ e ∈ events, Quiet e)
    (hasking : Asking m s → Asking m' s') (hcontinues : Continues m m') :
    Attempt m' s' (history ++ events) where
  asking hnot := by
    refine hasking (h.asking fun hsince => hnot ?_)
    refine (Trace.since_append fun e he hcipsend => ?_).mpr (.inr hsince)
    obtain rfl : e = _ := hcipsend
    exact hes _ he
  current r' hr' := by
    obtain ⟨r, hr, hsame⟩ := hcontinues r' hr'
    rw [currentIn_quiet hes, h.current r hr, hsame]
  ended := by
    refine (Trace.since_append fun e he hpacket => ?_).mpr (.inr h.ended)
    cases e with
    | packet => exact absurd (hes _ he) not_false
    | _ => exact hpacket
  each := by
    refine h.each.append fun pre _ e he => ?_
    cases e with
    | answer | modemReset | powered | append => trivial
    | _ => exact absurd (hes _ he) not_false

/-- The same request, and nothing said. -/
theorem Attempt.still (h : Attempt m s history) (hasking : Asking m s → Asking m' s')
    (hcontinues : Continues m m') : Attempt m' s' history := by
  have hquiet := @Attempt.quiet m m' s s' history [] h (by simp) hasking hcontinues
  rw [List.append_nil] at hquiet
  exact hquiet

/-- No attempt is going on while nothing is asked for. -/
theorem Attempt.closed (h : Attempt m s history) (hnot : ¬ Asking m s) :
    Trace.Since IsCIPSEND Closes history :=
  by_contra fun hopen => hnot (h.asking hopen)

/-- A command outside of an attempt. -/
theorem Attempt.command (h : Attempt m s history) (hnot : ¬ Asking m s) {text : List UInt8}
    (htext : text ≠ ascii "AT+CIPSEND") : Attempt m s' (history ++ [.command text]) where
  asking hopen := by
    refine absurd (Trace.since_snoc.mpr ⟨fun hcipsend => htext ?_, .inr (h.closed hnot)⟩) hopen
    exact Event.command.inj hcipsend
  current r hr := by
    rw [currentIn_snoc]
    exact h.current r hr
  ended := Trace.since_snoc.mpr ⟨not_false, .inr h.ended⟩
  each := Trace.each_snoc.mpr ⟨h.each, h.closed hnot⟩

/-- An attempt begins. -/
theorem Attempt.ask (h : Attempt m s history) (hnot : ¬ Asking m s) (hasking : Asking m' s)
    (hcontinues : Continues m m') :
    Attempt m' s (history ++ [.command (ascii "AT+CIPSEND")]) where
  asking _ := hasking
  current r' hr' := by
    obtain ⟨r, hr, hsame⟩ := hcontinues r' hr'
    rw [currentIn_snoc, h.current r hr, hsame]
    rfl
  ended := Trace.since_snoc.mpr ⟨not_false, .inr h.ended⟩
  each := Trace.each_snoc.mpr ⟨h.each, h.closed hnot⟩

/-- A request is made current. -/
theorem Attempt.take (h : Attempt m s history) (hnot : ¬ Asking m s) {r : Request}
    (hr : m'.request = some r) (p : ℕ) (connected : Bool) :
    Attempt m' s (history ++ [.current p (some r.request) connected]) where
  asking hopen := by
    refine absurd (Trace.since_snoc.mpr ⟨?_, .inr (h.closed hnot)⟩) hopen
    simp [IsCIPSEND]
  current r' hr' := by
    obtain rfl := Option.some.inj (hr.symm.trans hr')
    exact currentIn_snoc history _
  ended := Trace.since_snoc.mpr ⟨not_false, .inr h.ended⟩
  each := Trace.each_snoc.mpr ⟨h.each, trivial⟩

/-- The packet, and its end. -/
theorem Attempt.send {old : List Event} (h : Attempt m s (old ++ [.answer (ascii ">")]))
    {r : Request} (hr : m.request = some r) (hcontinues : Continues m m') (connected : Bool) :
    Attempt m' s' (old ++ [.answer (ascii ">")] ++ [.packet r.request connected, .terminator]) := by
  rw [List.append_cons (old ++ [Event.answer (ascii ">")])]
  refine ⟨fun hopen => ?_, fun r' hr' => ?_, ?_, ?_⟩
  · refine absurd (Trace.since_snoc.mpr ⟨?_, .inl (.inl rfl)⟩) hopen
    simp [IsCIPSEND]
  · obtain ⟨r₁, hr₁, hsame⟩ := hcontinues r' hr'
    rw [currentIn_snoc, currentIn_snoc, h.current r₁ hr₁, hsame]
    rfl
  · exact Trace.since_snoc.mpr ⟨not_false, .inl rfl⟩
  · refine Trace.each_snoc.mpr ⟨Trace.each_snoc.mpr ⟨h.each, ?_⟩, _, _, _, rfl⟩
    exact ⟨h.current r hr, ⟨_, rfl⟩, h.ended⟩

/-- `MQTT::Reset` ends the attempt. -/
theorem Attempt.reset (h : Attempt m s history) (hnone : m'.request = none) :
    Attempt m' s' (history ++ [.mqttReset]) where
  asking hopen := by
    refine absurd (Trace.since_snoc.mpr ⟨?_, .inl (.inr rfl)⟩) hopen
    simp [IsCIPSEND]
  current r hr := absurd (hnone.symm.trans hr) (by simp)
  ended := Trace.since_snoc.mpr ⟨not_false, .inr h.ended⟩
  each := Trace.each_snoc.mpr ⟨h.each, trivial⟩

/-! ## What the functions of `MQTT` do to an attempt -/

/-- The current request does not wait for its prompt for more than a second, or the last time. -/
def InTime (m : MQTT) (now : UInt32) : Prop :=
  ∀ r ∈ m.request, r.state = .NEED_SEND → m.meter.elapsedTime now > 1000 → r.counter ≤ 1

/-- `MQTT::Update` comes to a request that has yet to ask for its prompt. -/
def Begins (m : MQTT) : Prop := m.state = .RUNNING ∧ ∃ r ∈ m.request, r.state = .IDLE

/-- What `RequestMQTT::Update` does. -/
theorem Attempt.write (h : Attempt m s history) {p : ℕ} (hcurrent : m.current = some p)
    {r : Request} (hr : m.heap.get p = some r) {now : UInt32} {answer : List UInt8}
    {e : Request.Effect} (he : r.Updates m.meter m.isConnected now answer e)
    (hlast : ∃ old, history = old ++ [.answer answer]) (hin : InTime m now)
    (hbegins : r.state = .IDLE → s.state = .RUNNING_MQTT) :
    Attempt { m with
      heap := m.heap.write p e.request
      meter := e.meter } s (history ++ e.events) := by
  have hrequest := request_of_current hcurrent hr
  have hwritten := request_write hcurrent hr e.request e.meter
  have hcontinues : Continues m { m with
      heap := m.heap.write p e.request
      meter := e.meter } := by
    intro r' hr'
    obtain rfl := Option.some.inj (hwritten.symm.trans hr')
    exact ⟨r, hrequest, he.request_eq.symm⟩
  have hneeds : Asking m s → r.state = .NEED_SEND := by
    rintro ⟨⟨r₁, hr₁, hstate⟩, -⟩
    obtain rfl := Option.some.inj (hrequest.symm.trans hr₁)
    exact hstate
  cases he with
  | same =>
      rw [List.append_nil]
      exact h.still (fun hasking => ⟨⟨r, hwritten, hneeds hasking⟩, hasking.2⟩) hcontinues
  | asks hstate =>
      refine h.ask (fun hasking => ?_) ⟨⟨_, hwritten, rfl⟩, hbegins hstate⟩ hcontinues
      exact absurd (hstate.symm.trans (hneeds hasking)) (by decide)
  -- the answer that has just been read is the prompt
  | sends hstate htime hanswer =>
      obtain ⟨old, rfl⟩ := hlast
      subst hanswer
      exact h.send hrequest hcontinues m.isConnected
  -- a wait for the prompt that times out is the last one, and ends in a reset
  | dumps hstate hcounter =>
      rw [List.append_nil]
      refine h.still (fun hasking => ?_) hcontinues
      rcases hstate with ⟨hneed, htime⟩ | hwait
      · exact absurd (hin r hrequest hneed htime) (Int.not_le.mpr hcounter)
      · exact absurd (hwait.symm.trans (hneeds hasking)) (by decide)
  | resets hstate hcounter =>
      rw [List.append_nil]
      exact h.still (fun hasking => ⟨⟨_, hwritten, hneeds hasking⟩, hasking.2⟩) hcontinues
  | connects hstate =>
      rw [List.append_nil]
      exact h.still (fun hasking => ⟨⟨r, hwritten, hneeds hasking⟩, hasking.2⟩) hcontinues
  | finishes hstate =>
      rw [List.append_nil]
      refine h.still (fun hasking => ?_) hcontinues
      exact absurd (hstate.symm.trans (hneeds hasking)) (by decide)

/-- **`MQTT::Update`.** -/
theorem Attempt.updates (h : Attempt m s history) {waiting : List ℕ} {uid : Utils.String}
    {now : UInt32} {answer : List UInt8} {ran : Ran} (hran : m.Updates uid waiting now answer ran)
    (hlast : ∃ old, history = old ++ [.answer answer]) (hin : InTime m now)
    (hbegins : Begins m → s.state = .RUNNING_MQTT) :
    Attempt ran.mqtt s (history ++ ran.events) := by
  have hnone {m : MQTT} (hcurrent : m.current = none) : ¬ Asking m s := by
    rintro ⟨⟨r, hr, -⟩, -⟩
    exact absurd ((request_none hcurrent).symm.trans hr) (by simp)
  have hlater {p : ℕ} (hcurrent : m.current = some p) {r : Request} (hr : m.heap.get p = some r)
      (hstate : r.state = .WAIT_CONFIRM ∨ r.state = .FINISHED) : ¬ Asking m s := by
    rintro ⟨⟨r₁, hr₁, hneed⟩, -⟩
    obtain rfl := Option.some.inj ((request_of_current hcurrent hr).symm.trans hr₁)
    rcases hstate with hstate | hstate <;> exact absurd (hstate.symm.trans hneed) (by decide)
  cases hran with
  | connects hstate hconnected hcurrent =>
      have happend : Attempt m s (history ++ [.append m.heap.next]) :=
        h.quiet (by simp [Quiet]) id (.of_eq rfl)
      rw [List.append_cons]
      refine @Attempt.take m _ s _ happend (hnone hcurrent) (.new (connect uid)) ?_ m.heap.next
        false
      exact Heap.get_alloc_next m.heap _
  | idles hstate hcurrent =>
      show Attempt m s (history ++ [])
      rw [List.append_nil]
      exact h
  | @takes hstate hconnected hcurrent p ps hrequests r hr =>
      refine @Attempt.take m _ s _ h (hnone hcurrent) r ?_ p true
      exact hr
  | starts hstate hcurrent =>
      rw [List.append_nil]
      exact h.still id (.of_eq rfl)
  | goes hstate hcurrent hr he hcall =>
      refine h.write hcurrent hr he hlast hin fun hidle => hbegins ⟨hstate, _, ?_, hidle⟩
      exact request_of_current hcurrent hr
  | resets hstate hcurrent hr he hcall =>
      have hwritten := h.write hcurrent hr he hlast hin fun hidle =>
        hbegins ⟨hstate, _, request_of_current hcurrent hr, hidle⟩
      rw [← List.append_assoc]
      exact hwritten.quiet (by simp [Quiet]) id (.of_eq rfl)
  | finishes hstate hcurrent hr hready =>
      rw [List.append_nil]
      refine h.still (fun hasking => absurd hasking (hlater hcurrent hr hready)) ?_
      exact fun r' hr' => absurd ((request_none rfl).symm.trans hr') (by simp)
  | subscribes hstate hconnected hcurrent hr hready =>
      refine h.quiet (by simp [Quiet]) ?_ fun r' hr' => ?_
      · exact fun hasking => absurd hasking (hlater hcurrent hr (.inl hready))
      · exact absurd ((request_none rfl).symm.trans hr') (by simp)

/-- **`MQTT::Send`.** -/
theorem Attempt.sends (h : Attempt m s history) {waiting waiting' : List ℕ}
    (hsound : m.Sound waiting) {request : RequestMQTT} {ran : Ran}
    (hran : m.Sends request ran waiting') : Attempt ran.mqtt s (history ++ ran.events) := by
  have hsame := hsound.request_sends hran
  refine h.quiet ?_ ?_ (.of_eq hsame)
  · cases hran <;> simp [Quiet]
  · rintro ⟨⟨r, hr, hstate⟩, hsim⟩
    exact ⟨⟨r, hsame.trans hr, hstate⟩, hsim⟩

/-! ## Runs of the device -/

/-- **Nobody disturbs the attempt.**  The wait for the prompt does not time out with another try
left, no request asks for its prompt in the middle of the set-up dialogue, and the inquiry
`AT+CSQ` is not due while a request waits for its prompt; the queue is in order. -/
def Undisturbed (d : Device) : Op → Prop
  | .update env => Orderly d (.update env)
  | .answer now answer => SIM868.processUnsolicited answer = some .passed →
      d.sim.state = .RUNNING_MQTT → InTime d.mqtt now
  | .poll now => d.sim.state = .RUNNING_MQTT → InTime d.mqtt now
  | .packet now _ => InTime d.mqtt now ∧ (Begins d.mqtt → d.sim.state = .RUNNING_MQTT)
  | .checkCSQ now => (∃ r ∈ d.mqtt.request, r.state = .NEED_SEND) →
      ¬ d.sim.meterCSQ.elapsedTime now > 5000
  | .loop _ | .refused | .stored => True

instance (m : MQTT) (now : UInt32) : Decidable (InTime m now) :=
  inferInstanceAs (Decidable (∀ r ∈ m.request, _ → _ → _))

instance (m : MQTT) : Decidable (Begins m) :=
  inferInstanceAs (Decidable (_ ∧ ∃ r ∈ m.request, _))

instance (d : Device) : DecidablePred (Undisturbed d)
  | .update env => inferInstanceAs (Decidable (Orderly d (.update env)))
  | .answer _ _ => inferInstanceAs (Decidable (_ → _ → InTime d.mqtt _))
  | .poll _ => inferInstanceAs (Decidable (_ → InTime d.mqtt _))
  | .packet _ _ => inferInstanceAs (Decidable (InTime d.mqtt _ ∧ (Begins d.mqtt → _)))
  | .checkCSQ _ => inferInstanceAs (Decidable ((∃ r ∈ d.mqtt.request, _) → ¬ _))
  | .loop _ | .refused | .stored => .isTrue trivial

variable {d t : Device} {b : Build} {op : Op}

theorem Undisturbed.orderly (h : Undisturbed d op) : Orderly d op := by
  cases op with
  | update env => exact h
  | _ => trivial

theorem Attempt.run_update (h : Attempt d.mqtt d.sim d.history) {waiting : List ℕ}
    (hsound : d.mqtt.Sound waiting) {uid : Utils.String} {now : UInt32} {answer : List UInt8}
    (hlast : ∃ old, d.history = old ++ [.answer answer]) (hin : InTime d.mqtt now)
    (hbegins : Begins d.mqtt → d.sim.state = .RUNNING_MQTT) :
    let t := d.run (d.mqtt.update uid now answer)
    Attempt t.mqtt t.sim t.history := by
  obtain ⟨ran, hran, hupdates⟩ := hsound.update uid now answer
  rw [hran]
  exact h.updates hupdates hlast hin hbegins

theorem Attempt.simUpdate (h : Attempt d.mqtt d.sim d.history) {waiting : List ℕ}
    (hsound : d.mqtt.Sound waiting) {now : UInt32} {answer : List UInt8}
    (hin : SIM868.processUnsolicited answer = some .passed → d.sim.state = .RUNNING_MQTT →
      InTime d.mqtt now) (ht : d.simUpdate b now answer = some t) :
    Attempt t.mqtt t.sim t.history := by
  have hanswer : Attempt d.mqtt d.sim (d.history ++ [.answer answer]) :=
    h.quiet (by simp [Quiet]) id (.of_eq rfl)
  cases simUpdates_of_simUpdate ht with
  | keeps => exact hanswer
  | resets => exact h.quiet (by simp [Quiet]) id (.of_eq rfl)
  | starts hpassed hstate =>
      show Attempt d.mqtt _ (d.history ++ [Event.answer answer, .command (ascii "ATE0")])
      rw [List.append_cons]
      refine hanswer.command (fun hasking => ?_) (by decide)
      exact absurd (hstate.symm.trans hasking.2) (by decide)
  | @goes hpassed hstart hrunning next hnext hnil command hcommand =>
      cases command with
      | none => exact hanswer.still (fun hasking => absurd hasking.2 hrunning) (.of_eq rfl)
      | some text =>
          show Attempt d.mqtt (d.sim.set next now)
            (d.history ++ [Event.answer answer, .command text])
          rw [List.append_cons]
          refine hanswer.command (fun hasking => hrunning hasking.2) fun htext => ?_
          exact hcommand (congrArg some htext)
  | runs hpassed hstate =>
      exact @Attempt.run_update { d with
        calls := .checkCSQ :: d.calls
        history := d.history ++ [.answer answer] } hanswer _ hsound b.uid now answer ⟨_, rfl⟩
          (hin hpassed hstate) (fun _ => hstate)

/-- **`Modem::Update`** ends the attempt, if it resets. -/
theorem Attempt.modemUpdate (h : Attempt d.mqtt d.sim d.history) {waiting : List ℕ}
    (hsound : d.mqtt.Sound waiting) (hidle : d.modem.state = .IDLE → waiting = [])
    (env : Modem.Env) (calls : List Call) :
    let t := d.modemUpdate env calls
    Attempt t.mqtt t.sim t.history := by
  unfold Device.modemUpdate
  cases hcall : (d.modem.update env).2 with
  | nothing =>
      refine h.quiet (fun e he => ?_) id (.of_eq rfl)
      split at he
      · rw [List.mem_singleton.mp he]
        trivial
      · exact absurd he List.not_mem_nil
  | reset =>
      rw [hidle (Modem.state_of_reset hcall)] at hsound
      obtain ⟨heap, hreset, -⟩ := hsound.reset
      simp only [hreset]
      exact h.reset rfl
  | inDataUpdate => exact h

/-- **A step** keeps the attempt undisturbed. -/
theorem Attempt.step (h : Attempt d.mqtt d.sim d.history) (hordered : Ordered d)
    (hundisturbed : Undisturbed d op) (hstep : d.step b op = some t) :
    Attempt t.mqtt t.sim t.history := by
  have hsound := hordered.session.sound
  obtain ⟨-, hsteps⟩ := steps_of_step hstep
  cases hsteps with
  | idles hcalls hdue => exact h
  | sends hcalls hdue =>
      rw [hcalls] at hsound
      obtain ⟨ran, waiting, hran, hsends⟩ := hsound.send (MQTT.getTime b.uid)
      rw [hran]
      exact h.sends hsound hsends
  | @update env calls hcalls => exact h.modemUpdate hsound hundisturbed env calls
  | @waits env p next calls hcalls hfull => exact h.modemUpdate hsound hundisturbed env d.calls
  | @stored p next calls hcalls hroom =>
      obtain rfl : next = .device := hordered.device p next (by simp [hcalls])
      show Attempt (d.mqtt.store p) d.sim (d.history ++ [])
      rw [List.append_nil]
      exact h.still id (.of_eq rfl)
  | answer hcalls hanswer ht => exact h.simUpdate hsound hundisturbed ht
  | @poll now calls t hcalls ht =>
      exact @Attempt.simUpdate { d with calls } _ _ h _ hsound _ _ (fun _ => hundisturbed) ht
  | @packet now answer calls hcalls hconfirms =>
      have hanswer : Attempt d.mqtt d.sim (d.history ++ [.answer answer]) :=
        h.quiet (by simp [Quiet]) id (.of_eq rfl)
      exact @Attempt.run_update { d with history := d.history ++ [.answer answer] } hanswer _ hsound
        b.uid now answer ⟨_, rfl⟩ hundisturbed.1 hundisturbed.2
  | refused hcalls => exact h.quiet (by simp [Quiet]) id (.of_eq rfl)
  | @checkCSQ now calls hcalls =>
      show Attempt d.mqtt (d.sim.checkCSQ now).1
        (d.history ++ (d.sim.checkCSQ now).2.toList.map .command)
      unfold SIM868.checkCSQ
      split
      · next hdue =>
        refine h.command (fun hasking => ?_) (by decide)
        obtain ⟨⟨r, hr, hneed⟩, -⟩ := hasking
        exact hundisturbed ⟨r, hr, hneed⟩ hdue
      · show Attempt d.mqtt d.sim (d.history ++ [])
        rw [List.append_nil]
        exact h

/-- **Nothing but the packet** is transmitted between `AT+CIPSEND` and the terminator, in a run in
which nobody disturbs the attempt. -/
theorem packet_alone {ops : List Op}
    (hrun : LTS.Run (LTS.Guarded Undisturbed (LTS.stepOf (step b))) boot ops d) :
    Trace.Each Prompted d.history := by
  have hboth : Ordered d ∧ Attempt d.mqtt d.sim d.history := by
    refine @LTS.Run.invariant _ _ _ _ _ _ (fun d => Ordered d ∧ Attempt d.mqtt d.sim d.history)
      hrun ⟨ordered_boot, attempt_boot⟩ ?_
    rintro t op w ⟨hordered, hattempt⟩ ⟨hundisturbed, hstep⟩
    exact ⟨hordered.step hundisturbed.orderly hstep, hattempt.step hordered hundisturbed hstep⟩
  exact hboth.2.each

set_option maxRecDepth 100000 in
/-- The CONNECT is sent, confirmed, and the SUBSCRIBE behind it stored. -/
theorem packet_alone_connected :
    Trace.Each Prompted ((LTS.execRun (LTS.guardedBy Undisturbed (step home)) boot
      toConnected).getD boot).history :=
  packet_alone (LTS.run_getD_guardedBy (by decide))

/-- `RUNNING_MQTT` is reached before `AT+CSQ` is due for the first time, and the prompt is asked
for right behind that moment. -/
def inquiring : List Op :=
  roundAt 0 ++ powerUp 0 ++ setUp 4900 ++ running 4900 (ascii "OK") ++ running 4900 (ascii "OK") ++
    [Op.answer 5001 (ascii "OK")]

/-- The state of `inquiring`. -/
def inquired : Device := (LTS.execRun (step home) boot inquiring).getD boot

set_option maxRecDepth 100000 in
/-- **The inquiry goes into the packet.**  `AT+CIPSEND` is transmitted, and `AT+CSQ` in the same
call. -/
theorem not_packet_alone_inquiring :
    ∃ d, LTS.Run (LTS.stepOf (step home)) boot (inquiring ++ [.checkCSQ 5001]) d ∧
      ¬ Trace.Each Prompted d.history := by
  have hfirst : LTS.Run (LTS.stepOf (step home)) boot inquiring inquired := LTS.run_getD (by decide)
  have hcommand : (inquired.sim.checkCSQ 5001).2 = some (ascii "AT+CSQ") := by decide
  have hlast : inquired.history.getLast? = some (.command (ascii "AT+CIPSEND")) := by rfl
  obtain ⟨t, ht⟩ : ∃ t, inquired.step home (.checkCSQ 5001) = some t :=
    Option.isSome_iff_exists.mp (by decide)
  refine ⟨t, hfirst.exec ht, fun hall => ?_⟩
  obtain ⟨-, hsteps⟩ := steps_of_step ht
  cases hsteps with
  | checkCSQ hcalls =>
      rw [hcommand] at hall
      have hsince : Trace.Since IsCIPSEND Closes inquired.history := (Trace.each_snoc.mp hall).2
      obtain ⟨old, hold⟩ := List.getLast?_eq_some_iff.mp hlast
      rw [hold, Trace.since_snoc] at hsince
      exact hsince.1 rfl

end USKD.Device
