import USKD.Lib.Run
import USKD.Lib.Trace
import USKD.Modem.MQTT.MQTT

/-!
# The retries of a request

A request asks for the prompt, sends its packet, and waits for the confirmation.  If one of them
takes too long, its `Dumper` counts down from five: the request starts again, and from the fifth
timeout on it stays where it is, and the modem is reset each time.

The times are measured with one `meter` that all requests share, so that between two calls of
`Update` it may be set to anything.  What the bound of five rests on is not the meter but the order
of the states: a packet is sent in `NEED_SEND` only, which the request leaves then and comes back to
only through a timeout.

* `Does` is what one call does.
* `Sound` ties the counter and the state of the request to what its calls have done.
* `retried_and_confirmed` is what holds behind any calls.
-/

namespace USKD.MQTT.Request

/-- The tests for which `Update` calls `Dumper::Update`. -/
def TimedOut (r : Request) (meter : TimeMeterMS) (now : UInt32) : Prop :=
  r.state = .NEED_SEND ∧ meter.elapsedTime now > 1000 ∨
    r.state = .WAIT_CONFIRM ∧ meter.isFinished now = true

/-- `ProcessAnswer` is called, and returns `true`. -/
def Confirmed (r : Request) (meter : TimeMeterMS) (now : UInt32) (answer : List UInt8) : Prop :=
  r.state = .WAIT_CONFIRM ∧ meter.isFinished now = false ∧ answer = confirmation r.request

instance (r : Request) (meter : TimeMeterMS) (now : UInt32) : Decidable (r.TimedOut meter now) :=
  inferInstanceAs (Decidable (_ ∧ _ ∨ _ ∧ _))

instance (r : Request) (meter : TimeMeterMS) (now : UInt32) (answer : List UInt8) :
    Decidable (r.Confirmed meter now answer) :=
  inferInstanceAs (Decidable (_ ∧ _ ∧ _))

/-- A call of `Update`, from the request before it to the one behind it. -/
structure Done where
  before : Request
  timedOut : Bool
  confirmed : Bool
  /-- `Send` is executed. -/
  sent : Bool
  /-- `FuncDumped` asks for `Modem::Reset`. -/
  reset : Bool
  after : Request

/-- The packet of `Send`. -/
def isPacket : Device.Event → Bool
  | .packet .. => true
  | _ => false

/-- The request behind a call.  `OnConnect` returns to a `ProcessAnswer` that returns `true`. -/
def Effect.after (e : Effect) : Request :=
  if e.call = .onConnect then { e.request with state := .FINISHED } else e.request

/-- What a call of `Update` does. -/
def done (r : Request) (meter : TimeMeterMS) (connected : Bool) (now : UInt32)
    (answer : List UInt8) : Done :=
  let e := r.update meter connected now answer
  { before := r
    timedOut := r.TimedOut meter now
    confirmed := r.Confirmed meter now answer
    sent := e.events.any isPacket
    reset := e.call = .modemReset
    after := e.after }

/-- **What one call does.** -/
inductive Does (r : Request) : Done → Prop
  | keeps : Does r ⟨r, false, false, false, false, r⟩
  | asks (hstate : r.state = .IDLE) :
      Does r ⟨r, false, false, false, false, { r with state := .NEED_SEND }⟩
  | sends (hstate : r.state = .NEED_SEND) :
      Does r ⟨r, false, false, true, false, { r with state := .WAIT_CONFIRM }⟩
  | retries (hcounter : 1 < r.counter) :
      Does r ⟨r, true, false, false, false, { r with
        counter := r.counter - 1
        state := .IDLE }⟩
  | resets (hstate : r.state ≠ .FINISHED) (hcounter : r.counter ≤ 1) :
      Does r ⟨r, true, false, false, true, { r with counter := r.counter - 1 }⟩
  | confirms (hstate : r.state = .WAIT_CONFIRM) :
      Does r ⟨r, false, true, false, false, { r with state := .FINISHED }⟩

variable {r : Request} {meter : TimeMeterMS} {connected : Bool} {now : UInt32}
  {answer : List UInt8} {d : Done}

theorem not_confirmed_of_timedOut (h : r.TimedOut meter now) : ¬ r.Confirmed meter now answer := by
  rintro ⟨hwait, hrunning, -⟩
  rcases h with ⟨hneed, -⟩ | ⟨-, hfinished⟩
  · exact absurd (hneed.symm.trans hwait) (by decide)
  · exact absurd (hrunning.symm.trans hfinished) (by decide)

/-- A call that times out. -/
theorem does_of_timedOut (h : r.TimedOut meter now) (hupdate :
    r.update meter connected now answer = r.dump meter) :
    Does r (r.done meter connected now answer) := by
  have hconfirmed : ¬ r.Confirmed meter now answer := not_confirmed_of_timedOut h
  have hstate : r.state ≠ .FINISHED := by
    rcases h with ⟨hstate, -⟩ | ⟨hstate, -⟩ <;> rw [hstate] <;> decide
  unfold done
  simp only
  rw [hupdate, decide_eq_true h, decide_eq_false hconfirmed]
  unfold dump
  by_cases hcounter : r.counter - 1 > 0
  · simp only [if_pos hcounter]
    exact .retries (by omega)
  · simp only [if_neg hcounter]
    exact .resets hstate (by omega)

/-- **`RequestMQTT::Update`**, one call. -/
theorem does_done (r : Request) (meter : TimeMeterMS) (connected : Bool) (now : UInt32)
    (answer : List UInt8) : Does r (r.done meter connected now answer) := by
  by_cases htimedOut : r.TimedOut meter now
  · refine does_of_timedOut htimedOut ?_
    rcases htimedOut with ⟨hstate, htime⟩ | ⟨hstate, htime⟩
    · rw [update, hstate]
      exact if_pos htime
    · rw [update, hstate]
      exact if_pos htime
  · by_cases hconfirmed : r.Confirmed meter now answer
    · obtain ⟨hstate, htime, hanswer⟩ := hconfirmed
      have hdone : r.done meter connected now answer =
          ⟨r, false, true, false, false, { r with state := .FINISHED }⟩ := by
        unfold done update
        rw [decide_eq_false htimedOut, decide_eq_true ⟨hstate, htime, hanswer⟩, hstate, hanswer]
        simp only [htime, Bool.false_eq_true, if_false, if_true]
        cases r.request.isCONNECT <;> rfl
      rw [hdone]
      exact .confirms hstate
    · unfold done update
      rw [decide_eq_false htimedOut, decide_eq_false hconfirmed]
      cases hstate : r.state with
      | IDLE => exact .asks hstate
      | NEED_SEND =>
          have htime : ¬ meter.elapsedTime now > 1000 := fun h => htimedOut (.inl ⟨hstate, h⟩)
          simp only [if_neg htime]
          by_cases hanswer : answer = ascii ">"
          · simp only [if_pos hanswer]
            exact .sends hstate
          · simp only [if_neg hanswer]
            exact .keeps
      | WAIT_CONFIRM =>
          have htime : ¬ meter.isFinished now = true := fun h => htimedOut (.inr ⟨hstate, h⟩)
          have hanswer : ¬ answer = confirmation r.request := fun h =>
            hconfirmed ⟨hstate, Bool.eq_false_iff.mpr htime, h⟩
          simp only [if_neg htime, if_neg hanswer]
          exact .keeps
      | FINISHED => exact .keeps

/-! ## Runs -/

/-- A request, the shared meter, and the calls of `Update` so far. -/
structure Life where
  request : Request
  meter : TimeMeterMS
  history : List Done

/-- A call of `Update` at any time and with any answer; or calls of other requests, which leave the
meter at anything. -/
inductive Op
  | update (connected : Bool) (now : UInt32) (answer : List UInt8)
  | others (meter : TimeMeterMS)

/-- A step of the life of a request. -/
def Life.step (l : Life) : Op → Option Life
  | .update connected now answer =>
      let d := l.request.done l.meter connected now answer
      -- `counter--` of an `int` that cannot get smaller is undefined
      if d.after.counter < -2 ^ 31 then none
      else some ⟨d.after, (l.request.update l.meter connected now answer).meter, l.history ++ [d]⟩
  | .others meter => some { l with meter }

/-- The timeouts among the calls. -/
def timeouts (history : List Done) : ℕ := history.countP (·.timedOut)

/-- The calls that send the packet. -/
def sends (history : List Done) : ℕ := history.countP (·.sent)

/-- **The modem is reset** exactly by a timeout that is the fifth one, or a later one. -/
def ResetsFromFifth (pre : List Done) (d : Done) : Prop :=
  d.reset = true ↔ d.timedOut = true ∧ 5 ≤ timeouts (pre ++ [d])

/-- **A request is finished** by a call that confirms it. -/
def FinishedByAnswer (_ : List Done) (d : Done) : Prop :=
  d.after.state = .FINISHED → d.before.state = .FINISHED ∨
    d.before.state = .WAIT_CONFIRM ∧ d.confirmed = true

/-- Whether the request may send its packet without another timeout. -/
def unsent (state : RequestMQTT.State) : ℕ :=
  if state = .IDLE ∨ state = .NEED_SEND then 1 else 0

/-- **The invariant.**  The counter is what the timeouts have left of five; and a request that has
sent its packet has to time out, with a counter that has not come to its end, to send it again. -/
structure Sound (l : Life) : Prop where
  counter : l.request.counter = 5 - timeouts l.history
  sends : sends l.history + unsent l.request.state ≤ 1 + min (timeouts l.history) 4
  finished : l.request.state = .FINISHED →
    ∃ d ∈ l.history, d.before.state = .WAIT_CONFIRM ∧ d.confirmed = true
  answers : Trace.Each FinishedByAnswer l.history
  resets : Trace.Each ResetsFromFifth l.history

theorem sound_new (request : RequestMQTT) (meter : TimeMeterMS) :
    Sound ⟨.new request, meter, []⟩ where
  counter := rfl
  sends := Nat.le_refl 1
  finished h := absurd h (by simp [new])
  answers := Trace.each_nil
  resets := Trace.each_nil

theorem timeouts_snoc (history : List Done) (d : Done) :
    timeouts (history ++ [d]) = timeouts history + d.timedOut.toNat := by
  rw [timeouts, List.countP_append, List.countP_singleton]
  cases d.timedOut <;> rfl

theorem sends_snoc (history : List Done) (d : Done) :
    sends (history ++ [d]) = sends history + d.sent.toNat := by
  rw [sends, List.countP_append, List.countP_singleton]
  cases d.sent <;> rfl

/-- What a finished request rests on stays in the history. -/
theorem Sound.finished_snoc {l : Life} (h : Sound l) (hd : Does l.request d)
    (hfinished : d.after.state = .FINISHED) :
    ∃ e ∈ l.history ++ [d], e.before.state = .WAIT_CONFIRM ∧ e.confirmed = true := by
  have hold : l.request.state = .FINISHED →
      ∃ e ∈ l.history ++ [d], e.before.state = .WAIT_CONFIRM ∧ e.confirmed = true := fun hstate => by
    obtain ⟨e, he, hconfirmed⟩ := h.finished hstate
    exact ⟨e, List.mem_append_left _ he, hconfirmed⟩
  cases hd with
  | keeps => exact hold hfinished
  | resets hstate => exact hold hfinished
  | confirms hstate => exact ⟨_, List.mem_append_right _ List.mem_cons_self, hstate, rfl⟩
  | asks | sends | retries => exact absurd hfinished (by simp)

theorem Does.finishedByAnswer (hd : Does r d) : FinishedByAnswer [] d := by
  intro hfinished
  cases hd with
  | keeps => exact .inl hfinished
  | resets hstate => exact absurd hfinished hstate
  | confirms hstate => exact .inr ⟨hstate, rfl⟩
  | asks | sends | retries => exact absurd hfinished (by simp)

/-- **One call keeps the invariant.** -/
theorem Sound.done {l : Life} (h : Sound l) (hd : Does l.request d) (meter : TimeMeterMS) :
    Sound ⟨d.after, meter, l.history ++ [d]⟩ := by
  have hcounter := h.counter
  have hsends := h.sends
  refine ⟨?_, ?_, h.finished_snoc hd, Trace.each_snoc.mpr ⟨h.answers, hd.finishedByAnswer⟩,
    Trace.each_snoc.mpr ⟨h.resets, ?_⟩⟩
  · simp only [timeouts_snoc]
    cases hd <;> simp only [Bool.toNat_false, Bool.toNat_true] <;> omega
  · simp only [timeouts_snoc, sends_snoc]
    cases hd with
    | keeps => exact hsends
    | asks hstate | sends hstate =>
        rw [hstate] at hsends
        exact hsends
    | retries hcounter' =>
        simp only [unsent, Bool.toNat_false, Bool.toNat_true, true_or, if_true]
        omega
    | resets hstate hcounter' =>
        simp only [Bool.toNat_false, Bool.toNat_true]
        omega
    | confirms hstate =>
        rw [hstate] at hsends
        exact hsends
  · unfold ResetsFromFifth
    rw [timeouts_snoc]
    cases hd with
    | retries hcounter' =>
        simp only [Bool.false_eq_true, Bool.toNat_true, true_and, false_iff]
        omega
    | resets hstate hcounter' =>
        simp only [Bool.toNat_true, true_and, true_iff]
        omega
    | keeps | asks | sends | confirms => simp

theorem Sound.step {l l' : Life} (h : Sound l) {op : Op} (hstep : l.step op = some l') :
    Sound l' := by
  cases op with
  | update connected now answer =>
      obtain ⟨-, hstep⟩ := Option.ite_none_left_eq_some.mp hstep
      obtain rfl := Option.some.inj hstep
      exact h.done (does_done _ _ _ _ _) _
  | others meter =>
      obtain rfl := Option.some.inj hstep
      exact ⟨h.counter, h.sends, h.finished, h.answers, h.resets⟩

/-- **Five attempts.**  Behind any calls of `Update`, at any times and with any answers, whatever
other requests have done with the meter in between: the packet has been sent at most five times, the
request has been finished by an answer that confirms it, and the modem has been reset on the
timeouts from the fifth one on. -/
theorem retried_and_confirmed {request : RequestMQTT} {meter : TimeMeterMS} {ops : List Op}
    {l : Life} (hrun : LTS.Run (LTS.stepOf Life.step) ⟨.new request, meter, []⟩ ops l) :
    sends l.history ≤ 5 ∧
      (l.request.state = .FINISHED →
        ∃ d ∈ l.history, d.before.state = .WAIT_CONFIRM ∧ d.confirmed = true) ∧
      Trace.Each FinishedByAnswer l.history ∧ Trace.Each ResetsFromFifth l.history := by
  have hsound : Sound l :=
    hrun.invariant (sound_new request meter) fun _ _ _ h hstep => h.step hstep
  have hsends := hsound.sends
  exact ⟨by omega, hsound.finished, hsound.answers, hsound.resets⟩

/-- A SUBSCRIBE that is sent five times without a confirmation; when another request has set the
meter again, it is confirmed. -/
def confirmedLate : List Op :=
  [0, 6000, 12000, 18000, 24000].flatMap (fun now => [Op.update true now [],
    .update true now (ascii ">"), .update true (now + 5000) []]) ++
    [.others ((TimeMeterMS.reset 30000).setResponseTime 30000 5000),
      .update true 30000 (ascii "SUBS OK")]

theorem retried_and_confirmed_late :
    ∃ l, LTS.Run (LTS.stepOf Life.step)
        ⟨.new (.SUBSCRIBE ⟨ascii "a", by decide⟩), .reset 0, []⟩ confirmedLate l ∧
      timeouts l.history = 5 ∧ sends l.history = 5 ∧ sends l.history ≤ 5 ∧
      (∃ d ∈ l.history, d.before.state = .WAIT_CONFIRM ∧ d.confirmed = true) ∧
      Trace.Each ResetsFromFifth l.history := by
  have hrun : LTS.Run (LTS.stepOf Life.step)
      ⟨.new (.SUBSCRIBE ⟨ascii "a", by decide⟩), .reset 0, []⟩ confirmedLate _ :=
    LTS.run_of_execRun rfl
  obtain ⟨hsends, hconfirmed, -, hresets⟩ := retried_and_confirmed hrun
  exact ⟨_, hrun, by decide, by decide, hsends, hconfirmed rfl, hresets⟩

end USKD.MQTT.Request
