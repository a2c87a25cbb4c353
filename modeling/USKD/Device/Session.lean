import USKD.Device.Control

/-!
# A session with the server

A session begins with `MQTT::Reset`.  What is to hold in it: the first packet is a CONNECT, and
without a connection nothing else is made current or sent; the requests are made current in the
order in which they were given to `Queue::Append`, and none is lost or taken twice.

All of it rests on the discipline of the queue (`MQTT.Sound`), which `MQTT::Update` keeps.  One
thing breaks it: a `Queue::Append` that waits for room while `MQTT::Reset` clears the queue goes
on afterwards, and stores a request of the session before.
-/

namespace USKD.Device

open MQTT

/-! ## The history of a session -/

/-- The events since the last `MQTT::Reset`. -/
def session (history : List Event) : List Event :=
  history.foldl (fun events e => match e with
    | .mqttReset => []
    | e => events ++ [e]) []

/-- The requests given to `Queue::Append`. -/
def appended (events : List Event) : List ℕ :=
  events.filterMap fun e => match e with
    | .append p => some p
    | _ => none

/-- The requests made current. -/
def taken (events : List Event) : List ℕ :=
  events.filterMap fun e => match e with
    | .current p _ _ => some p
    | _ => none

def IsReset (e : Event) : Prop := e = .mqttReset

def IsPacket : Event → Prop
  | .packet _ _ => True
  | _ => False

/-- **CONNECT comes first**: without a connection no other request is made current or sent, and
no other packet is the first one since a `MQTT::Reset`. -/
def ConnectFirst (pre : List Event) : Event → Prop
  | .current _ request connected =>
      connected = false → ∃ r, request = some r ∧ r.isCONNECT = true
  | .packet request connected =>
      connected = false ∨ ¬ Trace.Since IsReset IsPacket pre → request.isCONNECT = true
  | _ => True

/-- Events that say nothing about the queue. -/
def Silent : Event → Prop
  | .current .. | .packet .. | .append _ | .mqttReset => False
  | _ => True

/-- Nothing has been sent in the session: there is no connection, and the current request has not
got its prompt. -/
def NotBegun (m : MQTT) : Prop :=
  m.isConnected = false ∧ ∀ r, m.request = some r → r.state = .IDLE ∨ r.state = .NEED_SEND

/-- **The invariant of a session.** -/
structure Session (m : MQTT) (waiting : List ℕ) (history : List Event) : Prop where
  sound : m.Sound waiting
  queued : appended (session history) = taken (session history) ++ m.requests ++ waiting
  fresh : ∀ p ∈ appended (session history), p < m.heap.next
  nodup : (appended (session history)).Nodup
  first : Trace.Each ConnectFirst history
  sent : ¬ Trace.Since IsReset IsPacket history → NotBegun m

variable {m : MQTT} {waiting : List ℕ} {history events : List Event} {e : Event}

theorem session_snoc (history : List Event) (e : Event) (h : e ≠ .mqttReset) :
    session (history ++ [e]) = session history ++ [e] := by
  unfold session
  rw [List.foldl_append, List.foldl_cons, List.foldl_nil]
  cases e with
  | mqttReset => exact absurd rfl h
  | _ => rfl

theorem session_reset (history : List Event) : session (history ++ [.mqttReset]) = [] := by
  unfold session
  rw [List.foldl_append, List.foldl_cons, List.foldl_nil]

theorem session_append (h : ∀ e ∈ events, e ≠ .mqttReset) :
    session (history ++ events) = session history ++ events := by
  induction events generalizing history with
  | nil => rw [List.append_nil, List.append_nil]
  | cons e events ih =>
      have hhead := h e List.mem_cons_self
      have htail : ∀ d ∈ events, d ≠ .mqttReset := fun d hd => h d (List.mem_cons_of_mem e hd)
      rw [← List.singleton_append, ← List.append_assoc, ih htail, session_snoc history e hhead,
        List.append_assoc]

theorem appended_append (events es : List Event) :
    appended (events ++ es) = appended events ++ appended es :=
  List.filterMap_append

theorem taken_append (events es : List Event) : taken (events ++ es) = taken events ++ taken es :=
  List.filterMap_append

/-- The empty history. -/
theorem session_boot : Session MQTT.boot [] [] where
  sound := MQTT.sound_reset _ _
  queued := rfl
  fresh _ hp := absurd hp List.not_mem_nil
  nodup := List.nodup_nil
  first := Trace.each_nil
  sent h := absurd Trace.since_nil h

/-- **More events**: what they take is the front of the queue, what they append goes to its end,
under a new address. -/
theorem Session.append (h : Session m waiting history) {m' : MQTT} {waiting' : List ℕ}
    (hsound : m'.Sound waiting') (hreset : ∀ e ∈ events, e ≠ .mqttReset)
    (hqueued : m.requests ++ waiting ++ appended events = taken events ++ m'.requests ++ waiting')
    (hfresh : appended events = [] ∧ m.heap.next ≤ m'.heap.next ∨
      appended events = [m.heap.next] ∧ m'.heap.next = m.heap.next + 1)
    (hfirst : Trace.Each ConnectFirst (history ++ events))
    (hsent : ¬ Trace.Since IsReset IsPacket (history ++ events) → NotBegun m') :
    Session m' waiting' (history ++ events) := by
  have hsession := @session_append history events hreset
  refine ⟨hsound, ?_, ?_, ?_, hfirst, hsent⟩
  · rw [hsession, appended_append, taken_append, h.queued, List.append_assoc (taken _),
      List.append_assoc (taken _), hqueued]
    simp only [List.append_assoc]
  · intro p hp
    rw [hsession, appended_append] at hp
    rcases hfresh with ⟨hnone, hnext⟩ | ⟨hone, hnext⟩
    · rw [hnone, List.append_nil] at hp
      exact Nat.lt_of_lt_of_le (h.fresh p hp) hnext
    · rw [hnext]
      rw [hone] at hp
      rcases List.mem_append.mp hp with hold | hnew
      · exact (h.fresh p hold).trans (Nat.lt_succ_self _)
      · rw [List.mem_singleton.mp hnew]
        exact Nat.lt_succ_self _
  · rw [hsession, appended_append]
    rcases hfresh with ⟨hnone, -⟩ | ⟨hone, -⟩
    · rw [hnone, List.append_nil]
      exact h.nodup
    · rw [hone]
      refine List.nodup_append'.mpr ⟨h.nodup, List.nodup_singleton _, ?_⟩
      rw [List.disjoint_singleton]
      exact fun hmem => absurd (h.fresh _ hmem) (Nat.lt_irrefl _)

/-- Without a packet, what has not begun has not begun yet. -/
theorem Session.not_sent (h : Session m waiting history) (hreset : ∀ e ∈ events, e ≠ .mqttReset)
    (hnot : ¬ Trace.Since IsReset IsPacket (history ++ events)) :
    (∀ e ∈ events, ¬ IsPacket e) ∧ NotBegun m := by
  rw [Trace.since_append (R := IsReset) hreset, not_or] at hnot
  exact ⟨fun e he hpacket => hnot.1 ⟨e, he, hpacket⟩, h.sent hnot.2⟩

/-- Silent events, and a state with the same queue. -/
theorem Session.silent (h : Session m waiting history) (hes : ∀ e ∈ events, Silent e) {m' : MQTT}
    (hsound : m'.Sound waiting) (hrequests : m'.requests = m.requests)
    (hnext : m.heap.next ≤ m'.heap.next) (hbegun : NotBegun m → NotBegun m') :
    Session m' waiting (history ++ events) := by
  have hreset : ∀ e ∈ events, e ≠ .mqttReset := by
    rintro e he rfl
    exact hes _ he
  have happended : appended events = [] := by
    refine List.filterMap_eq_nil_iff.mpr fun e he => ?_
    cases e with
    | append p => exact absurd (hes _ he) not_false
    | _ => rfl
  have htaken : taken events = [] := by
    refine List.filterMap_eq_nil_iff.mpr fun e he => ?_
    cases e with
    | current p r c => exact absurd (hes _ he) not_false
    | _ => rfl
  refine h.append hsound hreset ?_ (.inl ⟨happended, hnext⟩) ?_ fun hnot => ?_
  · rw [happended, htaken, List.append_nil, List.nil_append, hrequests]
  · refine h.first.append fun pre _ e he => ?_
    cases e with
    | current p r c => exact absurd (hes _ he) not_false
    | packet r c => exact absurd (hes _ he) not_false
    | _ => trivial
  · exact hbegun (h.not_sent hreset hnot).2

/-! ## What the functions of `MQTT` do to a session -/

/-- What `RequestMQTT::Update` does: it may send its packet, and is silent otherwise. -/
theorem events_of_updates {r : Request} {meter : TimeMeterMS} {connected : Bool} {now : UInt32}
    {answer : List UInt8} {e : Request.Effect} (h : r.Updates meter connected now answer e) :
    (∀ d ∈ e.events, Silent d) ∨
      r.state = .NEED_SEND ∧ e.request.state = .WAIT_CONFIRM ∧
        e.events = [.packet r.request connected, .terminator] := by
  cases h with
  | same | dumps | resets | connects | finishes => exact .inl fun d hd => absurd hd List.not_mem_nil
  | asks =>
      left
      intro d hd
      obtain rfl := List.mem_singleton.mp hd
      trivial
  | sends hstate => exact .inr ⟨hstate, rfl, rfl⟩

/-- The request goes on. -/
theorem Session.write (h : Session m waiting history) {p : ℕ} (hcurrent : m.current = some p)
    {r : Request} (hr : m.heap.get p = some r) {now : UInt32} {answer : List UInt8}
    {e : Request.Effect} (he : r.Updates m.meter m.isConnected now answer e)
    (hsound : MQTT.Sound { m with
      heap := m.heap.write p e.request
      meter := e.meter } waiting) :
    Session { m with
      heap := m.heap.write p e.request
      meter := e.meter } waiting (history ++ e.events) := by
  have hrequest := request_of_current hcurrent hr
  have hwritten := request_write hcurrent hr e.request e.meter
  rcases events_of_updates he with hsilent | ⟨hstate, hnew, hevents⟩
  · refine h.silent hsilent hsound rfl le_rfl fun hbegun => ⟨hbegun.1, fun r' hr' => ?_⟩
    obtain rfl := Option.some.inj (hwritten.symm.trans hr')
    have hearly := hbegun.2 r hrequest
    cases he with
    | same | connects => exact hearly
    | asks => exact .inr rfl
    | dumps => exact .inl rfl
    | resets => exact hearly
    | sends => exact absurd (hsilent _ List.mem_cons_self) not_false
    | finishes hwait => rcases hearly with h | h <;> exact absurd (h.symm.trans hwait) (by decide)
  · -- the packet: without a connection the current request is the CONNECT
    obtain ⟨r', hr', hkind⟩ := h.sound.current hcurrent
    obtain rfl := Option.some.inj (hr.symm.trans hr')
    have hfirst : ConnectFirst history (.packet r.request m.isConnected) := by
      rintro (hconnected | hnot)
      · rw [hkind, hconnected]
        rfl
      · rw [hkind, (h.sent hnot).1]
        rfl
    have hpacket : Session { m with
        heap := m.heap.write p e.request
        meter := e.meter } waiting (history ++ [.packet r.request m.isConnected]) := by
      refine h.append hsound (by simp) ?_ (.inl ⟨rfl, le_rfl⟩)
        (Trace.each_snoc.mpr ⟨h.first, hfirst⟩) fun hnot => ?_
      · show m.requests ++ waiting ++ [] = [] ++ m.requests ++ waiting
        rw [List.append_nil, List.nil_append]
      · exact absurd (Trace.since_snoc.mpr ⟨by simp [IsReset], .inl trivial⟩) hnot
    rw [hevents, ← List.singleton_append, ← List.append_assoc]
    exact hpacket.silent (by simp [Silent]) hsound rfl le_rfl id

/-- **`MQTT::Update`** keeps the session. -/
theorem Session.updates (h : Session m waiting history) {uid : Utils.String} {now : UInt32}
    {answer : List UInt8} {ran : Ran} (hran : m.Updates uid waiting now answer ran) :
    Session ran.mqtt waiting (history ++ ran.events) := by
  have hsound := (h.sound.updates hran).1
  cases hran with
  -- the queue is empty, so that the CONNECT is taken as soon as it is stored
  | connects hstate hconnected hcurrent =>
      obtain ⟨hrequests, rfl⟩ := h.sound.disconnected hconnected
      refine h.append hsound (by simp) ?_ (.inr ⟨rfl, rfl⟩) ?_ fun hnot => ⟨hconnected, ?_⟩
      · show m.requests ++ [] ++ [m.heap.next] = [m.heap.next] ++ m.requests ++ []
        rw [hrequests]
        rfl
      · rw [← List.singleton_append, ← List.append_assoc]
        exact Trace.each_snoc.mpr
          ⟨Trace.each_snoc.mpr ⟨h.first, trivial⟩, fun _ => ⟨_, rfl, rfl⟩⟩
      · intro r hr
        obtain rfl := Option.some.inj ((Heap.get_alloc_next m.heap _).symm.trans hr)
        exact .inl rfl
  | idles hstate hcurrent =>
      exact h.silent (fun e he => absurd he List.not_mem_nil) hsound rfl le_rfl id
  | @takes hstate hconnected hcurrent p ps hrequests r hr =>
      refine h.append hsound (by simp) ?_ (.inl ⟨rfl, le_rfl⟩) ?_ fun hnot => ?_
      · show m.requests ++ waiting ++ [] = [p] ++ ps ++ waiting
        rw [hrequests, List.append_nil]
        rfl
      · exact Trace.each_snoc.mpr ⟨h.first, fun hfalse => absurd hfalse (by simp)⟩
      · have hbegun := (h.not_sent (by simp) hnot).2
        exact absurd (hconnected.symm.trans hbegun.1) (by decide)
  | starts hstate hcurrent =>
      exact h.silent (fun e he => absurd he List.not_mem_nil) hsound rfl le_rfl id
  | goes hstate hcurrent hr he hcall => exact h.write hcurrent hr he hsound
  | resets hstate hcurrent hr he hcall =>
      have hwritten := h.write hcurrent hr he hsound
      rw [← List.append_assoc]
      exact hwritten.silent (by simp [Silent]) hsound rfl le_rfl id
  | finishes hstate hcurrent hr hready hheap =>
      refine h.silent (fun e he => absurd he List.not_mem_nil) hsound rfl hheap.next.ge ?_
      exact fun hbegun => ⟨hbegun.1, fun r hr => absurd hr (by simp [MQTT.request])⟩
  | @subscribes hstate hconnected p hcurrent r hr hready heap hheap =>
      obtain ⟨hrequests, rfl⟩ := h.sound.disconnected hconnected
      refine h.append hsound (by simp) ?_ (.inr ⟨rfl, hheap.next⟩) ?_ fun hnot => ?_
      · show m.requests ++ [] ++ [m.heap.next] = [] ++ [m.heap.next] ++ []
        rw [hrequests]
        rfl
      · exact Trace.each_snoc.mpr ⟨h.first, trivial⟩
      · -- the CONNECT has been sent, as it is being confirmed
        have hearly := (h.not_sent (by simp) hnot).2.2 r (request_of_current hcurrent hr)
        rcases hearly with h | h <;> exact absurd (h.symm.trans hready) (by decide)

/-- **`MQTT::Send`** of `GET::Time` keeps the session. -/
theorem Session.sends (h : Session m [] history) {request : RequestMQTT}
    (hkind : request.isCONNECT = false) {ran : Ran} {waiting' : List ℕ}
    (hran : m.Sends request ran waiting') :
    Session ran.mqtt waiting' (history ++ ran.events) := by
  have hsound := h.sound.sends hkind hran
  have hrequest := h.sound.request_sends hran
  cases hran with
  | stored hconnected hroom =>
      refine h.append hsound (by simp) ?_ (.inr ⟨rfl, rfl⟩) (Trace.each_snoc.mpr ⟨h.first, trivial⟩)
        fun hnot => ?_
      · show m.requests ++ [] ++ [m.heap.next] = [] ++ (m.requests ++ [m.heap.next]) ++ []
        rw [List.append_nil, List.append_nil, List.nil_append]
      · have hbegun := (h.not_sent (by simp) hnot).2
        exact absurd (hconnected.symm.trans hbegun.1) (by decide)
  | waits hconnected =>
      refine h.append hsound (by simp) ?_ (.inr ⟨rfl, rfl⟩) (Trace.each_snoc.mpr ⟨h.first, trivial⟩)
        fun hnot => ?_
      · show m.requests ++ [] ++ [m.heap.next] = [] ++ m.requests ++ [m.heap.next]
        rw [List.append_nil, List.nil_append]
      · have hbegun := (h.not_sent (by simp) hnot).2
        exact absurd (hconnected.symm.trans hbegun.1) (by decide)
  | @deleted hconnected heap hheap =>
      have hnext : m.heap.next ≤ heap.next := by
        rw [hheap.next]
        exact Nat.le_succ _
      refine h.silent (fun e he => absurd he List.not_mem_nil) hsound rfl hnext fun hbegun => ?_
      exact ⟨hbegun.1, fun r hr => hbegun.2 r (hrequest ▸ hr)⟩

/-- The request that waited is stored. -/
theorem Session.store {p : ℕ} (h : Session m [p] history)
    (hroom : m.requests.length ≠ maxRequests) : Session (m.store p) [] history where
  sound := h.sound.store hroom
  queued := by
    rw [h.queued]
    show _ = _ ++ (m.requests ++ [p]) ++ []
    rw [List.append_nil, List.append_assoc]
  fresh := h.fresh
  nodup := h.nodup
  first := h.first
  sent := h.sent

/-- **`MQTT::Reset`** begins a session. -/
theorem Session.reset (h : Session m [] history) :
    ∃ m', m.reset = some m' ∧ Session m' [] (history ++ [.mqttReset]) := by
  obtain ⟨heap, hreset, hnext⟩ := h.sound.reset
  refine ⟨_, hreset, sound_reset heap m.meter, ?_, ?_, ?_, ?_, ?_⟩
  · rw [session_reset]
    rfl
  · rw [session_reset]
    exact fun p hp => absurd hp List.not_mem_nil
  · rw [session_reset]
    exact List.nodup_nil
  · exact Trace.each_snoc.mpr ⟨h.first, trivial⟩
  · exact fun _ => ⟨rfl, fun r hr => absurd hr (by simp [MQTT.request])⟩

/-! ## Runs of the device -/

/-- The requests that wait for room, the innermost first. -/
def waitingIn (calls : List Call) : List ℕ :=
  calls.filterMap fun call => match call with
    | .append p _ => some p
    | _ => none

/-- **`MQTT::Reset` is not called while a `Queue::Append` waits.** -/
def Orderly (d : Device) : Op → Prop
  | .update _ => d.modem.state = .IDLE → waitingIn d.calls = []
  | _ => True

instance (d : Device) : DecidablePred (Orderly d)
  | .update _ => inferInstanceAs (Decidable (d.modem.state = .IDLE → waitingIn d.calls = []))
  | .loop _ | .answer _ _ | .poll _ | .packet _ _ | .refused | .checkCSQ _ | .stored =>
      .isTrue trivial

/-- **The invariant of the device**: at most one `Queue::Append` waits, the one of
`Device::Update`. -/
structure Ordered (d : Device) : Prop where
  session : Session d.mqtt (waitingIn d.calls) d.history
  device : ∀ p next, .append p next ∈ d.calls → next = .device
  one : (waitingIn d.calls).length ≤ 1
  alive : d.crashed = false

theorem ordered_boot : Ordered boot where
  session := session_boot
  device _ _ h := absurd h List.not_mem_nil
  one := Nat.zero_le _
  alive := rfl

variable {d t : Device} {b : Build} {op : Op}

/-- Calls with the same `Queue::Append`s. -/
theorem Ordered.calls (h : Ordered d) {calls : List Call}
    (hwaiting : waitingIn calls = waitingIn d.calls)
    (hmem : ∀ p next, .append p next ∈ calls → .append p next ∈ d.calls) :
    Ordered { d with calls } where
  session := hwaiting ▸ h.session
  device p next hcall := h.device p next (hmem p next hcall)
  one := hwaiting ▸ h.one
  alive := h.alive

/-- A state with the same calls. -/
theorem Ordered.next (h : Ordered d) (modem : Modem) (sim : SIM868) {mqtt : MQTT}
    {events : List Event} (hsession : Session mqtt (waitingIn d.calls) (d.history ++ events)) :
    Ordered { d with
      modem
      sim
      mqtt
      history := d.history ++ events } where
  session := hsession
  device := h.device
  one := h.one
  alive := h.alive

/-- A call of `MQTT::Update`. -/
theorem Ordered.run_update (h : Ordered d) (uid : Utils.String) (now : UInt32)
    (answer : List UInt8) : Ordered (d.run (d.mqtt.update uid now answer)) := by
  obtain ⟨ran, hran, hupdates⟩ := h.session.sound.update uid now answer
  have hwaiting := (h.session.sound.updates hupdates).2
  rw [hran, run, hwaiting]
  exact h.next _ d.sim (h.session.updates hupdates)

/-- Silent events. -/
theorem Ordered.silent (h : Ordered d) (modem : Modem) (sim : SIM868) {events : List Event}
    (hes : ∀ e ∈ events, Silent e) :
    Ordered { d with
      modem
      sim
      history := d.history ++ events } :=
  h.next modem sim (h.session.silent hes h.session.sound rfl le_rfl id)

theorem Ordered.simUpdate (h : Ordered d) {now : UInt32} {answer : List UInt8}
    (ht : d.simUpdate b now answer = some t) : Ordered t := by
  cases simUpdates_of_simUpdate ht with
  | keeps => exact h.silent d.modem d.sim (by simp [Silent])
  | resets => exact h.silent d.modem.reset d.sim (by simp [Silent])
  | starts => exact h.silent d.modem _ (by simp [Silent])
  | goes =>
      refine h.silent d.modem _ fun e he => ?_
      rcases List.mem_cons.mp he with rfl | hcommand
      · trivial
      · obtain ⟨text, -, rfl⟩ := List.mem_map.mp hcommand
        trivial
  | runs =>
      have hsilent : ∀ e ∈ [Event.answer answer], Silent e := by simp [Silent]
      have hanswer := h.silent d.modem d.sim hsilent
      have hcalled := hanswer.calls (rfl : waitingIn (.checkCSQ :: d.calls) = waitingIn d.calls)
        fun p next hmem => by simpa using hmem
      exact hcalled.run_update b.uid now answer

/-- **`Modem::Update`.** -/
theorem Ordered.modemUpdate (h : Ordered d) {env : Modem.Env} {calls : List Call}
    (hidle : d.modem.state = .IDLE → waitingIn d.calls = [])
    (hwaiting : waitingIn calls = waitingIn d.calls)
    (hmem : ∀ p next, .append p next ∈ calls → .append p next ∈ d.calls) :
    Ordered (d.modemUpdate env calls) := by
  unfold Device.modemUpdate
  cases hcall : (d.modem.update env).2 with
  | nothing =>
      simp only
      refine Ordered.calls (h.silent _ d.sim ?_) hwaiting hmem
      intro e he
      split at he
      · rw [List.mem_singleton.mp he]
        trivial
      · exact absurd he List.not_mem_nil
  | reset =>
      simp only
      have hnone := hidle (Modem.state_of_reset hcall)
      have hsession := h.session
      rw [hnone] at hsession
      obtain ⟨mqtt, hreset, hnew⟩ := hsession.reset
      rw [hreset]
      simp only
      rw [← hnone] at hnew
      exact Ordered.calls (h.next _ _ hnew) hwaiting hmem
  | inDataUpdate =>
      simp only
      have hmodem : Ordered { d with modem := (d.modem.update env).1 } :=
        ⟨h.session, h.device, h.one, h.alive⟩
      exact hmodem.calls hwaiting fun p next hcall => hmem p next (by simpa using hcall)

/-- The innermost call goes on to its end. -/
theorem Ordered.pop (h : Ordered d) {call : Call} {calls : List Call}
    (hcalls : d.calls = call :: calls) (hcall : ∀ p next, call ≠ .append p next) :
    Ordered { d with calls } := by
  refine h.calls ?_ fun p next hmem => ?_
  · rw [hcalls]
    cases call with
    | append p next => exact absurd rfl (hcall p next)
    | _ => rfl
  · rw [hcalls]
    exact List.mem_cons_of_mem _ hmem

/-- `Device::Update` sends its request. -/
theorem Ordered.send (h : Ordered d) (hcalls : d.calls = []) (meter : TimeMeterMS)
    {request : RequestMQTT} (hkind : request.isCONNECT = false) :
    Ordered ({ d with
      meter
      calls := [.device] }.run (d.mqtt.send request .device)) := by
  have hsession := h.session
  rw [hcalls] at hsession
  obtain ⟨ran, waiting, hran, hsends⟩ := hsession.sound.send request
  rw [hran]
  have hnew := hsession.sends hkind hsends
  cases hsends with
  | stored | deleted => exact ⟨hnew, by simp [run], Nat.zero_le _, h.alive⟩
  | waits =>
      refine ⟨hnew, fun p next hmem => ?_, Nat.le_refl 1, h.alive⟩
      rcases List.mem_cons.mp hmem with heq | hrest
      · exact (Call.append.inj heq).2
      · exact absurd hrest (by simp)

/-- The request of `Device::Update` is stored. -/
theorem Ordered.store (h : Ordered d) {p : ℕ} {next : Then} {calls : List Call}
    (hcalls : d.calls = .append p next :: calls) (hroom : d.mqtt.requests.length ≠ maxRequests) :
    Ordered ({ d with calls }.run ((d.mqtt.store p).resume next)) := by
  obtain rfl : next = .device := h.device p next (by simp [hcalls])
  have hone := h.one
  have hsession := h.session
  rw [hcalls] at hone hsession
  -- the call that is resumed is the only one that waits
  have hlast : waitingIn calls = [] :=
    List.eq_nil_of_length_eq_zero (Nat.le_zero.mp (Nat.le_of_succ_le_succ hone))
  have hwaiting : waitingIn (.append p .device :: calls) = [p] := by
    show p :: waitingIn calls = [p]
    rw [hlast]
  rw [hwaiting] at hsession
  have hstored := hsession.store hroom
  rw [← hlast] at hstored
  refine ⟨?_, fun q next hmem => h.device q next ?_, ?_, h.alive⟩
  · show Session (d.mqtt.store p) (waitingIn calls) (d.history ++ [])
    rw [List.append_nil]
    exact hstored
  · rw [hcalls]
    exact List.mem_cons_of_mem _ hmem
  · show (waitingIn calls).length ≤ 1
    rw [hlast]
    exact Nat.zero_le 1

/-- **A step** keeps the invariant, if no `Queue::Append` waits while `MQTT::Reset` is called. -/
theorem Ordered.step (h : Ordered d) (horderly : Orderly d op) (hstep : d.step b op = some t) :
    Ordered t := by
  obtain ⟨-, hsteps⟩ := steps_of_step hstep
  cases hsteps with
  | idles hcalls hdue =>
      refine h.calls ?_ ?_
      · rw [hcalls]
        rfl
      · simp
  | @sends now hcalls hdue => exact h.send hcalls (.reset now) rfl
  | @update env calls hcalls =>
      refine h.modemUpdate horderly ?_ ?_
      · rw [hcalls]
        rfl
      · intro p next hmem
        rw [hcalls]
        exact List.mem_cons_of_mem _ hmem
  | waits hcalls hfull => exact h.modemUpdate horderly rfl fun _ _ hmem => hmem
  | stored hcalls hroom => exact h.store hcalls hroom
  | answer hcalls hanswer ht => exact h.simUpdate ht
  | poll hcalls ht => exact (h.pop hcalls (by simp)).simUpdate ht
  | @packet now answer calls hcalls hconfirms =>
      have hanswer : Ordered { d with history := d.history ++ [.answer answer] } :=
        h.silent d.modem d.sim (by simp [Silent])
      exact hanswer.run_update b.uid now answer
  | refused hcalls => exact h.silent d.modem.reset d.sim (by simp [Silent])
  | @checkCSQ now calls hcalls =>
      refine (h.pop hcalls (by simp)).silent d.modem (d.sim.checkCSQ now).1 fun e he => ?_
      obtain ⟨text, -, rfl⟩ := List.mem_map.mp he
      trivial

theorem ordered_of_run {ops : List Op}
    (hrun : LTS.Run (LTS.Guarded Orderly (LTS.stepOf (step b))) boot ops d) : Ordered d :=
  hrun.invariant ordered_boot fun _ _ _ h hstep => h.step hstep.1 hstep.2

/-- The CONNECTs in the queue and current. -/
def connects (m : MQTT) : List ℕ :=
  (m.current.toList ++ m.requests).filter fun p => (m.heap.get p).any (·.request.isCONNECT)

theorem connects_le (h : m.Sound waiting) : (connects m).length ≤ 1 := by
  unfold connects
  cases hconnected : m.isConnected with
  | false =>
      rw [(h.disconnected hconnected).1, List.append_nil]
      refine (List.length_filter_le _ _).trans ?_
      cases m.current with
      | none => exact Nat.zero_le 1
      | some p => exact Nat.le_refl 1
  | true =>
      have hnone : (m.current.toList ++ m.requests).filter
          (fun p => (m.heap.get p).any (·.request.isCONNECT)) = [] := by
        refine List.filter_eq_nil_iff.mpr fun p hp => ?_
        obtain ⟨r, hr, hkind⟩ := h.alive p (List.mem_append_left _ hp)
        rw [hr, Option.any_some, hkind, hconnected]
        decide
      rw [hnone]
      exact Nat.zero_le 1

/-- **CONNECT comes first** in every session of a run in which `MQTT::Reset` is not called while
a `Queue::Append` waits. -/
theorem connect_first {ops : List Op}
    (hrun : LTS.Run (LTS.Guarded Orderly (LTS.stepOf (step b))) boot ops d) :
    Trace.Each ConnectFirst d.history ∧ (connects d.mqtt).length ≤ 1 := by
  have hordered := ordered_of_run hrun
  exact ⟨hordered.session.first, connects_le hordered.session.sound⟩

/-- The state of a guarded run. -/
def connected : Device :=
  (LTS.execRun (LTS.guardedBy Orderly (step home)) boot toConnected).getD boot

set_option maxRecDepth 100000 in
theorem run_connected :
    LTS.Run (LTS.Guarded Orderly (LTS.stepOf (step home))) boot toConnected connected :=
  LTS.run_getD_guardedBy (by decide)

theorem connect_first_connected :
    Trace.Each ConnectFirst connected.history ∧ (connects connected.mqtt).length ≤ 1 :=
  connect_first run_connected

/-- A SUBSCRIBE is current, two requests wait in the queue and the third in `Queue::Append`, when
the connection is `CLOSED`; and the way back to `RUNNING_MQTT`. -/
def reconnecting : List Op :=
  toConnected ++ roundAt 7001 ++ [Op.poll 7001, .checkCSQ 7001] ++
    roundAt 8002 ++ [Op.poll 8002, .checkCSQ 8002] ++
    roundAt 9003 ++ [Op.answer 9003 (ascii "CLOSED"), .poll 9003, .checkCSQ 9003] ++
    [Op.update ⟨9004, false, false⟩, .stored, .update ⟨9005, false, false⟩] ++
    powerUp 9004 ++ setUp 20000 ++ running 20000 (ascii "OK")

/-- The state of `reconnecting`. -/
def reconnected : Device := (LTS.execRun (step home) boot reconnecting).getD boot

/-- A request other than a CONNECT that is made current without a connection. -/
def isEarly : Event → Bool
  | .current _ (some r) false => !r.isCONNECT
  | _ => false

set_option maxRecDepth 100000 in
theorem run_reconnected : LTS.Run (LTS.stepOf (step home)) boot reconnecting reconnected :=
  LTS.run_getD (by decide)

set_option maxRecDepth 100000 in
/-- **A request of the session before.**  The request that waits in `Queue::Append` is stored
behind `MQTT::Reset`, and made current before the CONNECT. -/
theorem not_connect_first_reconnected :
    ∃ d, LTS.Run (LTS.stepOf (step home)) boot reconnecting d ∧
      ¬ (Trace.Each ConnectFirst d.history ∧ (connects d.mqtt).length ≤ 1) := by
  refine ⟨reconnected, run_reconnected, fun ⟨hall, _⟩ => ?_⟩
  have hany : reconnected.history.any isEarly = true := by decide
  obtain ⟨e, he, hearly⟩ := List.any_eq_true.mp hany
  obtain ⟨pre, post, hhistory⟩ := List.append_of_mem he
  have hfirst := hall pre e post hhistory
  match e, hearly, hfirst with
  | .current _ (some r) false, hearly, hfirst =>
      obtain ⟨r', hr', hconnect⟩ := hfirst rfl
      obtain rfl := Option.some.inj hr'
      rw [isEarly, hconnect] at hearly
      exact absurd hearly (by decide)

/-- **The discipline of the queue.**  What is in the queue and current is there, and different;
no pointer to anything else is followed; and in each session the requests are made current in
the order of `Queue::Append`, none of them lost or taken twice. -/
theorem in_order {ops : List Op}
    (hrun : LTS.Run (LTS.Guarded Orderly (LTS.stepOf (step b))) boot ops d) :
    d.mqtt.requests.length ≤ maxRequests ∧
      (d.mqtt.current.toList ++ d.mqtt.requests).Nodup ∧
      (∀ p ∈ d.mqtt.current.toList ++ d.mqtt.requests, (d.mqtt.heap.get p).isSome) ∧
      d.crashed = false ∧
      appended (session d.history) =
        taken (session d.history) ++ d.mqtt.requests ++ waitingIn d.calls ∧
      (appended (session d.history)).Nodup := by
  have hordered := ordered_of_run hrun
  have hsession := hordered.session
  refine ⟨hsession.sound.fits, ?_, ?_, hordered.alive, hsession.queued, hsession.nodup⟩
  · exact (List.nodup_append'.mp hsession.sound.nodup).1
  · intro p hp
    obtain ⟨r, hr, -⟩ := hsession.sound.alive p (List.mem_append_left _ hp)
    rw [hr]
    rfl

theorem in_order_connected :
    connected.mqtt.requests.length ≤ maxRequests ∧
      (connected.mqtt.current.toList ++ connected.mqtt.requests).Nodup ∧
      (∀ p ∈ connected.mqtt.current.toList ++ connected.mqtt.requests,
        (connected.mqtt.heap.get p).isSome) ∧
      connected.crashed = false ∧
      appended (session connected.history) =
        taken (session connected.history) ++ connected.mqtt.requests ++ waitingIn connected.calls ∧
      (appended (session connected.history)).Nodup :=
  in_order run_connected

/-- The request of the session before is sent and confirmed, so that a second CONNECT is stored
behind the first; a line of text confirms the second while the queue is full, and the connection
is `CLOSED` while its SUBSCRIBE waits for room. -/
def crashing : List Op :=
  reconnecting ++ running 20000 (ascii "OK") ++ running 20000 (ascii "OK") ++
    confirm 20000 (ascii "PUBLISH OK") ++
    roundAt 20100 ++ running 20100 (ascii "OK") ++ running 20100 (ascii "OK") ++
    confirm 20100 (ascii "MQTT OK") ++
    roundAt 21200 ++ running 21200 (ascii "OK") ++ running 21200 (ascii ">") ++
    [Op.answer 21200 (ascii "MQTT OK"), .update ⟨21300, false, false⟩,
      .answer 21300 (ascii "CLOSED"), .poll 21300, .checkCSQ 21300,
      .update ⟨21400, false, false⟩, .stored]

set_option maxRecDepth 100000 in
/-- **A deleted request goes on.**  `MQTT::Reset` deletes the CONNECT whose `ProcessAnswer` has
called `OnConnect`; behind `Queue::Append` it is used. -/
theorem not_in_order_crashing :
    ∃ d, LTS.Run (LTS.stepOf (step home)) boot crashing d ∧ d.crashed ≠ false :=
  ⟨_, LTS.run_getD (by decide), by decide⟩

end USKD.Device
