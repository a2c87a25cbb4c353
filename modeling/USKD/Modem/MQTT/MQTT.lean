import Mathlib.Data.List.Nodup
import USKD.Lib.Heap
import USKD.Hardware.Timer
import USKD.Modem.MQTT.RequestMQTT

/-!
# `MQTT`: the requests of the device and their queue

The requests are objects on a heap.  The queue holds the addresses of those that wait and
`Queue::current` the address of the one that is going on; an object that is not there is
neither read nor deleted (`none`).

`Queue::Append` waits as long as the queue is full, and calls `Modem::Update` meanwhile, which
may lead to everything in this file again.  A function that comes to such a wait returns the
address that waits and what is to follow (`Then`); the caller goes on with `resume` once there
is room.
-/

namespace USKD

/-- `RequestMQTT::State::E`. -/
inductive RequestMQTT.State
  | IDLE
  | NEED_SEND
  | WAIT_CONFIRM
  | FINISHED
deriving DecidableEq

/-- `GetType() == Type::CONNECT`. -/
def RequestMQTT.isCONNECT : RequestMQTT → Bool
  | CONNECT .. => true
  | _ => false

/-- What the device does, as far as it is looked at. -/
inductive Device.Event
  /-- `SIM868::Update`, or `MQTT::Update` for a packet, is called. -/
  | answer (answer : List UInt8)
  /-- `Transmit::With0D` -/
  | command (text : List UInt8)
  /-- the bytes `request.send`, at a value of `is_connected` -/
  | packet (request : RequestMQTT) (connected : Bool)
  /-- `Transmit::UINT8(0x1A)` -/
  | terminator
  /-- `Modem::Reset` -/
  | modemReset
  /-- `HARDWARE_IS_OK` is entered. -/
  | powered
  /-- `SIM868::Reset` and `MQTT::Reset` -/
  | mqttReset
  /-- `Queue::Append` is called. -/
  | append (address : ℕ)
  /-- `Queue::current` is set to a request, at a value of `is_connected`. -/
  | current (address : ℕ) (request : Option RequestMQTT) (connected : Bool)

namespace MQTT

/-! ## One request -/

/-- The state of a request, and the counter of its `Dumper`. -/
structure Request where
  request : RequestMQTT
  state : RequestMQTT.State
  counter : ℤ

namespace Request

/-- The constructors. -/
def new (request : RequestMQTT) : Request := ⟨request, .IDLE, 5⟩

/-- What `RequestMQTT::Update` calls: nothing, `Modem::Reset`, or `Callback::OnConnect(true)` in
the middle of `ProcessAnswer`. -/
inductive Call
  | nothing
  | modemReset
  | onConnect
deriving DecidableEq

/-- What `RequestMQTT::Update` leaves and does. -/
structure Effect where
  request : Request
  meter : TimeMeterMS
  events : List Device.Event
  call : Call

/-- `Dumper::Update`. -/
def dump (r : Request) (meter : TimeMeterMS) : Effect :=
  let counter := r.counter - 1
  if counter > 0 then
    ⟨{ r with
      counter
      state := .IDLE }, meter, [], .nothing⟩
  else ⟨{ r with counter }, meter, [], .modemReset⟩

/-- The answer `ProcessAnswer` is for. -/
def confirmation : RequestMQTT → List UInt8
  | .CONNECT .. => ascii "MQTT OK"
  | .SUBSCRIBE _ => ascii "SUBS OK"
  | .PUBLISH .. => ascii "PUBLISH OK"

/-- `RequestMQTT::Update`; a call of `OnConnect` is left to the caller, with what follows it. -/
def update (r : Request) (meter : TimeMeterMS) (connected : Bool) (now : UInt32)
    (answer : List UInt8) : Effect :=
  match r.state with
  | .IDLE =>
      ⟨{ r with state := .NEED_SEND }, .reset now, [.command (ascii "AT+CIPSEND")], .nothing⟩
  | .NEED_SEND =>
      if meter.elapsedTime now > 1000 then r.dump meter
      else if answer = ascii ">" then
        ⟨{ r with state := .WAIT_CONFIRM }, meter.setResponseTime now 5000,
          [.packet r.request connected, .terminator], .nothing⟩
      else ⟨r, meter, [], .nothing⟩
  | .WAIT_CONFIRM =>
      if meter.isFinished now then r.dump meter
      else if answer = confirmation r.request then
        if r.request.isCONNECT then ⟨r, meter, [], .onConnect⟩
        else ⟨{ r with state := .FINISHED }, meter, [], .nothing⟩
      else ⟨r, meter, [], .nothing⟩
  | .FINISHED => ⟨r, meter, [], .nothing⟩

/-- **What `RequestMQTT::Update` can do.** -/
inductive Updates (r : Request) (meter : TimeMeterMS) (connected : Bool) (now : UInt32)
    (answer : List UInt8) : Effect → Prop
  | same : Updates r meter connected now answer ⟨r, meter, [], .nothing⟩
  | asks (hstate : r.state = .IDLE) :
      Updates r meter connected now answer ⟨{ r with state := .NEED_SEND }, .reset now,
        [.command (ascii "AT+CIPSEND")], .nothing⟩
  | sends (hstate : r.state = .NEED_SEND) (htime : ¬ meter.elapsedTime now > 1000)
      (hanswer : answer = ascii ">") :
      Updates r meter connected now answer ⟨{ r with state := .WAIT_CONFIRM },
        meter.setResponseTime now 5000, [.packet r.request connected, .terminator], .nothing⟩
  | dumps (hstate : r.state = .NEED_SEND ∧ meter.elapsedTime now > 1000 ∨ r.state = .WAIT_CONFIRM)
      (hcounter : 1 < r.counter) :
      Updates r meter connected now answer ⟨{ r with
        counter := r.counter - 1
        state := .IDLE }, meter, [], .nothing⟩
  | resets (hstate : r.state = .NEED_SEND ∧ meter.elapsedTime now > 1000 ∨
        r.state = .WAIT_CONFIRM) (hcounter : r.counter ≤ 1) :
      Updates r meter connected now answer ⟨{ r with counter := r.counter - 1 }, meter, [],
        .modemReset⟩
  | connects (hstate : r.state = .WAIT_CONFIRM) (hconnect : r.request.isCONNECT = true) :
      Updates r meter connected now answer ⟨r, meter, [], .onConnect⟩
  | finishes (hstate : r.state = .WAIT_CONFIRM) (hconnect : r.request.isCONNECT = false) :
      Updates r meter connected now answer ⟨{ r with state := .FINISHED }, meter, [], .nothing⟩

variable {r : Request} {meter : TimeMeterMS} {connected : Bool} {now : UInt32}
  {answer : List UInt8}

theorem Updates.dump (hstate : r.state = .NEED_SEND ∧ meter.elapsedTime now > 1000 ∨
    r.state = .WAIT_CONFIRM) : Updates r meter connected now answer (r.dump meter) := by
  unfold Request.dump
  by_cases hcounter : r.counter - 1 > 0
  · rw [if_pos hcounter]
    exact .dumps hstate (by omega)
  · rw [if_neg hcounter]
    exact .resets hstate (by omega)

theorem updates_update (r : Request) (meter : TimeMeterMS) (connected : Bool) (now : UInt32)
    (answer : List UInt8) :
    Updates r meter connected now answer (r.update meter connected now answer) := by
  unfold update
  cases hstate : r.state with
  | IDLE => exact .asks hstate
  | NEED_SEND =>
      by_cases htime : meter.elapsedTime now > 1000
      · simp only [if_pos htime]
        exact .dump (.inl ⟨hstate, htime⟩)
      · simp only [if_neg htime]
        by_cases hanswer : answer = ascii ">"
        · rw [if_pos hanswer]
          exact .sends hstate htime hanswer
        · rw [if_neg hanswer]
          exact .same
  | WAIT_CONFIRM =>
      simp only
      split
      · exact .dump (.inr hstate)
      · split
        · split
          · next hconnect => exact .connects hstate hconnect
          · next hconnect => exact .finishes hstate (Bool.eq_false_iff.mpr hconnect)
        · exact .same
  | FINISHED => exact .same

theorem Updates.request_eq {e : Effect} (h : Updates r meter connected now answer e) :
    e.request.request = r.request := by
  cases h <;> rfl

/-- A call that leaves the request finished does nothing else. -/
theorem Updates.finished {e : Effect} (h : Updates r meter connected now answer e)
    (hfinished : e.request.state = .FINISHED) :
    (r.state = .WAIT_CONFIRM ∨ r.state = .FINISHED) ∧
      e.meter = meter ∧ e.events = [] ∧ e.call = .nothing := by
  cases h with
  | same => exact ⟨.inr hfinished, rfl, rfl, rfl⟩
  | finishes hwait => exact ⟨.inl hwait, rfl, rfl, rfl⟩
  | asks | sends | dumps => exact absurd hfinished (by simp)
  | resets hwait =>
      rcases hwait with ⟨hwait, -⟩ | hwait <;>
        exact absurd (hwait.symm.trans hfinished) (by decide)
  | connects hwait => exact absurd (hwait.symm.trans hfinished) (by decide)

/-- Behind `OnConnect` there is still everything to do. -/
theorem Updates.onConnect {e : Effect} (h : Updates r meter connected now answer e)
    (hcall : e.call = .onConnect) :
    e = ⟨r, meter, [], .onConnect⟩ ∧ r.state = .WAIT_CONFIRM ∧ r.request.isCONNECT = true := by
  cases h with
  | connects hwait hconnect => exact ⟨rfl, hwait, hconnect⟩
  | same | asks | sends | dumps | resets | finishes => exact absurd hcall (by simp)

end Request

/-- `MQTT::State::E`. -/
inductive State
  | IDLE
  | RUNNING
deriving DecidableEq

/-- What follows a `Queue::Append`: `Device::Update` goes on, or `MQTT::Update` takes the
request, or a request whose `ProcessAnswer` called `OnConnect` goes on. -/
inductive Then
  | device
  | connect
  | answer (address : ℕ)
deriving DecidableEq

end MQTT

/-- The static data of `namespace MQTT` and `MQTT::Queue`, the objects, and the `meter` that all
requests share. -/
structure MQTT where
  isConnected : Bool
  state : MQTT.State
  requests : List ℕ
  current : Option ℕ
  heap : Heap MQTT.Request
  meter : TimeMeterMS

namespace MQTT

/-- The state at boot. -/
def boot : MQTT := ⟨false, .IDLE, [], none, .empty, .reset 0⟩

/-! ## The requests of the device -/

/-- `new RequestCONNECT(…)` of `MQTT::Update`. -/
def connect (uid : Utils.String) : RequestMQTT :=
  .CONNECT (.format (ascii "-uskd----") uid [] (by decide)) ⟨ascii "mqttusr", by decide⟩
    ⟨ascii "tgsdj9e5dc", by decide⟩

/-- The topic of the answers to `GET::Time`. -/
def topicTime (uid : Utils.String) : Utils.String :=
  .format (ascii "devices/box/") uid (ascii "/config/getTime") (by decide)

/-- `new RequestSUBSCRIBE(…)` of `Callback::OnConnect`. -/
def subscribe (uid : Utils.String) : RequestMQTT := .SUBSCRIBE (topicTime uid)

/-- `new RequestPUBLISH(…)` of `GET::Time`. -/
def getTime (uid : Utils.String) : RequestMQTT :=
  .PUBLISH ⟨ascii "server/request/config", by decide⟩
    (.format (ascii "\x7b\"request\":\"getTime\",\"data\":\x7b\"serialNumber\":\"") uid
      (ascii "\"\x7d\x7d") (by decide))
    (topicTime uid)

/-! ## The queue -/

/-- `MAX_REQUESTS`. -/
def maxRequests : ℕ := 2

/-- How far a function has come: what it has done, and the `Queue::Append` it has come to that
has to wait. -/
structure Ran where
  mqtt : MQTT
  events : List Device.Event
  reset : Bool
  waiting : Option (ℕ × Then)

/-- Events in front. -/
def Ran.after (events : List Device.Event) (ran : Ran) : Ran :=
  { ran with events := events ++ ran.events }

/-- It has come to its end. -/
def ran (m : MQTT) : Ran := ⟨m, [], false, none⟩

/-- The request `current` points to. -/
def request (m : MQTT) : Option Request := m.current.bind m.heap.get

/-- `requests[num_requests++] = request`. -/
def store (m : MQTT) (address : ℕ) : MQTT := { m with requests := m.requests ++ [address] }

/-- `Queue::current = Queue::Get()`. -/
def get (m : MQTT) : Ran :=
  match m.requests with
  | [] => ran { m with current := none }
  | p :: ps =>
      (ran { m with
        requests := ps
        current := some p }).after [.current p ((m.heap.get p).map Request.request) m.isConnected]

/-- `MQTT::Update` behind `Queue::current->Update(answer)`. -/
def finish (m : MQTT) : Option MQTT := do
  let p ← m.current
  let r ← m.heap.get p
  if r.state = .FINISHED then
    let heap ← m.heap.free p
    pure { m with
      heap
      current := none
      state := .IDLE }
  else pure m

/-- What follows a `Queue::Append`. -/
def resume (m : MQTT) : Then → Option Ran
  | .device => some (ran m)
  | .connect => some m.get
  | .answer p => do
      -- `ProcessAnswer` returns to a request that has to be there still
      let r ← m.heap.get p
      let m ← { m with heap := m.heap.write p { r with state := .FINISHED } }.finish
      pure (ran m)

/-- `Queue::Append`, and what follows it. -/
def append (m : MQTT) (p : ℕ) (next : Then) : Option Ran :=
  if m.requests.length = maxRequests then some ⟨m, [.append p], false, some (p, next)⟩
  else ((m.store p).resume next).map (Ran.after [.append p])

/-- `MQTT::Send(new …)`, and what follows it. -/
def send (m : MQTT) (request : RequestMQTT) (next : Then) : Option Ran :=
  let p := m.heap.next
  let m := { m with heap := m.heap.alloc (.new request) }
  if m.isConnected then m.append p next
  else do
    let heap ← m.heap.free p
    { m with heap }.resume next

/-- `Callback::OnConnect(true)` in `ProcessAnswer` of the request at `p`, and what follows it. -/
def onConnect (m : MQTT) (uid : Utils.String) (p : ℕ) : Option Ran :=
  { m with isConnected := true }.send (subscribe uid) (.answer p)

/-- `MQTT::Update` behind what `Queue::current->Update(answer)` has done. -/
def follow (m : MQTT) (uid : Utils.String) (p : ℕ) (e : Request.Effect) : Option Ran :=
  match e.call with
  | .nothing => m.finish.map fun m => Ran.mk m e.events false none
  | .modemReset => m.finish.map fun m => Ran.mk m (e.events ++ [Device.Event.modemReset]) true none
  | .onConnect => m.onConnect uid p

/-- `MQTT::Update`. -/
def update (m : MQTT) (uid : Utils.String) (now : UInt32) (answer : List UInt8) : Option Ran :=
  match m.state with
  | .IDLE =>
      if m.isConnected = false ∧ m.current = none then
        let p := m.heap.next
        { m with heap := m.heap.alloc (.new (connect uid)) }.append p .connect
      else
        let taken := if m.current = none then m.get else ran m
        some { taken with
          mqtt := if taken.mqtt.current = none then taken.mqtt
            else { taken.mqtt with state := .RUNNING } }
  | .RUNNING => do
      let p ← m.current
      let r ← m.heap.get p
      let e := r.update m.meter m.isConnected now answer
      { m with
        heap := m.heap.write p e.request
        meter := e.meter }.follow uid p e

/-- `MQTT::Reset`, with `Queue::Clear`. -/
def reset (m : MQTT) : Option MQTT :=
  (m.heap.freeAll (m.current.toList ++ m.requests)).map fun heap =>
    { m with
      heap
      isConnected := false
      state := .IDLE
      requests := []
      current := none }

/-! ## The discipline of the queue -/

/-- **The discipline of the queue**, with the requests that wait for room.  All the requests are
there and different; without a connection the only one is a CONNECT that has been taken out of
the queue, with a connection none is a CONNECT. -/
structure Sound (m : MQTT) (waiting : List ℕ) : Prop where
  fits : m.requests.length ≤ maxRequests
  nodup : (m.current.toList ++ m.requests ++ waiting).Nodup
  alive : ∀ p ∈ m.current.toList ++ m.requests ++ waiting,
    ∃ r, m.heap.get p = some r ∧ r.request.isCONNECT = !m.isConnected
  disconnected : m.isConnected = false → m.requests = [] ∧ waiting = []
  running : m.state = .RUNNING → m.current ≠ none

/-- What `MQTT::Update` leaves of the heap when the request at `p` is finished. -/
structure Freed (h h' : Heap Request) (p : ℕ) : Prop where
  next : h'.next = h.next
  get : ∀ q, q ≠ p → h'.get q = h.get q

/-- **What `MQTT::Update` can do** as long as the queue is in order.  It never comes to a
`Queue::Append` that waits. -/
inductive Updates (m : MQTT) (uid : Utils.String) (waiting : List ℕ) (now : UInt32)
    (answer : List UInt8) : Ran → Prop
  /-- A CONNECT is made, stored and taken. -/
  | connects (hstate : m.state = .IDLE) (hconnected : m.isConnected = false)
      (hcurrent : m.current = none) :
      Updates m uid waiting now answer
        ⟨{ m with
            heap := m.heap.alloc (.new (connect uid))
            current := some m.heap.next },
          [.append m.heap.next, .current m.heap.next (some (connect uid)) false], false, none⟩
  /-- There is nothing to take. -/
  | idles (hstate : m.state = .IDLE) (hcurrent : m.current = none) :
      Updates m uid waiting now answer (ran m)
  | takes (hstate : m.state = .IDLE) (hconnected : m.isConnected = true)
      (hcurrent : m.current = none) {p : ℕ} {ps : List ℕ} (hrequests : m.requests = p :: ps)
      {r : Request} (hr : m.heap.get p = some r) :
      Updates m uid waiting now answer
        ⟨{ m with
            requests := ps
            current := some p
            state := .RUNNING }, [.current p (some r.request) true], false, none⟩
  | starts (hstate : m.state = .IDLE) {p : ℕ} (hcurrent : m.current = some p) :
      Updates m uid waiting now answer ⟨{ m with state := .RUNNING }, [], false, none⟩
  /-- The request goes on. -/
  | goes (hstate : m.state = .RUNNING) {p : ℕ} (hcurrent : m.current = some p) {r : Request}
      (hr : m.heap.get p = some r) {e : Request.Effect}
      (he : r.Updates m.meter m.isConnected now answer e) (hcall : e.call = .nothing) :
      Updates m uid waiting now answer
        ⟨{ m with
            heap := m.heap.write p e.request
            meter := e.meter }, e.events, false, none⟩
  | resets (hstate : m.state = .RUNNING) {p : ℕ} (hcurrent : m.current = some p) {r : Request}
      (hr : m.heap.get p = some r) {e : Request.Effect}
      (he : r.Updates m.meter m.isConnected now answer e) (hcall : e.call = .modemReset) :
      Updates m uid waiting now answer
        ⟨{ m with
            heap := m.heap.write p e.request
            meter := e.meter }, e.events ++ [.modemReset], true, none⟩
  /-- The request is finished. -/
  | finishes (hstate : m.state = .RUNNING) {p : ℕ} (hcurrent : m.current = some p)
      {r : Request} (hr : m.heap.get p = some r)
      (hready : r.state = .WAIT_CONFIRM ∨ r.state = .FINISHED) {heap : Heap Request}
      (hheap : Freed m.heap heap p) :
      Updates m uid waiting now answer
        ⟨{ m with
            heap
            current := none
            state := .IDLE }, [], false, none⟩
  /-- The CONNECT is finished, and a SUBSCRIBE stored. -/
  | subscribes (hstate : m.state = .RUNNING) (hconnected : m.isConnected = false) {p : ℕ}
      (hcurrent : m.current = some p) {r : Request} (hr : m.heap.get p = some r)
      (hready : r.state = .WAIT_CONFIRM) {heap : Heap Request}
      (hheap : Freed (m.heap.alloc (.new (subscribe uid))) heap p) :
      Updates m uid waiting now answer
        ⟨{ m with
            heap
            isConnected := true
            requests := [m.heap.next]
            current := none
            state := .IDLE }, [.append m.heap.next], false, none⟩

variable {m : MQTT} {waiting : List ℕ} {uid : Utils.String} {now : UInt32} {answer : List UInt8}

/-- The request that is going on. -/
theorem Sound.current (h : Sound m waiting) {p : ℕ} (hcurrent : m.current = some p) :
    ∃ r, m.heap.get p = some r ∧ r.request.isCONNECT = !m.isConnected := by
  refine h.alive p ?_
  rw [hcurrent]
  exact List.mem_append_left _ (List.mem_append_left _ List.mem_cons_self)

theorem request_of_current {p : ℕ} (hcurrent : m.current = some p) {r : Request}
    (hr : m.heap.get p = some r) : m.request = some r := by
  rw [MQTT.request, hcurrent, Option.bind_some, hr]

theorem request_write {p : ℕ} (hcurrent : m.current = some p) {r : Request}
    (hr : m.heap.get p = some r) (r' : Request) (meter : TimeMeterMS) :
    MQTT.request { m with
      heap := m.heap.write p r'
      meter } = some r' := by
  rw [MQTT.request, hcurrent, Option.bind_some]
  exact Heap.get_write_self hr _

theorem request_none (hcurrent : m.current = none) : m.request = none := by
  rw [MQTT.request, hcurrent, Option.bind_none]

theorem finish_of_ne {m : MQTT} {p : ℕ} {r : Request} (hcurrent : m.current = some p)
    (hr : m.heap.get p = some r) (hstate : r.state ≠ .FINISHED) : m.finish = some m := by
  rw [finish, hcurrent, Option.bind_eq_bind, Option.bind_some, hr, Option.bind_eq_bind,
    Option.bind_some, if_neg hstate]
  rfl

theorem finish_of_eq {m : MQTT} {p : ℕ} {r : Request} (hcurrent : m.current = some p)
    (hr : m.heap.get p = some r) (hstate : r.state = .FINISHED) :
    ∃ heap, Freed m.heap heap p ∧ m.finish = some { m with
      heap
      current := none
      state := .IDLE } := by
  obtain ⟨heap, hfree⟩ := Heap.free_of_some hr
  refine ⟨heap, ⟨Heap.next_free hfree, fun q hq => Heap.get_free_of_ne hfree hq⟩, ?_⟩
  rw [finish, hcurrent, Option.bind_eq_bind, Option.bind_some, hr, Option.bind_eq_bind,
    Option.bind_some, if_pos hstate, hfree]
  rfl

/-- A CONNECT is made, stored and taken. -/
theorem update_connect {m : MQTT} (hstate : m.state = .IDLE) (hconnected : m.isConnected = false)
    (hcurrent : m.current = none) (hrequests : m.requests = []) :
    m.update uid now answer = some ⟨{ m with
        heap := m.heap.alloc (.new (connect uid))
        current := some m.heap.next },
      [.append m.heap.next, .current m.heap.next (some (connect uid)) false], false, none⟩ := by
  obtain ⟨isConnected, state, requests, current, heap, meter⟩ := m
  simp only at hstate hconnected hcurrent hrequests
  subst hstate hconnected hcurrent hrequests
  show some (Ran.mk _ [.append heap.next, .current heap.next
    (((heap.alloc (.new (connect uid))).get heap.next).map Request.request) false] _ _) = _
  rw [Heap.get_alloc_next]
  rfl

theorem get_nil {m : MQTT} (hrequests : m.requests = []) (hcurrent : m.current = none) :
    m.get = ran m := by
  obtain ⟨isConnected, state, requests, current, heap, meter⟩ := m
  simp only at hrequests hcurrent
  subst hrequests hcurrent
  rfl

theorem get_cons {m : MQTT} {p : ℕ} {ps : List ℕ} (hrequests : m.requests = p :: ps) {r : Request}
    (hr : m.heap.get p = some r) (hconnected : m.isConnected = true) :
    m.get = ⟨{ m with
      requests := ps
      current := some p }, [.current p (some r.request) true], false, none⟩ := by
  obtain ⟨isConnected, state, requests, current, heap, meter⟩ := m
  simp only at hrequests hconnected hr
  subst hrequests hconnected
  show Ran.mk _ [.current p ((heap.get p).map Request.request) true] _ _ = _
  rw [hr]
  rfl

/-- `MQTT::Update` in `IDLE`, but for a CONNECT. -/
theorem update_idle {m : MQTT} (hstate : m.state = .IDLE)
    (hfirst : ¬ (m.isConnected = false ∧ m.current = none)) {taken : Ran}
    (htaken : (if m.current = none then m.get else ran m) = taken) :
    m.update uid now answer = some { taken with
      mqtt := if taken.mqtt.current = none then taken.mqtt
        else { taken.mqtt with state := .RUNNING } } := by
  rw [update, hstate]
  simp only [if_neg hfirst, htaken]

/-- `MQTT::Update` in `IDLE`. -/
theorem Sound.update_idle (h : Sound m waiting) (hstate : m.state = .IDLE) :
    ∃ ran, m.update uid now answer = some ran ∧ Updates m uid waiting now answer ran := by
  by_cases hfirst : m.isConnected = false ∧ m.current = none
  · obtain ⟨hconnected, hcurrent⟩ := hfirst
    exact ⟨_, update_connect hstate hconnected hcurrent (h.disconnected hconnected).1,
      .connects hstate hconnected hcurrent⟩
  · cases hcurrent : m.current with
    | some p =>
        refine ⟨_, MQTT.update_idle hstate hfirst (if_neg (by simp [hcurrent])), ?_⟩
        rw [if_neg (by simp [ran, hcurrent])]
        exact .starts hstate hcurrent
    | none =>
        have hconnected : m.isConnected = true := by
          by_contra hnot
          exact hfirst ⟨Bool.eq_false_iff.mpr hnot, hcurrent⟩
        cases hrequests : m.requests with
        | nil =>
            refine ⟨_, MQTT.update_idle hstate hfirst
              ((if_pos hcurrent).trans (get_nil hrequests hcurrent)), ?_⟩
            rw [if_pos (by simp [ran, hcurrent])]
            exact .idles hstate hcurrent
        | cons p ps =>
            obtain ⟨r, hr, -⟩ := h.alive p (by simp [hrequests])
            refine ⟨_, MQTT.update_idle hstate hfirst
              ((if_pos hcurrent).trans (get_cons hrequests hr hconnected)), ?_⟩
            rw [if_neg (by simp)]
            exact .takes hstate hconnected hcurrent hrequests hr

/-- `MQTT::Update` in `RUNNING`, as far as the request. -/
theorem update_running {m : MQTT} (hstate : m.state = .RUNNING) {p : ℕ}
    (hcurrent : m.current = some p) {r : Request} (hr : m.heap.get p = some r)
    {e : Request.Effect} (he : r.update m.meter m.isConnected now answer = e) :
    m.update uid now answer = { m with
      heap := m.heap.write p e.request
      meter := e.meter }.follow uid p e := by
  rw [update, hstate]
  simp only [hcurrent, Option.bind_eq_bind, Option.bind_some, hr, he]

/-- `OnConnect` behind the CONNECT that is going on: there is room for the SUBSCRIBE. -/
theorem onConnect_eq {m : MQTT} (hrequests : m.requests = []) {p : ℕ}
    (hcurrent : m.current = some p)
    {r : Request} (hr : m.heap.get p = some r) :
    ∃ heap, Freed (m.heap.alloc (.new (subscribe uid))) heap p ∧
      m.onConnect uid p = some ⟨{ m with
        heap
        isConnected := true
        requests := [m.heap.next]
        current := none
        state := .IDLE }, [.append m.heap.next], false, none⟩ := by
  obtain ⟨isConnected, state, requests, current, heap, meter⟩ := m
  simp only at hrequests hcurrent hr
  subst hrequests hcurrent
  have hstill : (heap.alloc (.new (subscribe uid))).get p = some r := Heap.get_alloc_of_some hr _
  generalize hm : (MQTT.mk true state [heap.next] (some p)
    ((heap.alloc (.new (subscribe uid))).write p { r with state := .FINISHED }) meter) = m'
  have hfinished : m'.heap.get p = some { r with state := .FINISHED } := by
    rw [← hm]
    exact Heap.get_write_self hstill _
  obtain ⟨heap', hfreed, hfinish⟩ := finish_of_eq (by rw [← hm]) hfinished rfl
  refine ⟨heap', ⟨?_, ?_⟩, ?_⟩
  · rw [hfreed.next, ← hm]
    rfl
  · intro q hq
    rw [hfreed.get q hq, ← hm]
    exact Heap.get_write_of_ne hq _
  · have hresume : (MQTT.mk true state [heap.next] (some p) (heap.alloc (.new (subscribe uid)))
        meter).resume (.answer p) = m'.finish.bind fun m => some (ran m) := by
      rw [resume, hstill, Option.bind_eq_bind, Option.bind_some, ← hm]
      rfl
    show ((MQTT.mk true state [heap.next] (some p) (heap.alloc (.new (subscribe uid)))
      meter).resume (.answer p)).map (Ran.after [.append heap.next]) = _
    rw [hresume, hfinish, Option.bind_some, ← hm]
    rfl

/-- A request that goes on. -/
theorem finish_write_of_ne {m : MQTT} {p : ℕ} (hcurrent : m.current = some p) {r : Request}
    (hr : m.heap.get p = some r) {e : Request.Effect} (hstate : e.request.state ≠ .FINISHED) :
    { m with
      heap := m.heap.write p e.request
      meter := e.meter }.finish = some { m with
        heap := m.heap.write p e.request
        meter := e.meter } :=
  @finish_of_ne { m with
    heap := m.heap.write p e.request
    meter := e.meter } p e.request hcurrent (Heap.get_write_self hr _) hstate

/-- A request that is finished. -/
theorem finish_write_of_eq {m : MQTT} {p : ℕ} (hcurrent : m.current = some p) {r : Request}
    (hr : m.heap.get p = some r) {e : Request.Effect} (hstate : e.request.state = .FINISHED) :
    ∃ heap, Freed m.heap heap p ∧ { m with
      heap := m.heap.write p e.request
      meter := e.meter }.finish = some { m with
        heap
        current := none
        state := .IDLE
        meter := e.meter } := by
  obtain ⟨heap, hfreed, hfinish⟩ := @finish_of_eq { m with
    heap := m.heap.write p e.request
    meter := e.meter } p e.request hcurrent (Heap.get_write_self hr _) hstate
  refine ⟨heap, ⟨hfreed.next, fun q hq => ?_⟩, hfinish⟩
  rw [hfreed.get q hq]
  exact Heap.get_write_of_ne hq _

/-- **`MQTT::Update`** of a queue in order does not fail. -/
theorem Sound.update (h : Sound m waiting) (uid : Utils.String) (now : UInt32)
    (answer : List UInt8) :
    ∃ ran, m.update uid now answer = some ran ∧ Updates m uid waiting now answer ran := by
  cases hstate : m.state with
  | IDLE => exact h.update_idle hstate
  | RUNNING =>
      obtain ⟨p, hcurrent⟩ := Option.ne_none_iff_exists'.mp (h.running hstate)
      obtain ⟨r, hr, hkind⟩ := h.current hcurrent
      have he := r.updates_update m.meter m.isConnected now answer
      rw [update_running hstate hcurrent hr rfl]
      generalize r.update m.meter m.isConnected now answer = e at he
      by_cases hfinished : e.request.state = .FINISHED
      · obtain ⟨hready, hmeter, hevents, hcall⟩ := he.finished hfinished
        obtain ⟨heap, hfreed, hfinish⟩ := finish_write_of_eq hcurrent hr hfinished
        refine ⟨_, ?_, .finishes hstate hcurrent hr hready hfreed⟩
        rw [follow, hcall]
        simp only
        rw [hfinish, hevents, hmeter]
        rfl
      · have hfinish := finish_write_of_ne hcurrent hr hfinished
        cases hcall : e.call with
        | nothing =>
            refine ⟨_, ?_, .goes hstate hcurrent hr he hcall⟩
            rw [follow, hcall]
            simp only
            rw [hfinish]
            rfl
        | modemReset =>
            refine ⟨_, ?_, .resets hstate hcurrent hr he hcall⟩
            rw [follow, hcall]
            simp only
            rw [hfinish]
            rfl
        | onConnect =>
            obtain ⟨rfl, hwait, hconnect⟩ := he.onConnect hcall
            have hconnected : m.isConnected = false := by
              rw [hconnect] at hkind
              exact (Bool.not_eq_eq_eq_not.mp hkind.symm)
            have hrequests := (h.disconnected hconnected).1
            obtain ⟨heap, hfreed, honConnect⟩ := @onConnect_eq uid { m with
              heap := m.heap.write p r
              meter := m.meter } hrequests p hcurrent r (Heap.get_write_self hr r)
            refine ⟨_, honConnect, ?_⟩
            refine .subscribes hstate hconnected hcurrent hr hwait ⟨hfreed.next, fun q hq => ?_⟩
            rw [hfreed.get q hq]
            exact Heap.get_alloc_write_of_ne hq _ _

/-- What is owned keeps its place on the heap, and its kind. -/
theorem Sound.of_heap (h : Sound m waiting) {heap : Heap Request} {state : State}
    (hheap : ∀ p ∈ m.current.toList ++ m.requests ++ waiting, ∀ r, m.heap.get p = some r →
      ∃ r', heap.get p = some r' ∧ r'.request = r.request)
    (hstate : state = .RUNNING → m.current ≠ none) (meter : TimeMeterMS) :
    Sound { m with
      heap
      state
      meter } waiting where
  fits := h.fits
  nodup := h.nodup
  alive p hp := by
    obtain ⟨r, hr, hkind⟩ := h.alive p hp
    obtain ⟨r', hr', hsame⟩ := hheap p hp r hr
    exact ⟨r', hr', by rw [hsame]; exact hkind⟩
  disconnected := h.disconnected
  running := hstate

theorem write_of_updates {p : ℕ} {r : Request} (hr : m.heap.get p = some r) {e : Request.Effect}
    (he : r.Updates m.meter m.isConnected now answer e) {ps : List ℕ} :
    ∀ q ∈ ps, ∀ r₁, m.heap.get q = some r₁ →
      ∃ r', (m.heap.write p e.request).get q = some r' ∧ r'.request = r₁.request := by
  intro q _ r₁ hr₁
  by_cases hq : q = p
  · subst hq
    obtain rfl := Option.some.inj (hr.symm.trans hr₁)
    exact ⟨_, Heap.get_write_self hr _, he.request_eq⟩
  · exact ⟨r₁, by rw [Heap.get_write_of_ne hq, hr₁], rfl⟩

/-- **`MQTT::Update`** keeps the queue in order. -/
theorem Sound.updates (h : Sound m waiting) {ran : Ran}
    (hran : Updates m uid waiting now answer ran) :
    Sound ran.mqtt waiting ∧ ran.waiting = none := by
  cases hran with
  | connects hstate hconnected hcurrent =>
      obtain ⟨hrequests, rfl⟩ := h.disconnected hconnected
      refine ⟨⟨h.fits, ?_, ?_, h.disconnected, ?_⟩, rfl⟩
      · rw [hrequests]
        exact List.nodup_singleton _
      · intro p hp
        obtain rfl : p = m.heap.next := by simpa [hrequests] using hp
        exact ⟨_, Heap.get_alloc_next _ _, by rw [hconnected]; rfl⟩
      · simp
  | idles hstate hcurrent => exact ⟨h, rfl⟩
  | @takes hstate hconnected hcurrent p ps hrequests r hr =>
      have hsame : (some p).toList ++ ps ++ waiting =
          m.current.toList ++ m.requests ++ waiting := by
        rw [hcurrent, hrequests]
        rfl
      have hfits := h.fits
      rw [hrequests, List.length_cons] at hfits
      refine ⟨⟨Nat.le_of_succ_le hfits, hsame ▸ h.nodup, ?_, ?_, ?_⟩, rfl⟩
      · intro q hq
        exact h.alive q (hsame ▸ hq)
      · intro hnot
        exact absurd (hnot.symm.trans hconnected) (by decide)
      · simp
  | starts hstate hcurrent =>
      refine ⟨h.of_heap (fun p hp r hr => ⟨r, hr, rfl⟩) (fun _ => ?_) m.meter, rfl⟩
      simp [hcurrent]
  | goes hstate hcurrent hr he hcall =>
      exact ⟨h.of_heap (write_of_updates hr he) (fun _ => by simp [hcurrent]) _, rfl⟩
  | resets hstate hcurrent hr he hcall =>
      exact ⟨h.of_heap (write_of_updates hr he) (fun _ => by simp [hcurrent]) _, rfl⟩
  | @finishes hstate p hcurrent r hr hready heap hheap =>
      have hnodup := h.nodup
      rw [hcurrent, List.append_assoc] at hnodup
      obtain ⟨hnot, hrest⟩ := List.nodup_cons.mp hnodup
      refine ⟨⟨h.fits, hrest, ?_, h.disconnected, by simp⟩, rfl⟩
      intro q hq
      have hne : q ≠ p := fun hqp => hnot (hqp ▸ hq)
      rw [hheap.get q hne]
      refine h.alive q ?_
      rw [List.append_assoc]
      exact List.mem_append_right _ hq
  | @subscribes hstate hconnected p hcurrent r hr hready heap hheap =>
      obtain ⟨-, rfl⟩ := h.disconnected hconnected
      have hne : m.heap.next ≠ p := Nat.ne_of_gt (Heap.lt_next hr)
      refine ⟨⟨by simp [maxRequests], List.nodup_singleton _, ?_, by simp, by simp⟩, rfl⟩
      intro q hq
      obtain rfl : q = m.heap.next := by simpa using hq
      exact ⟨_, by rw [hheap.get _ hne, Heap.get_alloc_next], rfl⟩

/-! ### The other functions -/

/-- **What `MQTT::Send` of `GET::Time` can do**: the request is stored, waits for room, or is
deleted. -/
inductive Sends (m : MQTT) (request : RequestMQTT) : Ran → List ℕ → Prop
  | stored (hconnected : m.isConnected = true) (hroom : m.requests.length < maxRequests) :
      Sends m request ⟨{ m with
        heap := m.heap.alloc (.new request)
        requests := m.requests ++ [m.heap.next] }, [.append m.heap.next], false, none⟩ []
  | waits (hconnected : m.isConnected = true) :
      Sends m request ⟨{ m with heap := m.heap.alloc (.new request) }, [.append m.heap.next], false,
        some (m.heap.next, .device)⟩ [m.heap.next]
  | deleted (hconnected : m.isConnected = false) {heap : Heap Request}
      (hheap : Freed (m.heap.alloc (.new request)) heap m.heap.next) :
      Sends m request ⟨{ m with heap }, [], false, none⟩ []

theorem Sound.send (h : Sound m waiting) (request : RequestMQTT) :
    ∃ ran waiting', m.send request .device = some ran ∧ Sends m request ran waiting' := by
  by_cases hconnected : m.isConnected = true
  · by_cases hfull : m.requests.length = maxRequests
    · exact ⟨_, _, (if_pos hconnected).trans ((if_pos hfull).trans rfl), .waits hconnected⟩
    · exact ⟨_, _, (if_pos hconnected).trans ((if_neg hfull).trans rfl),
        .stored hconnected (Nat.lt_of_le_of_ne h.fits hfull)⟩
  · obtain ⟨heap, hfree⟩ := Heap.free_of_some (Heap.get_alloc_next m.heap (.new request))
    refine ⟨_, _, (if_neg hconnected).trans ?_, .deleted (Bool.eq_false_iff.mpr hconnected)
      ⟨Heap.next_free hfree, fun q hq => Heap.get_free_of_ne hfree hq⟩⟩
    simp only [hfree]
    rfl

theorem Sound.sends (h : Sound m []) {request : RequestMQTT} (hkind : request.isCONNECT = false)
    {ran : Ran} {waiting' : List ℕ} (hran : Sends m request ran waiting') :
    Sound ran.mqtt waiting' := by
  -- the new address is none of the old ones
  have hnew : m.heap.next ∉ m.current.toList ++ m.requests := by
    intro hmem
    obtain ⟨r, hr, -⟩ := h.alive m.heap.next (List.mem_append_left _ hmem)
    exact absurd rfl (Nat.ne_of_lt (Heap.lt_next hr))
  have hold := h.nodup
  rw [List.append_nil] at hold
  have hnodup : (m.current.toList ++ m.requests ++ [m.heap.next]).Nodup := by
    refine List.nodup_append'.mpr ⟨hold, List.nodup_singleton _, ?_⟩
    simpa using hnew
  have halive : ∀ q ∈ m.current.toList ++ m.requests ++ [m.heap.next], m.isConnected = true →
      ∃ r, (m.heap.alloc (.new request)).get q = some r ∧
        r.request.isCONNECT = !m.isConnected := by
    intro q hq hconnected
    rcases List.mem_append.mp hq with hold | hlast
    · obtain ⟨r, hr, hr'⟩ := h.alive q (List.mem_append_left _ hold)
      exact ⟨r, Heap.get_alloc_of_some hr _, hr'⟩
    · obtain rfl := List.mem_singleton.mp hlast
      exact ⟨_, Heap.get_alloc_next _ _, by rw [hconnected]; exact hkind⟩
  cases hran with
  | stored hconnected hroom =>
      refine ⟨?_, ?_, ?_, ?_, h.running⟩
      · rw [List.length_append]
        exact hroom
      · rw [List.append_nil, ← List.append_assoc]
        exact hnodup
      · intro q hq
        rw [List.append_nil, ← List.append_assoc] at hq
        exact halive q hq hconnected
      · intro hnot
        exact absurd (hnot.symm.trans hconnected) (by decide)
  | waits hconnected =>
      refine ⟨h.fits, hnodup, fun q hq => halive q hq hconnected, ?_, h.running⟩
      intro hnot
      exact absurd (hnot.symm.trans hconnected) (by decide)
  | deleted hconnected hheap =>
      refine h.of_heap (fun q hq r hr => ⟨r, ?_, rfl⟩) h.running m.meter
      have hne : q ≠ m.heap.next := Nat.ne_of_lt (Heap.lt_next hr)
      rw [hheap.get q hne]
      exact Heap.get_alloc_of_some hr _

/-- The request that is going on is another one. -/
theorem Sound.request_sends (h : Sound m waiting) {request : RequestMQTT} {ran : Ran}
    {waiting' : List ℕ} (hran : Sends m request ran waiting') : ran.mqtt.request = m.request := by
  unfold MQTT.request
  cases hcurrent : m.current with
  | none => cases hran <;> simp [hcurrent]
  | some p =>
      obtain ⟨r, hr, -⟩ := h.current hcurrent
      have halloc := Heap.get_alloc_of_some hr (Request.new request)
      cases hran with
      | stored | waits => simp [hcurrent, hr, halloc]
      | deleted _ hheap =>
          have hfreed := hheap.get p (Nat.ne_of_lt (Heap.lt_next hr))
          simp [hcurrent, hr, hfreed, halloc]

/-- There is room for the request that waits. -/
theorem Sound.store {p : ℕ} (h : Sound m [p]) (hroom : m.requests.length ≠ maxRequests) :
    Sound (m.store p) [] where
  fits := by
    rw [MQTT.store, List.length_append]
    exact Nat.lt_of_le_of_ne h.fits hroom
  nodup := by
    rw [MQTT.store, List.append_nil, ← List.append_assoc]
    exact h.nodup
  alive q hq := by
    rw [MQTT.store, List.append_nil, ← List.append_assoc] at hq
    exact h.alive q hq
  disconnected hnot := absurd (h.disconnected hnot).2 (by simp)
  running := h.running

/-- `MQTT::Reset` deletes everything, once. -/
theorem Sound.reset (h : Sound m []) :
    ∃ heap, m.reset = some ⟨false, .IDLE, [], none, heap, m.meter⟩ ∧
      heap.next = m.heap.next := by
  have hnodup := h.nodup
  rw [List.append_nil] at hnodup
  have halive : ∀ p ∈ m.current.toList ++ m.requests, (m.heap.get p).isSome := by
    intro p hp
    obtain ⟨r, hr, -⟩ := h.alive p (List.mem_append_left _ hp)
    rw [hr]
    rfl
  obtain ⟨heap, hfree, hnext⟩ := Heap.freeAll_of_nodup hnodup halive
  refine ⟨heap, ?_, hnext⟩
  rw [MQTT.reset, hfree]
  rfl

/-- Behind `MQTT::Reset`. -/
theorem sound_reset (heap : Heap Request) (meter : TimeMeterMS) :
    Sound ⟨false, .IDLE, [], none, heap, meter⟩ [] where
  fits := Nat.zero_le _
  nodup := List.nodup_nil
  alive p hp := absurd hp List.not_mem_nil
  disconnected _ := ⟨rfl, rfl⟩
  running h := absurd h (by simp)

end MQTT

end USKD
