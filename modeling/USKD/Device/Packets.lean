import USKD.Device.Session
import USKD.Hardware.UID
import USKD.Modem.MQTT.Terminator

/-!
# The packets of the device

The requests of the device are objects on the heap, made in three places.  Whatever the modem
says, and in whatever order things happen, no others come to be there (`Own`), so that each packet
that is sent is one of three, with the terminator behind it.

All three are short enough for one byte of Remaining Length, and none of their lengths is the
terminator: with any name that `GetUID` gives, the modem forwards each of them whole, as the
packet it was meant to be (`packets_forwarded`).
-/

namespace USKD

namespace MQTT

variable {uid : Utils.String} {m : MQTT}

/-- The requests that the device makes. -/
def Own (uid : Utils.String) (r : RequestMQTT) : Prop :=
  r = connect uid ∨ r = subscribe uid ∨ r = getTime uid

/-- All the requests there are. -/
def Owns (uid : Utils.String) (m : MQTT) : Prop :=
  m.heap.All fun r => Own uid r.request

/-- Each packet is one of the device's, and its terminator follows. -/
def Framed (uid : Utils.String) (events : List Device.Event) : Prop :=
  ∀ pre r connected post, events = pre ++ .packet r connected :: post →
    Own uid r ∧ ∃ rest, post = .terminator :: rest

theorem framed_of_silent {events : List Device.Event}
    (h : ∀ e ∈ events, ∀ r connected, e ≠ .packet r connected) : Framed uid events := by
  intro pre r connected post hevents
  refine absurd rfl (h (.packet r connected) ?_ r connected)
  rw [hevents]
  exact List.mem_append_right pre List.mem_cons_self

theorem framed_packet {r : RequestMQTT} (h : Own uid r) (connected : Bool) :
    Framed uid [.packet r connected, .terminator] := by
  intro pre r' connected' post hevents
  rcases List.cons_eq_append_iff.mp hevents with ⟨rfl, hpost⟩ | ⟨pre', -, hrest⟩
  · obtain ⟨hpacket, rfl⟩ := List.cons.inj hpost
    obtain ⟨rfl, -⟩ := Device.Event.packet.inj hpacket
    exact ⟨h, [], rfl⟩
  · rcases List.cons_eq_append_iff.mp hrest with ⟨-, hpost⟩ | ⟨pre'', -, hnil⟩
    · exact absurd (List.cons.inj hpost).1 (by simp)
    · exact absurd hnil (by simp)

/-- **One history behind the other.** -/
theorem Framed.append {events events' : List Device.Event} (h : Framed uid events)
    (h' : Framed uid events') : Framed uid (events ++ events') := by
  intro pre r connected post hevents
  rcases List.append_eq_append_iff.mp hevents with ⟨mid, rfl, hmid⟩ | ⟨mid, hmid, hpost⟩
  · exact h' mid r connected post hmid
  · rcases List.cons_eq_append_iff.mp hpost with ⟨rfl, hfirst⟩ | ⟨mid', rfl, rfl⟩
    · exact h' [] r connected post hfirst
    · obtain ⟨hown, rest, rfl⟩ := h pre r connected mid' hmid
      exact ⟨hown, rest ++ events', rfl⟩

/-- What a function of `MQTT` leaves and does. -/
structure Ran.Owns (uid : Utils.String) (ran : Ran) : Prop where
  mqtt : ran.mqtt.Owns uid
  events : Framed uid ran.events

theorem Ran.Owns.after {ran : Ran} (h : ran.Owns uid) {events : List Device.Event}
    (hevents : Framed uid events) : (ran.after events).Owns uid :=
  ⟨h.mqtt, hevents.append h.events⟩

theorem Owns.write (h : m.Owns uid) {r : Request} (hr : Own uid r.request) (p : ℕ)
    (meter : TimeMeterMS) : Owns uid { m with
      heap := m.heap.write p r
      meter } :=
  Heap.All.write h hr p

theorem Owns.ran (h : m.Owns uid) : (MQTT.ran m).Owns uid :=
  ⟨h, framed_of_silent (by simp [MQTT.ran])⟩

/-! ## The functions -/

theorem Owns.get (h : m.Owns uid) : m.get.Owns uid := by
  rw [MQTT.get]
  split
  · exact Owns.ran h
  · next p ps hrequests =>
      have htaken : Owns uid { m with
          requests := ps
          current := some p } := h
      exact htaken.ran.after (framed_of_silent (by simp))

theorem Owns.finish (h : m.Owns uid) {m' : MQTT} (hfinish : m.finish = some m') : m'.Owns uid := by
  simp only [MQTT.finish, Option.bind_eq_bind, Option.bind_eq_some_iff] at hfinish
  obtain ⟨p, -, r, -, hfinish⟩ := hfinish
  split at hfinish
  · obtain ⟨heap, hfree, hfinish⟩ := Option.bind_eq_some_iff.mp hfinish
    obtain rfl := Option.some.inj hfinish
    exact Heap.All.free h hfree
  · obtain rfl := Option.some.inj hfinish
    exact h

theorem Owns.resume (h : m.Owns uid) {next : Then} {ran : Ran} (hran : m.resume next = some ran) :
    ran.Owns uid := by
  cases next with
  | device =>
      obtain rfl := Option.some.inj hran
      exact h.ran
  | connect =>
      obtain rfl := Option.some.inj hran
      exact h.get
  | answer p =>
      simp only [MQTT.resume, Option.bind_eq_bind, Option.bind_eq_some_iff] at hran
      obtain ⟨r, hr, m', hfinish, hran⟩ := hran
      obtain rfl := Option.some.inj hran
      have hwrite := h.write (show Own uid { r with state := .FINISHED }.request from h p r hr) p
        m.meter
      exact (hwrite.finish hfinish).ran

theorem Owns.append (h : m.Owns uid) {p : ℕ} {next : Then} {ran : Ran}
    (hran : m.append p next = some ran) : ran.Owns uid := by
  rw [MQTT.append] at hran
  split at hran
  · obtain rfl := Option.some.inj hran
    exact ⟨h, framed_of_silent (by simp)⟩
  · obtain ⟨ran', hresume, rfl⟩ := Option.map_eq_some_iff.mp hran
    have hstore : (m.store p).Owns uid := h
    exact (hstore.resume hresume).after (framed_of_silent (by simp))

theorem Owns.send (h : m.Owns uid) {request : RequestMQTT} (hrequest : Own uid request)
    {next : Then} {ran : Ran} (hran : m.send request next = some ran) : ran.Owns uid := by
  have halloc : Owns uid { m with heap := m.heap.alloc (.new request) } :=
    Heap.All.alloc h hrequest
  simp only [MQTT.send] at hran
  split at hran
  · exact halloc.append hran
  · obtain ⟨heap, hfree, hresume⟩ := Option.bind_eq_some_iff.mp hran
    have hheap : Owns uid { m with heap } := Heap.All.free halloc hfree
    exact hheap.resume hresume

theorem Owns.follow (h : m.Owns uid) {p : ℕ} {e : Request.Effect}
    (hevents : Framed uid e.events) {ran : Ran} (hran : m.follow uid p e = some ran) :
    ran.Owns uid := by
  rw [MQTT.follow] at hran
  split at hran
  · obtain ⟨m', hfinish, rfl⟩ := Option.map_eq_some_iff.mp hran
    exact ⟨h.finish hfinish, hevents⟩
  · obtain ⟨m', hfinish, rfl⟩ := Option.map_eq_some_iff.mp hran
    exact ⟨h.finish hfinish, hevents.append (framed_of_silent (by simp))⟩
  · have hconnected : Owns uid { m with isConnected := true } := h
    exact hconnected.send (Or.inr (Or.inl rfl)) hran

/-- What a request sends is the request. -/
theorem framed_of_updates {r : Request} {meter : TimeMeterMS} {connected : Bool} {now : UInt32}
    {answer : List UInt8} {e : Request.Effect} (h : r.Updates meter connected now answer e)
    (hown : Own uid r.request) : Framed uid e.events := by
  cases h with
  | sends => exact framed_packet hown connected
  | same | asks | dumps | resets | connects | finishes => exact framed_of_silent (by simp)

/-- **`MQTT::Update`**, in whatever state the queue is. -/
theorem Owns.update (h : m.Owns uid) {now : UInt32} {answer : List UInt8} {ran : Ran}
    (hran : m.update uid now answer = some ran) : ran.Owns uid := by
  rw [MQTT.update] at hran
  split at hran
  · split at hran
    · have halloc : Owns uid { m with heap := m.heap.alloc (.new (connect uid)) } :=
        Heap.All.alloc h (Or.inl rfl)
      exact halloc.append hran
    · obtain rfl := Option.some.inj hran
      have htaken : Ran.Owns uid (if m.current = none then m.get else MQTT.ran m) := by
        split
        · exact h.get
        · exact h.ran
      generalize (if m.current = none then m.get else MQTT.ran m) = taken at htaken
      refine ⟨?_, htaken.events⟩
      simp only
      split
      · exact htaken.mqtt
      · exact htaken.mqtt
  · simp only [Option.bind_eq_bind, Option.bind_eq_some_iff] at hran
    obtain ⟨p, -, r, hr, hran⟩ := hran
    have hupdates := r.updates_update m.meter m.isConnected now answer
    have hown : Own uid r.request := h p r hr
    have hwrite : Own uid (r.update m.meter m.isConnected now answer).request.request := by
      rw [hupdates.request_eq]
      exact hown
    exact (h.write hwrite p _).follow (framed_of_updates hupdates hown) hran

theorem Owns.reset (h : m.Owns uid) {m' : MQTT} (hreset : m.reset = some m') : m'.Owns uid := by
  obtain ⟨heap, hfree, rfl⟩ := Option.map_eq_some_iff.mp hreset
  exact Heap.All.freeAll h hfree

end MQTT

namespace Device

open MQTT

variable {b : Build} {d t : Device}

/-! ## The device -/

/-- **The invariant.** -/
structure Own (b : Build) (d : Device) : Prop where
  mqtt : d.mqtt.Owns b.uid
  history : Framed b.uid d.history

theorem own_boot (b : Build) : Own b boot where
  mqtt := Heap.all_empty
  history := framed_of_silent (by simp [boot])

/-- The history goes on without a packet. -/
theorem Own.silent (h : Own b d) {events : List Event}
    (hevents : ∀ e ∈ events, ∀ r connected, e ≠ .packet r connected) (modem : Modem) (sim : SIM868)
    (meter : TimeMeterMS) (calls : List Call) (crashed : Bool) :
    Own b ⟨modem, sim, d.mqtt, meter, calls, d.history ++ events, crashed⟩ :=
  ⟨h.mqtt, h.history.append (framed_of_silent hevents)⟩

/-- Only the queue and the history count. -/
theorem Own.congr (h : Own b d) (hmqtt : t.mqtt = d.mqtt) (hhistory : t.history = d.history) :
    Own b t :=
  ⟨hmqtt ▸ h.mqtt, hhistory ▸ h.history⟩

theorem Own.run (h : Own b d) {ran : Option Ran} (hran : ∀ r, ran = some r → r.Owns b.uid) :
    Own b (d.run ran) := by
  cases ran with
  | none => exact h.congr rfl rfl
  | some r => exact ⟨(hran r rfl).mqtt, h.history.append (hran r rfl).events⟩

theorem Own.simUpdate (h : Own b d) {now : UInt32} {answer : List UInt8}
    (hupdate : d.simUpdate b now answer = some t) : Own b t := by
  cases simUpdates_of_simUpdate hupdate with
  | keeps | resets | starts => exact h.silent (by simp) _ _ _ _ _
  | goes => exact h.silent (by simp) _ _ _ _ _
  | runs =>
      refine Own.run ?_ fun r hr => h.mqtt.update hr
      exact h.silent (by simp) _ _ _ _ _

theorem Own.modemUpdate (h : Own b d) (env : Modem.Env) (calls : List Call) :
    Own b (d.modemUpdate env calls) := by
  rw [Device.modemUpdate]
  split
  · refine h.silent ?_ _ _ _ _ _
    split <;> simp
  · split
    · exact ⟨h.mqtt, h.history⟩
    · next mqtt hreset =>
      exact ⟨h.mqtt.reset hreset, h.history.append (framed_of_silent (by simp))⟩
  · exact ⟨h.mqtt, h.history⟩

/-- **Step lemma.** -/
theorem Own.step (h : Own b d) {op : Op} (hstep : d.step b op = some t) : Own b t := by
  cases (steps_of_step hstep).2 with
  | idles => exact h.congr rfl rfl
  | @sends now hcalls hdue =>
      have hloop : Own b { d with
          meter := .reset now
          calls := [.device] } := h.congr rfl rfl
      exact hloop.run fun r hr => h.mqtt.send (Or.inr (Or.inr rfl)) hr
  | update => exact h.modemUpdate _ _
  | waits => exact h.modemUpdate _ _
  | @stored p next calls hcalls hroom =>
      have hstore : (d.mqtt.store p).Owns b.uid := h.mqtt
      have hcall : Own b { d with calls } := h.congr rfl rfl
      exact hcall.run fun r hr => hstore.resume hr
  | answer hcalls hanswer hupdate => exact h.simUpdate hupdate
  | @poll now calls t hcalls hupdate =>
      have hcall : Own b { d with calls } := h.congr rfl rfl
      exact hcall.simUpdate hupdate
  | packet =>
      refine Own.run ?_ fun r hr => h.mqtt.update hr
      exact h.silent (by simp) _ _ _ _ _
  | refused => exact h.silent (by simp) _ _ _ _ _
  | checkCSQ => exact h.silent (by simp) _ _ _ _ _

theorem own_of_run {ops : List Op} (hrun : LTS.Run (LTS.stepOf (step b)) boot ops d) : Own b d :=
  hrun.invariant (own_boot b) fun _ _ _ h hstep => h.step hstep

/-! ## On the line -/

theorem size_format (before after : List UInt8) (s : Utils.String) (h : 0 ∉ before ++ after) :
    (Utils.String.format before s after h).size = before.length + s.size + after.length := by
  simp only [Utils.String.format, Utils.String.size, List.length_append]

theorem plain_format {before after : List UInt8} {s : Utils.String} (h : 0 ∉ before ++ after)
    (hs : s.Plain) (haround : (before ++ after).all fun b => decide ¬ (b < 0x20 ∨ b = 0x7F)) :
    (Utils.String.format before s after h).Plain := by
  intro b hb
  have hplain : ∀ b ∈ before ++ after, ¬ (b < 0x20 ∨ b = 0x7F) := fun b hb =>
    of_decide_eq_true (List.all_eq_true.mp haround b hb)
  rcases List.mem_append.mp hb with hfront | hafter
  · rcases List.mem_append.mp hfront with hbefore | hmiddle
    · exact hplain b (List.mem_append_left _ hbefore)
    · exact hs b hmiddle
  · exact hplain b (List.mem_append_right _ hafter)

/-- The name of the device. -/
theorem plain_getUID (id : Vector UInt8 12) : (HAL.getUID id).Plain := by
  intro b hb
  obtain ⟨hlow, hhigh⟩ := bounds_of_mem_hexDigits hb
  rintro (hcontrol | rfl)
  · have hless := UInt8.lt_iff_toNat_lt.mp hcontrol
    have htoNat : (0x20 : UInt8).toNat = 32 := rfl
    omega
  · exact absurd hhigh (by decide)

variable {uid : Utils.String} {r : RequestMQTT}

/-- A name without control characters makes no control character elsewhere. -/
theorem plain_of_own (huid : uid.Plain) (h : MQTT.Own uid r) : ∀ s ∈ r.strings, s.Plain := by
  have htopic : (topicTime uid).Plain := plain_format _ huid (by decide)
  rcases h with rfl | rfl | rfl
  · simp only [MQTT.connect, RequestMQTT.strings, List.forall_mem_cons]
    exact ⟨plain_format _ huid (by decide), by decide, by decide, by simp⟩
  · simpa only [MQTT.subscribe, RequestMQTT.strings, List.forall_mem_singleton] using htopic
  · simp only [MQTT.getTime, RequestMQTT.strings, List.forall_mem_cons]
    exact ⟨by decide, plain_format _ huid (by decide), htopic, by simp⟩

/-- **Short, and without the terminator**: what a name of eight characters makes of the lengths. -/
theorem lengths_of_own (huid : uid.size = 8) (h : MQTT.Own uid r) :
    r.remainingLength < 128 ∧ ∀ n ∈ r.lengths, n % 256 ≠ 26 := by
  have htopic : (topicTime uid).size = 35 := by
    rw [topicTime, size_format, huid]
    decide
  rcases h with rfl | rfl | rfl
  · have hlen : (MQTT.connect uid).remainingLength = 56 := by
      simp only [MQTT.connect, RequestMQTT.remainingLength, size_format, huid]
      decide
    refine ⟨by omega, ?_⟩
    simp only [MQTT.connect, RequestMQTT.lengths, size_format, huid] at hlen ⊢
    rw [hlen]
    decide
  · have hlen : (MQTT.subscribe uid).remainingLength = 41 := by
      simp only [MQTT.subscribe, RequestMQTT.remainingLength, htopic]
    refine ⟨by omega, ?_⟩
    simp only [MQTT.subscribe, RequestMQTT.lengths, htopic] at hlen ⊢
    rw [hlen]
    decide
  · have hlen : (MQTT.getTime uid).remainingLength = 118 := by
      simp only [MQTT.getTime, RequestMQTT.remainingLength, size_format, htopic, huid]
      decide
    refine ⟨by omega, ?_⟩
    simp only [MQTT.getTime, RequestMQTT.lengths, htopic] at hlen ⊢
    rw [hlen]
    decide

/-- One byte of Remaining Length is enough for a short request. -/
theorem parse_send (h : r.remainingLength < 128) : Mqtt5.parse r.send = some r.packet := by
  have hbyte : (UInt8.ofNat r.remainingLength).toNat = r.rest.length := by
    rw [RequestMQTT.length_rest, UInt8.toNat_ofNat']
    exact Nat.mod_eq_of_lt (by omega)
  rw [RequestMQTT.send_eq, Mqtt5.parse_of_lt hbyte (by rw [RequestMQTT.length_rest]; omega),
    RequestMQTT.body_rest h]

/-- **Every packet arrives as it was meant.**  In every run of a device whose name is that of its
chip, whatever the modem says and however the calls are interleaved: a packet that is put on the
line is one of three, its terminator follows, and what the modem forwards of the two is an MQTT 5
packet with the strings of the request. -/
theorem packets_forwarded {id : Vector UInt8 12} (huid : b.uid = HAL.getUID id) {ops : List Op}
    (hrun : LTS.Run (LTS.stepOf (step b)) boot ops d) {pre post : List Event} {connected : Bool}
    (hhistory : d.history = pre ++ .packet r connected :: post) :
    MQTT.Own b.uid r ∧ (∃ rest, post = .terminator :: rest) ∧
      Mqtt5.parse (RequestMQTT.forwarded (r.send ++ [0x1A])) = some r.packet := by
  obtain ⟨hown, hterminator⟩ := (own_of_run hrun).history pre r connected post hhistory
  have hsize : b.uid.size = 8 := by rw [huid, HAL.size_getUID]
  have hplain : b.uid.Plain := by
    rw [huid]
    exact plain_getUID id
  obtain ⟨hshort, hlengths⟩ := lengths_of_own hsize hown
  have hfree : 0x1A ∉ r.send := by
    rw [RequestMQTT.mem_send_iff (plain_of_own hplain hown)]
    rintro ⟨n, hn, hlength⟩
    exact hlengths n hn hlength
  refine ⟨hown, hterminator, ?_⟩
  rw [(RequestMQTT.forwarded_append_iff r.send).mpr hfree]
  exact parse_send hshort

/-- An event that is a packet. -/
def isPacket : Event → Bool
  | .packet .. => true
  | _ => false

set_option maxRecDepth 100000 in
theorem any_packet_connected : connected.history.any isPacket = true := by decide

/-- The CONNECT of the board without sensors. -/
theorem packets_forwarded_connected : ∃ r e, .packet r e ∈ connected.history ∧
    Mqtt5.parse (RequestMQTT.forwarded (r.send ++ [0x1A])) = some r.packet := by
  obtain ⟨e, he, hpacket⟩ := List.any_eq_true.mp any_packet_connected
  obtain ⟨pre, post, hhistory⟩ := List.append_of_mem he
  have hrun : LTS.Run (LTS.stepOf (step home)) boot toConnected connected :=
    run_connected.mono fun _ _ _ h => h.step
  cases e with
  | packet r e =>
      have huid : home.uid = HAL.getUID HAL.layout := by decide
      exact ⟨r, e, he, (packets_forwarded huid hrun hhistory).2.2⟩
  | answer | command | terminator | modemReset | powered | mqttReset | append | current =>
      exact absurd hpacket (by simp [isPacket])

end Device

end USKD
