import USKD.Lib.Mqtt5
import USKD.Modem.MQTT.ResponseMQTT

/-!
# `RequestMQTT`: the packets of the device

What `Send` transmits for each of the three requests, byte by byte as the source counts it.
Each of the packets has its Remaining Length in one byte, so that it is an MQTT packet
exactly as long as that length is below 128 (`parse_send_iff`).

The decoder of the device for PUBLISH is `newPUBLISH`.  It reads the length of the property
section and does not skip the section (`newPUBLISH_send_iff`).
-/

namespace USKD

/-- The strings of `RequestCONNECT`, `RequestSUBSCRIBE` and `RequestPUBLISH`. -/
inductive RequestMQTT
  | CONNECT (CID user password : Utils.String)
  | SUBSCRIBE (topic : Utils.String)
  | PUBLISH (topic message response : Utils.String)

namespace RequestMQTT

/-! ## `Send` -/

/-- `SIM868::Transmit::UINT8`, of a number cast to `uint8`. -/
def UINT8 (n : ℕ) : List UInt8 := [UInt8.ofNat n]

/-- `SIM868::Transmit::RAW`. -/
def RAW (s : Utils.String) : List UInt8 := s.bytes

/-- `MQTT_type`. -/
def typeMQTT : Utils.String := ⟨ascii "MQTT", by decide⟩

/-- `RequestCONNECT::Send`. -/
def sendCONNECT (CID user password : Utils.String) : List UInt8 :=
  UINT8 0x10 ++
  UINT8 (typeMQTT.size + CID.size + user.size + password.size + 18) ++
  UINT8 0x00 ++
  UINT8 typeMQTT.size ++
  RAW typeMQTT ++
  UINT8 0x05 ++
  UINT8 0b11000010 ++
  UINT8 0x00 ++ UINT8 0x3C ++
  UINT8 0x05 ++
  UINT8 0x11 ++ UINT8 0x00 ++ UINT8 0x00 ++ UINT8 0x01 ++ UINT8 0x2C ++
  UINT8 0x00 ++ UINT8 CID.size ++ RAW CID ++
  UINT8 0x00 ++ UINT8 user.size ++ RAW user ++
  UINT8 0x00 ++ UINT8 password.size ++ RAW password

/-- `RequestSUBSCRIBE::Send`. -/
def sendSUBSCRIBE (topic : Utils.String) : List UInt8 :=
  UINT8 0x82 ++
  UINT8 (3 + 2 + topic.size + 1) ++
  UINT8 0x00 ++ UINT8 0x01 ++
  UINT8 0x00 ++
  UINT8 0x00 ++ UINT8 topic.size ++ RAW topic ++
  UINT8 0x00

/-- `RequestPUBLISH::Send`. -/
def sendPUBLISH (topic message response : Utils.String) : List UInt8 :=
  if response.size ≠ 0 then
    UINT8 0x31 ++
    UINT8 (2 + 1 + 3 + topic.size + message.size + response.size) ++
    UINT8 0 ++ UINT8 topic.size ++ RAW topic ++
    UINT8 (3 + response.size) ++
    UINT8 0x08 ++ UINT8 0x00 ++ UINT8 response.size ++ RAW response ++
    RAW message
  else
    UINT8 0x31 ++
    UINT8 (3 + topic.size + message.size) ++
    UINT8 0 ++ UINT8 topic.size ++ RAW topic ++
    UINT8 0x00 ++
    RAW message

/-- `Send`: the bytes transmitted. -/
def send : RequestMQTT → List UInt8
  | CONNECT CID user password => sendCONNECT CID user password
  | SUBSCRIBE topic => sendSUBSCRIBE topic
  | PUBLISH topic message response => sendPUBLISH topic message response

/-! ## As MQTT packets -/

/-- The packet a request is for. -/
def packet : RequestMQTT → Mqtt5.Packet
  | CONNECT CID user password =>
      .connect 0b11000010 60 [⟨0x11, .int 300⟩] CID.bytes none (some user.bytes)
        (some password.bytes)
  | SUBSCRIBE topic => .subscribe 1 [] [(topic.bytes, 0)]
  | PUBLISH topic message response =>
      .publish 1 topic.bytes none
        (if response.bytes = [] then [] else [⟨0x08, .string response.bytes⟩]) message.bytes

/-- The number of bytes behind the Remaining Length. -/
def remainingLength : RequestMQTT → ℕ
  | CONNECT CID user password => CID.size + user.size + password.size + 22
  | SUBSCRIBE topic => topic.size + 6
  | PUBLISH topic message response =>
      topic.size + message.size + 3 + if response.size = 0 then 0 else 3 + response.size

/-- The first byte: the packet type. -/
def first : RequestMQTT → UInt8
  | CONNECT .. => 0x10
  | SUBSCRIBE _ => 0x82
  | PUBLISH .. => 0x31

/-- A length and a string behind it. -/
def counted (s : Utils.String) (rest : List UInt8) : List UInt8 :=
  0x00 :: UInt8.ofNat s.size :: s.bytes ++ rest

/-- The bytes behind the Remaining Length. -/
def rest : RequestMQTT → List UInt8
  | CONNECT CID user password =>
      counted typeMQTT (0x05 :: 0b11000010 :: 0x00 :: 0x3C :: 0x05 :: 0x11 :: 0x00 :: 0x00 :: 0x01 ::
        0x2C :: counted CID (counted user (counted password [])))
  | SUBSCRIBE topic => 0x00 :: 0x01 :: 0x00 :: counted topic [0x00]
  | PUBLISH topic message response =>
      counted topic (if response.size ≠ 0 then
        UInt8.ofNat (3 + response.size) :: 0x08 :: counted response message.bytes
      else 0x00 :: message.bytes)

/-- **The layout of a packet**: a type, one byte of length, and the rest. -/
theorem send_eq (r : RequestMQTT) :
    r.send = r.first :: UInt8.ofNat r.remainingLength :: r.rest := by
  cases r with
  | CONNECT CID user password =>
      have hsize : typeMQTT.size = 4 := by decide
      have hlen : 4 + CID.size + user.size + password.size + 18 =
          (CONNECT CID user password).remainingLength := by
        show _ = CID.size + user.size + password.size + 22
        omega
      unfold send sendCONNECT
      simp only [hsize, hlen]
      generalize (CONNECT CID user password).remainingLength = n
      simp only [UINT8, RAW, first, rest, counted, hsize, List.cons_append, List.nil_append,
        List.append_assoc, List.append_nil, UInt8.reduceOfNat]
  | SUBSCRIBE topic =>
      have hlen : 3 + 2 + topic.size + 1 = (SUBSCRIBE topic).remainingLength := by
        show _ = topic.size + 6
        omega
      unfold send sendSUBSCRIBE
      simp only [hlen]
      generalize (SUBSCRIBE topic).remainingLength = n
      simp only [UINT8, RAW, first, rest, counted, List.cons_append, List.nil_append,
        UInt8.reduceOfNat]
  | PUBLISH topic message response =>
      have hlen : (PUBLISH topic message response).remainingLength =
          topic.size + message.size + 3 + if response.size = 0 then 0 else 3 + response.size := rfl
      unfold send sendPUBLISH
      by_cases hresponse : response.size = 0
      · have hcounted : 3 + topic.size + message.size =
            (PUBLISH topic message response).remainingLength := by
          rw [hlen, if_pos hresponse]
          omega
        rw [rest, if_neg (not_not.mpr hresponse)]
        simp only [hcounted, hresponse, ne_eq, not_true_eq_false, if_false]
        generalize (PUBLISH topic message response).remainingLength = n
        simp only [UINT8, RAW, first, counted, List.cons_append, List.nil_append,
          List.append_assoc, UInt8.reduceOfNat]
      · have hcounted : 2 + 1 + 3 + topic.size + message.size + response.size =
            (PUBLISH topic message response).remainingLength := by
          rw [hlen, if_neg hresponse]
          omega
        rw [rest, if_pos hresponse]
        simp only [hcounted, hresponse, ne_eq, not_false_eq_true, if_true]
        generalize (PUBLISH topic message response).remainingLength = n
        generalize 3 + response.size = m
        simp only [UINT8, RAW, first, counted, List.cons_append, List.nil_append,
          List.append_assoc, UInt8.reduceOfNat]

theorem length_counted (s : Utils.String) (rest : List UInt8) :
    (counted s rest).length = s.size + 2 + rest.length := by
  unfold counted
  simp only [List.length_append, List.length_cons, Utils.String.size]

/-- **The hand-counted lengths are right.** -/
theorem length_rest (r : RequestMQTT) : r.rest.length = r.remainingLength := by
  cases r with
  | CONNECT CID user password =>
      have hsize : typeMQTT.size = 4 := by decide
      simp only [rest, remainingLength, length_counted, List.length_cons, List.length_nil, hsize]
      omega
  | SUBSCRIBE topic =>
      simp only [rest, remainingLength, length_counted, List.length_cons, List.length_nil]
  | PUBLISH topic message response =>
      rw [rest, remainingLength]
      by_cases hresponse : response.size = 0
      · rw [length_counted, if_neg (not_not.mpr hresponse), if_pos hresponse, List.length_cons]
        show topic.size + 2 + (message.size + 1) = _
        omega
      · rw [length_counted, if_pos hresponse, if_neg hresponse, List.length_cons, List.length_cons,
          length_counted]
        show topic.size + 2 + (response.size + 2 + message.size + 1 + 1) = _
        omega

/-! ## Read by an MQTT parser -/

theorem toNat_ofNat_of_lt {n : ℕ} (h : n < 256) : (UInt8.ofNat n).toNat = n := by
  rw [UInt8.toNat_ofNat']
  exact Nat.mod_eq_of_lt h

/-- A counted string shorter than 256 is read as it is. -/
theorem field_counted {s : Utils.String} (h : s.size < 256) (rest : List UInt8) :
    Mqtt5.field (counted s rest) = some (s.bytes, rest) :=
  Mqtt5.field_append (toNat_ofNat_of_lt h) rest

theorem connect_rest (CID user password : Utils.String)
    (h : (CONNECT CID user password).remainingLength < 128) :
    Mqtt5.connect (CONNECT CID user password).rest = some (CONNECT CID user password).packet := by
  rw [remainingLength] at h
  have hCID : CID.size < 256 := by omega
  have huser : user.size < 256 := by omega
  have hpassword : password.size < 256 := by omega
  have htype : typeMQTT.size < 256 := by decide
  have hproperties : ∀ tail, Mqtt5.properties
      (0x05 :: 0x11 :: 0x00 :: 0x00 :: 0x01 :: 0x2C :: tail) = some ([⟨0x11, .int 300⟩], tail) :=
    Mqtt5.properties_append (s := [0x11, 0x00, 0x00, 0x01, 0x2C]) rfl (by decide) rfl
  -- what the flags announce: no will, a user name and a password
  have hwill : decide ((0b11000010 : UInt8) &&& 0x04 ≠ 0) = false := by decide
  have huserName : decide ((0b11000010 : UInt8) &&& 0x80 ≠ 0) = true := by decide
  have hpass : decide ((0b11000010 : UInt8) &&& 0x40 ≠ 0) = true := by decide
  simp only [Mqtt5.connect, rest, field_counted htype, Option.bind_eq_bind, Option.bind_some,
    Mqtt5.byte, Mqtt5.uint16, hproperties, field_counted hCID, hwill, huserName, hpass,
    Mqtt5.optional_false, Mqtt5.optional_true (field_counted huser _),
    Mqtt5.optional_true (field_counted hpassword _)]
  rfl

theorem subscribe_rest (topic : Utils.String) (h : (SUBSCRIBE topic).remainingLength < 128) :
    Mqtt5.subscribe (SUBSCRIBE topic).rest = some (SUBSCRIBE topic).packet := by
  rw [remainingLength] at h
  have htopic : topic.size < 256 := by omega
  have hproperties : ∀ tail, Mqtt5.properties (0x00 :: tail) = some ([], tail) :=
    Mqtt5.properties_append (s := []) rfl (by decide) rfl
  have hfilters : Mqtt5.filters (counted topic [0x00]).length (counted topic [0x00]) =
      some [(topic.bytes, 0)] := by
    rw [length_counted]
    show Mqtt5.filters (topic.size + 2 + 1) (counted topic [0x00]) = _
    rw [Mqtt5.filters, if_neg (by simp [counted]), field_counted htopic, Option.bind_some,
      Mqtt5.byte, Option.bind_some, Mqtt5.filters_nil]
    rfl
  simp only [Mqtt5.subscribe, rest, Option.bind_eq_bind, Option.bind_some, Mqtt5.uint16,
    hproperties, hfilters]
  rfl

theorem publish_rest (topic message response : Utils.String)
    (h : (PUBLISH topic message response).remainingLength < 128) :
    Mqtt5.publish 1 (PUBLISH topic message response).rest =
      some (PUBLISH topic message response).packet := by
  rw [remainingLength] at h
  have htopic : topic.size < 256 := by omega
  have hid : decide (1 / 2 % 4 ≠ 0) = false := by decide
  by_cases hresponse : response.size = 0
  · have hnil : response.bytes = [] := List.eq_nil_of_length_eq_zero hresponse
    have hproperties : ∀ tail, Mqtt5.properties (0x00 :: tail) = some ([], tail) :=
      Mqtt5.properties_append (s := []) rfl (by decide) rfl
    rw [rest, if_neg (not_not.mpr hresponse), packet, if_pos hnil]
    simp only [Mqtt5.publish, field_counted htopic, Option.bind_eq_bind, Option.bind_some, hid,
      Mqtt5.optional_false, hproperties]
    rfl
  · rw [if_neg hresponse] at h
    have hne : response.bytes ≠ [] := fun hnil => hresponse (by rw [Utils.String.size, hnil]; rfl)
    -- the property section is one property, the response topic
    have hvalue : Mqtt5.value (0x08 : UInt8).toNat (counted response []) =
        some (.string response.bytes, []) := by
      show (Mqtt5.field (counted response [])).map _ = _
      rw [field_counted (by omega)]
      rfl
    have hproperties : Mqtt5.properties (UInt8.ofNat (3 + response.size) :: 0x08 ::
        counted response message.bytes) =
          some ([⟨0x08, .string response.bytes⟩], message.bytes) := by
      have hlength : (0x08 :: counted response []).length = 3 + response.size := by
        rw [List.length_cons, length_counted, List.length_nil]
        omega
      have hsplit : 0x08 :: counted response message.bytes =
          (0x08 :: counted response []) ++ message.bytes := by
        simp only [counted, List.append_nil, List.cons_append]
      rw [hsplit, ← List.cons_append]
      refine Mqtt5.properties_append ?_ ?_ ?_ message.bytes
      · rw [toNat_ofNat_of_lt (by omega), hlength]
      · omega
      · rw [List.length_cons]
        exact Mqtt5.propertyList_singleton hvalue _
    rw [rest, if_pos hresponse, packet, if_neg hne]
    simp only [Mqtt5.publish, field_counted htopic, Option.bind_eq_bind, Option.bind_some, hid,
      Mqtt5.optional_false, hproperties]
    rfl

/-- What stands behind the Remaining Length is read as it was meant, if every length in it is
below 128. -/
theorem body_rest {r : RequestMQTT} (h : r.remainingLength < 128) :
    Mqtt5.body r.first r.rest = some r.packet := by
  cases r with
  | CONNECT CID user password => exact connect_rest CID user password h
  | SUBSCRIBE topic => exact subscribe_rest topic h
  | PUBLISH topic message response =>
      rw [first, Mqtt5.body, if_neg (by decide), if_neg (by decide), if_pos (by decide)]
      exact publish_rest topic message response h

/-- Behind the Remaining Length stands a zero. -/
theorem rest_eq_cons (r : RequestMQTT) : ∃ bytes, r.rest = 0x00 :: bytes := by
  cases r <;> exact ⟨_, rfl⟩

/-- **A request transmits an MQTT packet** with its strings if and only if the packet has less
than 128 bytes behind its Remaining Length. -/
theorem parse_send_iff (r : RequestMQTT) :
    Mqtt5.parse r.send = some r.packet ↔ r.remainingLength < 128 := by
  have hlength := r.length_rest
  rw [send_eq]
  constructor
  · intro hparse
    by_contra hge
    obtain ⟨bytes, hrest⟩ := r.rest_eq_cons
    rw [hrest, List.length_cons] at hlength
    have hbyte : (UInt8.ofNat r.remainingLength).toNat ≤ r.remainingLength := by
      rw [UInt8.toNat_ofNat']
      exact Nat.mod_le _ _
    rw [hrest, Mqtt5.parse_of_ge rfl (by omega) (by omega)] at hparse
    exact absurd hparse (by simp)
  · intro hlt
    have hbyte : (UInt8.ofNat r.remainingLength).toNat = r.rest.length := by
      rw [toNat_ofNat_of_lt (by omega), hlength]
    rw [Mqtt5.parse_of_lt hbyte (by omega), body_rest hlt]

/-- A topic of 122 letters. -/
def longTopic : Utils.String := ⟨List.replicate 122 0x61, by decide⟩

set_option maxRecDepth 4000 in
/-- **The shortest SUBSCRIBE that fails**: its Remaining Length would be 128. -/
theorem not_parse_send_longTopic :
    Mqtt5.parse (SUBSCRIBE longTopic).send ≠ some (SUBSCRIBE longTopic).packet := by
  decide

/-! ## Read by the device -/

open ResponseMQTT in
/-- The device takes one byte behind the topic for the whole property section: with a response
topic, the section becomes the beginning of the message. -/
theorem newPUBLISH_send (stale : ℕ → UInt8) {buffer : Buffer 1024}
    {topic message response : Utils.String}
    (hbytes : buffer.bytes = (PUBLISH topic message response).send) (htopic : topic.size < 64)
    (h : (PUBLISH topic message response).remainingLength < 128) :
    ∃ r, newPUBLISH stale buffer = some r ∧ r.nameTopic = topic.bytes ∧
      r.message = if response.size = 0 then message.bytes
        else 0x08 :: counted response message.bytes := by
  have hlength := (PUBLISH topic message response).length_rest
  have hlen := toNat_ofNat_of_lt (show (PUBLISH topic message response).remainingLength < 256 by
    omega)
  have hlo : (UInt8.ofNat topic.size).toNat = topic.bytes.length := toNat_ofNat_of_lt (by omega)
  rw [send_eq] at hbytes
  obtain ⟨prop, payload, hrest, hpayload⟩ : ∃ prop payload,
      (PUBLISH topic message response).rest = counted topic (prop :: payload) ∧
      payload = if response.size = 0 then message.bytes
        else 0x08 :: counted response message.bytes := by
    by_cases hresponse : response.size = 0
    · exact ⟨_, _, by rw [rest, if_neg (not_not.mpr hresponse)], by rw [if_pos hresponse]⟩
    · exact ⟨_, _, by rw [rest, if_pos hresponse], by rw [if_neg hresponse]⟩
  rw [hrest] at hbytes hlength
  rw [length_counted, List.length_cons] at hlength
  have hroom : topic.bytes.length = topic.size := rfl
  have hsplit : buffer.bytes = 0x31 ::
      UInt8.ofNat (PUBLISH topic message response).remainingLength :: 0x00 ::
      UInt8.ofNat topic.size :: (topic.bytes ++ prop :: (payload ++ [])) := by
    rw [List.append_nil, hbytes]
    rfl
  refine ⟨_, newPUBLISH_eq stale hsplit hlo ?_ ?_ ?_, rfl, hpayload⟩
  · rw [hlen, hroom]
    omega
  · exact htopic
  · rwa [hlen]

open ResponseMQTT in
/-- **The device reads its own PUBLISH back** if and only if it has no response topic. -/
theorem newPUBLISH_send_iff (stale : ℕ → UInt8) {buffer : Buffer 1024}
    {topic message response : Utils.String}
    (hbytes : buffer.bytes = (PUBLISH topic message response).send) (htopic : topic.size < 64)
    (h : (PUBLISH topic message response).remainingLength < 128) :
    (∃ r, newPUBLISH stale buffer = some r ∧ r.nameTopic = topic.bytes ∧
      r.message = message.bytes) ↔ response.size = 0 := by
  obtain ⟨r, hr, hname, hpayload⟩ := newPUBLISH_send stale hbytes htopic h
  constructor
  · rintro ⟨r', hr', -, hread⟩
    obtain rfl := Option.some.inj (hr.symm.trans hr')
    by_contra hresponse
    rw [if_neg hresponse, hread] at hpayload
    have hlength := congrArg List.length hpayload
    rw [List.length_cons, length_counted] at hlength
    omega
  · intro hresponse
    rw [if_pos hresponse] at hpayload
    exact ⟨r, hr, hname, hpayload⟩

/-- Topic `t`, message `m`, and the response topic `r` or none. -/
def answered : RequestMQTT := PUBLISH ⟨[0x74], by decide⟩ ⟨[0x6D], by decide⟩ ⟨[0x72], by decide⟩
@[inherit_doc answered] def unanswered : RequestMQTT :=
  PUBLISH ⟨[0x74], by decide⟩ ⟨[0x6D], by decide⟩ ⟨[], by decide⟩

open ResponseMQTT in
theorem newPUBLISH_unanswered :
    ∃ r, newPUBLISH (fun _ => 0) ⟨unanswered.send, by decide⟩ = some r ∧
      r.nameTopic = [0x74] ∧ r.message = [0x6D] :=
  (@newPUBLISH_send_iff (fun _ => 0) ⟨unanswered.send, by decide⟩ ⟨[0x74], by decide⟩
    ⟨[0x6D], by decide⟩ ⟨[], by decide⟩ rfl (by decide) (by decide)).mpr rfl

open ResponseMQTT in
/-- **The property section read as message**: `08 00 01 72`, and `m` behind it. -/
theorem not_newPUBLISH_answered :
    ¬ ∃ r, newPUBLISH (fun _ => 0) ⟨answered.send, by decide⟩ = some r ∧
      r.nameTopic = [0x74] ∧ r.message = [0x6D] := by
  rintro ⟨r, hr, -, hmessage⟩
  have hread : (newPUBLISH (fun _ => 0) ⟨answered.send, by decide⟩).map (·.message) =
      some [0x08, 0x00, 0x01, 0x72, 0x6D] := by decide
  rw [hr, Option.map_some, hmessage] at hread
  exact absurd hread (by decide)

end RequestMQTT

end USKD
