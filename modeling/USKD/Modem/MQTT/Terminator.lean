import USKD.Modem.MQTT.MQTT

/-!
# The terminator of a packet

After `AT+CIPSEND` without a length the modem forwards what it receives up to the first `0x1A`.
`RequestMQTT::Update` sends that byte behind the packet; but a packet is binary, and what stands in
it is not looked at.

In a packet of strings without control characters `0x1A` can only be one of its lengths.  So the
modem forwards the packet exactly if no length, taken modulo 256, is 26 (`forwards_iff`).
-/

namespace USKD

/-- The bytes that an event puts on the line to the modem. -/
def Device.Event.bytes : Device.Event → List UInt8
  | .command text => text ++ [0x0D]
  | .packet request _ => request.send
  | .terminator => [0x1A]
  | _ => []

/-- No byte is a control character (`iscntrl`). -/
def Utils.String.Plain (s : Utils.String) : Prop := ∀ b ∈ s.bytes, ¬ (b < 0x20 ∨ b = 0x7F)

instance (s : Utils.String) : Decidable s.Plain := List.decidableBAll _ s.bytes

theorem Utils.String.Plain.not_mem {s : Utils.String} (h : s.Plain) : 0x1A ∉ s.bytes :=
  fun hmem => h 0x1A hmem (Or.inl (by decide))

namespace RequestMQTT

/-- **What the modem forwards** of the bytes that it receives after its prompt. -/
def forwarded (received : List UInt8) : List UInt8 := received.takeWhile (· ≠ 0x1A)

/-- A text is forwarded as far as its terminator if and only if there is none inside. -/
theorem forwarded_append_iff (text : List UInt8) :
    forwarded (text ++ [0x1A]) = text ↔ 0x1A ∉ text := by
  unfold forwarded
  constructor
  · intro hall hmem
    rw [← hall] at hmem
    exact absurd (List.mem_takeWhile_imp hmem) (by simp)
  · intro hfree
    have hpos : ∀ b ∈ text, (decide (b ≠ 0x1A)) = true := by
      intro b hb
      rw [decide_eq_true_iff]
      rintro rfl
      exact hfree hb
    rw [List.takeWhile_append_of_pos hpos]
    simp

/-- The strings of a request. -/
def strings : RequestMQTT → List Utils.String
  | CONNECT CID user password => [CID, user, password]
  | SUBSCRIBE topic => [topic]
  | PUBLISH topic message response => [topic, message, response]

/-- The lengths that `Send` writes into the packet, before their cast to `uint8`. -/
def lengths : RequestMQTT → List ℕ
  | r@(CONNECT CID user password) =>
      [r.remainingLength, typeMQTT.size, CID.size, user.size, password.size]
  | r@(SUBSCRIBE topic) => [r.remainingLength, topic.size]
  | r@(PUBLISH topic _ response) =>
      r.remainingLength :: topic.size ::
        if response.size ≠ 0 then [3 + response.size, response.size] else []

/-- **The packet is forwarded**: whenever `RequestMQTT::Update` has the request and meets the
prompt in time, the modem forwards of what is transmitted then exactly the packet, in which there
is no terminator. -/
def Forwards (r : RequestMQTT) : Prop :=
  ∀ (request : MQTT.Request) (meter : TimeMeterMS) (connected : Bool) (now : UInt32),
    request.request = r → request.state = .NEED_SEND → ¬ meter.elapsedTime now > 1000 →
      forwarded ((request.update meter connected now (ascii ">")).events.flatMap
        Device.Event.bytes) = r.send ∧ 0x1A ∉ r.send

/-- Behind the prompt the packet and its terminator are transmitted. -/
theorem forwards_iff_not_mem (r : RequestMQTT) : Forwards r ↔ 0x1A ∉ r.send := by
  constructor
  · intro hforwards
    exact (hforwards ⟨r, .NEED_SEND, 5⟩ (.reset 0) true 0 rfl rfl (by simp)).2
  · rintro hfree request meter connected now rfl hstate htime
    refine ⟨?_, hfree⟩
    have hevents : (request.update meter connected now (ascii ">")).events =
        [.packet request.request connected, .terminator] := by
      unfold MQTT.Request.update
      rw [hstate]
      simp only [if_neg htime, if_true]
    rw [hevents]
    exact (forwarded_append_iff request.request.send).mpr hfree

/-! ## Where the terminator can stand -/

theorem ofNat_eq_iff (n : ℕ) : 0x1A = UInt8.ofNat n ↔ n % 256 = 26 := by
  rw [← UInt8.toNat_inj, UInt8.toNat_ofNat']
  exact eq_comm

/-- In a string without control characters only the length may be the terminator. -/
theorem mem_counted_iff {s : Utils.String} (h : s.Plain) (rest : List UInt8) :
    0x1A ∈ counted s rest ↔ s.size % 256 = 26 ∨ 0x1A ∈ rest := by
  have hfree := h.not_mem
  unfold counted
  simp [ofNat_eq_iff, hfree]

/-- **Only a length may be the terminator.** -/
theorem mem_send_iff {r : RequestMQTT} (h : ∀ s ∈ r.strings, s.Plain) :
    0x1A ∈ r.send ↔ ∃ n ∈ r.lengths, n % 256 = 26 := by
  have htype : typeMQTT.Plain := by decide
  rw [send_eq, List.mem_cons, List.mem_cons, ofNat_eq_iff]
  cases r with
  | CONNECT CID user password =>
      have hCID : CID.Plain := h CID (by simp [strings])
      have huser : user.Plain := h user (by simp [strings])
      have hpassword : password.Plain := h password (by simp [strings])
      simp [first, rest, lengths, mem_counted_iff, htype, hCID, huser, hpassword]
  | SUBSCRIBE topic =>
      have htopic : topic.Plain := h topic (by simp [strings])
      simp [first, rest, lengths, mem_counted_iff, htopic]
  | PUBLISH topic message response =>
      have htopic : topic.Plain := h topic (by simp [strings])
      have hmessage : 0x1A ∉ message.bytes := (h message (by simp [strings])).not_mem
      have hresponse : response.Plain := h response (by simp [strings])
      rw [rest, lengths, mem_counted_iff htopic]
      by_cases hnone : response.size = 0
      · simp [first, hnone, hmessage]
      · rw [if_pos hnone, if_pos hnone]
        generalize 3 + response.size = m
        simp [first, hmessage, mem_counted_iff, hresponse, ofNat_eq_iff]

/-- **The modem forwards the packet that was built**, of strings without control characters, if and
only if none of its lengths is the terminator. -/
theorem forwards_iff (r : RequestMQTT) (hplain : ∀ s ∈ r.strings, s.Plain) :
    Forwards r ↔ ∀ n ∈ r.lengths, n % 256 ≠ 26 := by
  rw [forwards_iff_not_mem, mem_send_iff hplain]
  constructor
  · intro hfree n hn hlength
    exact hfree ⟨n, hn, hlength⟩
  · rintro hfree ⟨n, hn, hlength⟩
    exact hfree n hn hlength

/-- The request for the topic `time`. -/
def shortRequest : RequestMQTT := SUBSCRIBE ⟨ascii "time", by decide⟩

theorem plain_shortRequest : ∀ s ∈ shortRequest.strings, s.Plain := by
  decide

theorem forwards_shortRequest : Forwards shortRequest :=
  (forwards_iff shortRequest plain_shortRequest).mpr (by decide)

/-- The request for a topic of twenty letters: its Remaining Length is 26. -/
def truncatedRequest : RequestMQTT := SUBSCRIBE ⟨ascii "devices/box/b1/alarm", by decide⟩

/-- **The terminator stands in the second byte**, so that nothing but the packet type is
forwarded. -/
theorem not_forwards_truncatedRequest :
    (∀ s ∈ truncatedRequest.strings, s.Plain) ∧ ¬ Forwards truncatedRequest ∧
      forwarded (truncatedRequest.send ++ [0x1A]) = [0x82] := by
  refine ⟨by decide, ?_, by decide⟩
  rw [forwards_iff_not_mem, not_not]
  decide

end RequestMQTT

end USKD
