import USKD.Modem.Framing

/-!
# The answer to a subscription

The server answers SUBSCRIBE with SUBACK: the packet identifier of the request, a property
section, and a reason code for each filter, from 0x80 on a refusal.  `ResponseSUBSCRIBE::Run`
turns the reason code into "SUBS OK" or "FALSE".

`ResponseSUBSCRIBE` has a constructor that reads these fields, but `Create` builds a
`ResponseCONNECT` instead, for which the second byte of the body is the reason.  In a SUBACK that
is the low byte of the packet identifier.  So the device reports what the server said only if the
two are on the same side of 0x80 (`reports_iff`).
-/

namespace USKD

namespace ResponseMQTT

/-- The reason code of a `ResponseCONNECT` is the second byte behind the header. -/
theorem reasonCode_newCONNECT {stale : ℕ → UInt8} {buffer : Buffer 1024}
    {type len flags reason : UInt8} {rest : List UInt8}
    (h : buffer.bytes = type :: len :: flags :: reason :: rest)
    (hfull : len.toNat ≤ rest.length + 2) {r : ResponseCONNECT}
    (hr : newCONNECT stale buffer = some r) : r.reasonCode = reason := by
  have hsize := size_ge_of_complete h hfull
  rw [newCONNECT, BufferMQTT.readHeader_eq h] at hr
  simp only [Option.bind_eq_bind, Option.bind_some, if_pos hsize, Option.pure_def] at hr
  rw [BufferMQTT.readUint8_tracked (by simp) (by simp)] at hr
  simp only [Option.bind_some] at hr
  rw [BufferMQTT.readUint8_tracked (by simp) (by simp)] at hr
  simp only [Option.bind_some] at hr
  obtain ⟨props, -, hr⟩ := Option.bind_eq_some_iff.mp hr
  obtain rfl := Option.some.inj hr
  simp [h]

end ResponseMQTT

namespace PBD

open ResponseMQTT Transducer

/-- **A SUBACK for one filter** with a Remaining Length below 128.  The property section is any
list of bytes. -/
structure Suback where
  idHigh : UInt8
  idLow : UInt8
  properties : List UInt8
  reason : UInt8
  short : properties.length + 4 < 128

namespace Suback

variable (p : Suback)

/-- The SUBACK as a packet of the stream. -/
def packet : Packet where
  header := Type.SUBACK
  body := p.idHigh :: p.idLow :: UInt8.ofNat p.properties.length :: p.properties ++ [p.reason]

theorem length_body : p.packet.body.length = p.properties.length + 4 := by
  simp [packet]

theorem type_packet : p.packet.type = Type.SUBACK := by
  show Type.SUBACK &&& 0xF0 = Type.SUBACK
  decide

theorem body_lt : p.packet.body.length < 128 := by
  rw [length_body]
  exact p.short

theorem bytes_packet : p.packet.bytes = Type.SUBACK :: UInt8.ofNat (p.properties.length + 4) ::
    p.idHigh :: p.idLow :: (UInt8.ofNat p.properties.length :: p.properties ++ [p.reason]) := by
  rw [Packet.bytes_of_lt p.body_lt, length_body]
  rfl

theorem wellFormed_packet : p.packet.WellFormed where
  total := by
    rw [Packet.bytes_of_lt p.body_lt, List.length_cons, List.length_cons]
    have hshort := p.body_lt
    omega
  connack h := by
    rw [type_packet] at h
    exact absurd h (by decide)
  suback _ := by
    rw [length_body]
    omega
  publish h := by
    rw [type_packet] at h
    exact absurd h (by decide)

/-- The array of ten properties takes what is behind the reason that is read: the properties, their
length and the real reason. -/
theorem fits_packet_iff : p.packet.Fits ↔ p.properties.length ≤ 18 := by
  have hlength := p.length_body
  constructor
  · intro hfits
    have hbody := hfits.properties (Or.inr p.type_packet)
    omega
  · intro hprops
    refine ⟨p.body_lt, fun _ => by omega, fun h => ?_⟩
    rw [type_packet] at h
    exact absurd h (by decide)

/-- What the device makes of the packet is decided by the low byte of the packet identifier. -/
theorem run_create {stale : ℕ → UInt8} {r : ResponseMQTT}
    (hr : create stale (holding p.packet.bytes) = some r) :
    r.run = some ⟨p.packet.bytes.length,
      some (.mqttUpdate (ascii (if p.idLow < 0x80 then "SUBS OK" else "FALSE")))⟩ := by
  have hlen : (UInt8.ofNat (p.properties.length + 4)).toNat = p.properties.length + 4 := by
    rw [← length_body]
    exact Packet.toNat_length p.body_lt
  have hbytes := (bytes_holding p.wellFormed_packet.total).trans p.bytes_packet
  have htotal : p.packet.bytes.length = p.properties.length + 4 + 2 := by
    rw [bytes_packet]
    simp
  have hne : Type.SUBACK &&& 0xF0 ≠ Type.CONNACK ∧ Type.SUBACK &&& 0xF0 ≠ Type.PUBLISH ∧
      Type.SUBACK &&& 0xF0 = Type.SUBACK := by decide
  rw [create_of_complete hbytes (by rw [hlen]; simp), if_neg hne.1, if_neg hne.2.1,
    if_pos hne.2.2] at hr
  obtain ⟨c, hc, rfl⟩ := Option.map_eq_some_iff.mp hr
  have hreason := reasonCode_newCONNECT hbytes (by rw [hlen]; simp) hc
  obtain ⟨hvalid, hall, htype⟩ := (newCONNECT_spec stale hbytes (by rw [hlen]; simp)).1 c hc
  rw [run, htype, if_neg hne.1, if_pos hne.2.2, runSUBSCRIBE, if_pos hvalid, hreason, hall, hlen,
    htotal]

end Suback

/-- What is called back over some calls. -/
def callbacks (outputs : List (Option Processed)) : List Callback :=
  outputs.filterMap fun o => o.bind Processed.callback

/-- **The device reports what the server said**: over the bytes of the packet, whatever the stack
holds, `MQTT::Update` is called with "SUBS OK" if and only if the reason code says so. -/
def Reports (p : Suback) : Prop :=
  ∀ inputs : List Input, inputs.map Input.byte = p.packet.bytes →
    ∃ outputs buffer, feed appendByte Buffer.clear inputs = some (outputs, buffer) ∧
      (.mqttUpdate (ascii "SUBS OK") ∈ callbacks outputs ↔ p.reason < 0x80)

/-- The calls over a SUBACK: the last of them reports, unless the properties overrun their
array. -/
theorem feed_suback (p : Suback) {inputs : List Input}
    (hinputs : inputs.map Input.byte = p.packet.bytes) :
    if p.properties.length ≤ 18 then
      feed appendByte Buffer.clear inputs =
        some (List.replicate (p.properties.length + 5) none ++
          [some ⟨p.packet.bytes.length,
            some (.mqttUpdate (ascii (if p.idLow < 0x80 then "SUBS OK" else "FALSE")))⟩],
          Buffer.clear)
    else feed appendByte Buffer.clear inputs = none := by
  have hbytes := Packet.bytes_of_lt p.body_lt
  have hlen := (Packet.toNat_length p.body_lt).symm
  obtain ⟨init, last, rfl⟩ := exists_last hinputs
  have hinit : init.length = p.properties.length + 5 := by
    have htotal := congrArg List.length (hinputs.trans hbytes)
    have hbody := p.length_body
    simp only [List.length_map, List.length_append, List.length_cons, List.length_nil] at htotal
    omega
  have hcreate := create_isSome_iff_fits p.wellFormed_packet p.body_lt last.stale
  rw [p.fits_packet_iff] at hcreate
  rw [hbytes] at hinputs
  have hcomplete := feed_complete hinputs hlen
  rw [← hbytes] at hcomplete
  cases hr : create last.stale (holding p.packet.bytes) with
  | none =>
      rw [hr] at hcreate hcomplete
      rw [if_neg fun hprops => absurd (hcreate.mpr hprops) (by simp)]
      exact hcomplete
  | some r =>
      rw [hr] at hcreate
      rw [if_pos (hcreate.mp rfl), feed_run hinputs hlen (hbytes ▸ hr), p.run_create hr, hinit]

/-- What is called back over a SUBACK that fits. -/
theorem mem_callbacks_iff (p : Suback) (n size : ℕ) :
    .mqttUpdate (ascii "SUBS OK") ∈ callbacks (List.replicate n none ++
        [some ⟨size, some (.mqttUpdate (ascii (if p.idLow < 0x80 then "SUBS OK" else "FALSE")))⟩]) ↔
      p.idLow < 0x80 := by
  have hne : ascii "SUBS OK" ≠ ascii "FALSE" := by decide
  by_cases hlow : p.idLow < 0x80
  · simp [callbacks, hlow]
  · simp [callbacks, hlow, hne]

theorem fits_of_reports {p : Suback} (h : Reports p) :
    p.properties.length ≤ 18 ∧ (p.idLow < 0x80 ↔ p.reason < 0x80) := by
  obtain ⟨outputs, buffer, hfeed, hiff⟩ := h (quiet p.packet.bytes) (map_byte_quiet _)
  have hcalls := feed_suback p (map_byte_quiet p.packet.bytes)
  split at hcalls
  · rename_i hprops
    obtain ⟨rfl, -⟩ := Prod.mk.inj (Option.some.inj (hfeed.symm.trans hcalls))
    exact ⟨hprops, (mem_callbacks_iff p _ _).symm.trans hiff⟩
  · rw [hcalls] at hfeed
    exact absurd hfeed (by simp)

/-- **The device reports what the server said** if and only if at most 18 bytes of properties come
with it, and the low byte of the packet identifier is on the same side of 0x80 as the reason
code. -/
theorem reports_iff (p : Suback) :
    Reports p ↔ p.properties.length ≤ 18 ∧ (p.idLow < 0x80 ↔ p.reason < 0x80) := by
  constructor
  · exact fits_of_reports
  · rintro ⟨hprops, hsame⟩ inputs hinputs
    have hcalls := feed_suback p hinputs
    rw [if_pos hprops] at hcalls
    exact ⟨_, _, hcalls, (mem_callbacks_iff p _ _).trans hsame⟩

/-- The subscription with identifier 1 is refused. -/
def refused : Suback := ⟨0x00, 0x01, [], 0x80, by decide⟩

/-- The device reports it as accepted. -/
theorem not_reports_refused : ¬ Reports refused := by
  intro hreports
  have hsame := (fits_of_reports hreports).2
  exact absurd hsame (by decide)

end PBD

end USKD
