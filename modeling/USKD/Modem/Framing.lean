import Mathlib.Tactic.FinCases
import USKD.Lib.Feed
import USKD.Modem.ProcessorBinaryData

/-!
# Framing of the server's packets

The server sends MQTT packets: a header byte, the Remaining Length as a variable byte
integer, and that many bytes.  `FramesExactly` says what the packet queue owes to a
sequence of them, fed byte by byte: nothing happens before the last byte of a packet, and
that byte processes and removes the packet with its true length.

`framesExactly_iff` says for which sequences it does.  The Remaining Length is read as a
single byte, so a packet with a body of 128 or more is cut short; the constructors store
at most ten properties and a topic of at most 63 bytes.
-/

namespace USKD.PBD

open ResponseMQTT Transducer

/-! ## Packets -/

/-- An MQTT variable byte integer of at most `k` bytes: seven bits a byte, the least
significant first, the top bit saying that another byte follows. -/
def varByteInteger : ℕ → ℕ → List UInt8
  | 0, _ => []
  | k + 1, n =>
      if n < 128 then [UInt8.ofNat n]
      else UInt8.ofNat (n % 128 + 128) :: varByteInteger k (n / 128)

/-- A control packet: what stands before and after the Remaining Length. -/
structure Packet where
  header : UInt8
  body : List UInt8

namespace Packet

/-- The packet as it is sent. -/
def bytes (p : Packet) : List UInt8 :=
  p.header :: varByteInteger 4 p.body.length ++ p.body

/-- The packet type, in the high nibble of the header. -/
def type (p : Packet) : UInt8 := p.header &&& 0xF0

/-- The topic length of a PUBLISH, in its first two bytes. -/
def topicLength (p : Packet) : ℕ :=
  match p.body with
  | hi :: lo :: _ => 256 * hi.toNat + lo.toNat
  | _ => 0

/-- **Well formed and at most 1024 bytes long**, as far as the three types that are read
go: a CONNACK has flags, a reason and a property length; a SUBACK a packet identifier, a
property length and a reason; a PUBLISH a topic and a property length.  (MQTT 5 asks for
more; what follows does not need it.) -/
structure WellFormed (p : Packet) : Prop where
  total : p.bytes.length ≤ 1024
  connack : p.type = Type.CONNACK → 3 ≤ p.body.length
  suback : p.type = Type.SUBACK → 4 ≤ p.body.length
  publish : p.type = Type.PUBLISH → p.topicLength + 3 ≤ p.body.length

/-- **The packets the code can frame.** -/
structure Fits (p : Packet) : Prop where
  body : p.body.length < 128
  properties : p.type = Type.CONNACK ∨ p.type = Type.SUBACK → p.body.length ≤ 22
  topic : p.type = Type.PUBLISH → p.topicLength < 64

/-- What `AppendByte` should report over the bytes of the packet. -/
def expected (p : Packet) : List (Option ℕ) :=
  List.replicate (p.bytes.length - 1) none ++ [some p.bytes.length]

theorem bytes_of_lt {p : Packet} (h : p.body.length < 128) :
    p.bytes = p.header :: UInt8.ofNat p.body.length :: p.body := by
  simp [bytes, varByteInteger, h]

/-- The Remaining Length of a short packet, as the code reads it. -/
theorem toNat_length {p : Packet} (h : p.body.length < 128) :
    (UInt8.ofNat p.body.length).toNat = p.body.length := by
  rw [UInt8.toNat_ofNat']
  omega

/-- The bytes of a long packet, and the length the code reads from the second one: it is
less than what follows. -/
theorem bytes_of_ge {p : Packet} (h : 128 ≤ p.body.length) :
    ∃ len rest, p.bytes = p.header :: len :: rest ∧ len.toNat < rest.length := by
  have hbig : ¬ p.body.length < 128 := by omega
  refine ⟨UInt8.ofNat (p.body.length % 128 + 128), varByteInteger 3 (p.body.length / 128) ++ p.body,
    by simp [bytes, varByteInteger, hbig], ?_⟩
  have hsome : 1 ≤ (varByteInteger 3 (p.body.length / 128)).length := by
    rw [varByteInteger]
    split <;> simp
  have hlen : (UInt8.ofNat (p.body.length % 128 + 128)).toNat = p.body.length % 128 + 128 := by
    rw [UInt8.toNat_ofNat']
    omega
  rw [hlen, List.length_append]
  omega

@[simp] theorem length_expected (p : Packet) : p.expected.length = p.bytes.length := by
  simp [expected, bytes]

end Packet

/-- **The framing the claim is about**: over the bytes of the packets, whatever is on the
stack, each packet is processed and removed once, at its last byte, with its true
length. -/
def FramesExactly (packets : List Packet) : Prop :=
  ∀ inputs : List Input, inputs.map Input.byte = packets.flatMap Packet.bytes →
    ∃ outputs, feed appendByte Buffer.clear inputs = some (outputs, Buffer.clear) ∧
      outputs.map (Option.map Processed.size) = packets.flatMap Packet.expected

/-! ## One packet, as the code sees it -/

/-- The buffer that holds `xs`. -/
def holding (xs : List UInt8) : Buffer 1024 := (Buffer.clear.append xs).1

theorem bytes_holding {xs : List UInt8} (h : xs.length ≤ 1024) : (holding xs).bytes = xs := by
  rw [holding, Buffer.append_of_le (by simpa using h)]
  rfl

theorem holding_nil : holding [] = Buffer.clear := rfl

theorem push_holding {xs : List UInt8} {x : UInt8} (h : xs.length < 1024) :
    ((holding xs).push x).1 = holding (xs ++ [x]) := by
  refine Buffer.bytes_inj ?_
  rw [Buffer.push_of_lt (by rwa [bytes_holding h.le]), bytes_holding h.le,
    bytes_holding (by rw [List.length_append]; exact h)]

/-- **Nothing happens as long as the second byte asks for more.** -/
theorem feed_incomplete (inputs : List Input) (hle : inputs.length ≤ 1024)
    (h : ∀ type len rest, inputs.map Input.byte = type :: len :: rest → rest.length < len.toNat) :
    feed appendByte Buffer.clear inputs =
      some (List.replicate inputs.length none, holding (inputs.map Input.byte)) := by
  have hsilent := feed_replicate (f := appendByte) (fun is => holding (is.map Input.byte)) none
    [] inputs ?_
  · simpa [holding_nil] using hsilent
  · rintro pre i ⟨post, rfl⟩ -
    have hroom : pre.length < 1024 := by simp at hle; omega
    rw [appendByte_of_lt i (by rwa [bytes_holding (by simpa using hroom.le), List.length_map]),
      push_holding (by simpa using hroom), ← List.map_singleton, ← List.map_append]
    refine process_of_incomplete fun type len rest heq => ?_
    rw [bytes_holding (by rw [List.length_map, List.length_append]; exact hroom)] at heq
    have hwhole := h type len (rest ++ post.map Input.byte) (by rw [List.map_append, heq]; rfl)
    simp only [List.length_append] at hwhole
    omega

/-- The byte that completes what the second byte asks for is the first one that has something
to process. -/
theorem feed_last {init : List Input} {last : Input} {type len : UInt8} {rest : List UInt8}
    (hbytes : (init ++ [last]).map Input.byte = type :: len :: rest)
    (hlen : rest.length = len.toNat) :
    feed appendByte Buffer.clear (init ++ [last]) =
      (process last.stale (holding (type :: len :: rest))).map fun r =>
        (List.replicate init.length none ++ [r.1], r.2) := by
  have hbyte := len.toNat_lt
  have htotal : init.length = len.toNat + 1 := by
    have := congrArg List.length hbytes
    simp at this
    omega
  have hmap : init.map Input.byte ++ [last.byte] = type :: len :: rest := by simpa using hbytes
  have hinit := feed_incomplete init (by omega) fun t l r heq => by
    rw [heq] at hmap
    obtain ⟨rfl, rfl, rfl⟩ : t = type ∧ l = len ∧ r ++ [last.byte] = rest := by simpa using hmap
    simp at hlen
    omega
  have hlast : appendByte (holding (init.map Input.byte)) last =
      process last.stale (holding (type :: len :: rest)) := by
    rw [appendByte_of_lt last (by rw [bytes_holding] <;> simp <;> omega),
      push_holding (by simp; omega), hmap]
  rw [feed_append_of_eq hinit, feed_cons, hlast]
  cases process last.stale (holding (type :: len :: rest)) with
  | none => rfl
  | some r => simp

/-- **The byte that completes what the second byte asks for** runs the response and removes
everything. -/
theorem feed_run {init : List Input} {last : Input} {type len : UInt8} {rest : List UInt8}
    (hbytes : (init ++ [last]).map Input.byte = type :: len :: rest)
    (hlen : rest.length = len.toNat) {r : ResponseMQTT}
    (hr : create last.stale (holding (type :: len :: rest)) = some r) :
    feed appendByte Buffer.clear (init ++ [last]) =
      some (List.replicate init.length none ++ [r.run], Buffer.clear) := by
  have hbyte := len.toNat_lt
  have hholding : (holding (type :: len :: rest)).bytes = type :: len :: rest :=
    bytes_holding (by simp; omega)
  obtain ⟨buffer', hprocess, hrest⟩ := process_of_run hholding hlen.ge hr
  have hclear : buffer' = Buffer.clear := Buffer.bytes_inj (by simp [hrest, ← hlen])
  rw [feed_last hbytes hlen, hprocess, hclear]
  rfl

/-- The byte that completes what the second byte asks for removes everything, unless a
constructor fails. -/
theorem feed_complete {init : List Input} {last : Input} {type len : UInt8} {rest : List UInt8}
    (hbytes : (init ++ [last]).map Input.byte = type :: len :: rest)
    (hlen : rest.length = len.toNat) :
    match create last.stale (holding (type :: len :: rest)) with
    | none => feed appendByte Buffer.clear (init ++ [last]) = none
    | some _ => ∃ callback, feed appendByte Buffer.clear (init ++ [last]) =
        some (List.replicate init.length none ++ [some ⟨len.toNat + 2, callback⟩],
          Buffer.clear) := by
  have hbyte := len.toNat_lt
  have hholding : (holding (type :: len :: rest)).bytes = type :: len :: rest :=
    bytes_holding (by simp; omega)
  cases hcreate : create last.stale (holding (type :: len :: rest)) with
  | none =>
      simp only
      rw [feed_last hbytes hlen, process_of_create_eq_none hcreate, Option.map_none]
  | some r =>
      obtain ⟨callback, hrun⟩ := run_create_of_complete hholding hlen.ge hcreate
      refine ⟨callback, ?_⟩
      rw [feed_run hbytes hlen hcreate, hrun]

/-- A packet has a last byte. -/
theorem exists_last {p : Packet} {inputs : List Input}
    (hinputs : inputs.map Input.byte = p.bytes) : ∃ init last, inputs = init ++ [last] := by
  refine ⟨_, _, (List.dropLast_append_getLast (l := inputs) ?_).symm⟩
  rintro rfl
  exact absurd hinputs (by simp [Packet.bytes])

/-- The constructors cope with a short packet exactly if it fits. -/
theorem create_isSome_iff_fits {p : Packet} (hwf : p.WellFormed) (hshort : p.body.length < 128)
    (stale : ℕ → UInt8) : (create stale (holding p.bytes)).isSome ↔ p.Fits := by
  have hbytes := Packet.bytes_of_lt hshort
  have hlen := Packet.toNat_length hshort
  have hholding : (holding p.bytes).bytes = p.header :: UInt8.ofNat p.body.length :: p.body := by
    rw [bytes_holding hwf.total, hbytes]
  have hconnect := (newCONNECT_spec stale hholding hlen.le).2
  rw [hlen] at hconnect
  rw [create_of_complete hholding hlen.le, show p.header &&& 0xF0 = p.type from rfl]
  generalize UInt8.ofNat p.body.length = len at hlen hholding
  have hfits : p.Fits ↔ (p.type = Type.CONNACK ∨ p.type = Type.SUBACK → p.body.length ≤ 22) ∧
      (p.type = Type.PUBLISH → p.topicLength < 64) :=
    ⟨fun h => ⟨h.properties, h.topic⟩, fun h => ⟨hshort, h.1, h.2⟩⟩
  rw [hfits]
  have hne : Type.CONNACK ≠ Type.PUBLISH ∧ Type.SUBACK ≠ Type.PUBLISH := by decide
  by_cases hconn : p.type = Type.CONNACK
  · rw [if_pos hconn, Option.isSome_map, hconnect]
    simp [hconn, hne.1]
  by_cases hpub : p.type = Type.PUBLISH
  · obtain ⟨hi, lo, rest, hbody⟩ : ∃ hi lo rest, p.body = hi :: lo :: rest := by
      have := hwf.publish hpub
      rcases hb : p.body with _ | ⟨hi, _ | ⟨lo, rest⟩⟩
      · simp [hb] at this
      · simp [hb] at this
      · exact ⟨hi, lo, rest, rfl⟩
    have htopic : p.topicLength = 256 * hi.toNat + lo.toNat := by
      simp [Packet.topicLength, hbody]
    have hholds := hwf.publish hpub
    have hiff := newPUBLISH_isSome_iff stale (hholding.trans (by rw [hbody]))
      (by rw [hlen, hbody]; rfl) (by omega) (by omega)
    rw [if_neg hconn, if_pos hpub, Option.isSome_map, hiff]
    simp only [hpub, hne.1.symm, hne.2.symm, or_self, false_imp_iff, true_and, true_imp_iff]
    omega
  by_cases hsub : p.type = Type.SUBACK
  · rw [if_neg hconn, if_neg hpub, if_pos hsub, Option.isSome_map, hconnect]
    simp [hsub, hne.2]
  · rw [if_neg hconn, if_neg hpub, if_neg hsub, newUNKNOWN_eq hholding]
    simp [hconn, hpub, hsub]

/-! ## When packets are framed exactly -/

/-- **A packet that fits is framed**, and leaves the buffer empty. -/
theorem feed_of_fits {p : Packet} (hwf : p.WellFormed) (hfits : p.Fits)
    {inputs : List Input} (hinputs : inputs.map Input.byte = p.bytes) :
    ∃ outputs, feed appendByte Buffer.clear inputs = some (outputs, Buffer.clear) ∧
      outputs.map (Option.map Processed.size) = p.expected := by
  have hbytes := Packet.bytes_of_lt hfits.body
  have hlen := (Packet.toNat_length hfits.body).symm
  obtain ⟨init, last, rfl⟩ := exists_last hinputs
  have hfeed := feed_complete (hinputs.trans hbytes) hlen
  obtain ⟨r, hr⟩ := Option.isSome_iff_exists.mp
    ((create_isSome_iff_fits hwf hfits.body last.stale).mpr hfits)
  rw [hbytes] at hr
  simp only [hr] at hfeed
  obtain ⟨callback, hfeed⟩ := hfeed
  refine ⟨_, hfeed, ?_⟩
  have hinit : init.length = p.body.length + 1 := by
    have := congrArg List.length (hinputs.trans hbytes)
    simpa using this
  simp [Packet.expected, hbytes, ← hlen, hinit]

/-- **A packet that does not fit is not framed**: a long one is removed before its end,
and the others overrun an array. -/
theorem fits_of_feed {p : Packet} (hwf : p.WellFormed) {inputs : List Input}
    (hinputs : inputs.map Input.byte = p.bytes) {outputs : List (Option Processed)}
    {u : Buffer 1024} (hfeed : feed appendByte Buffer.clear inputs = some (outputs, u))
    (hout : outputs.map (Option.map Processed.size) = p.expected) : p.Fits := by
  by_contra hfits
  by_cases hshort : p.body.length < 128
  · have hbytes := Packet.bytes_of_lt hshort
    have hlen := (Packet.toNat_length hshort).symm
    obtain ⟨init, last, rfl⟩ := exists_last hinputs
    have hcomplete := feed_complete (hinputs.trans hbytes) hlen
    cases hcreate : create last.stale (holding p.bytes) with
    | some r =>
        exact hfits ((create_isSome_iff_fits hwf hshort last.stale).mp (by rw [hcreate]; rfl))
    | none =>
        rw [← hbytes, hcreate] at hcomplete
        simp [hcomplete] at hfeed
  · -- cut the input after the bytes that the second byte asks for
    obtain ⟨len, rest, hbytes, hless⟩ := Packet.bytes_of_ge (Nat.le_of_not_lt hshort)
    have hall : inputs.length = rest.length + 2 := by
      have := congrArg List.length (hinputs.trans hbytes)
      simpa using this
    obtain ⟨init, last, hcut⟩ : ∃ init last, inputs.take (len.toNat + 2) = init ++ [last] := by
      refine ⟨_, _, (List.dropLast_append_getLast ?_).symm⟩
      rintro heq
      have := congrArg List.length heq
      simp [hall] at this
    have hhead : (init ++ [last]).map Input.byte = p.header :: len :: rest.take len.toNat := by
      rw [← hcut, List.map_take, hinputs, hbytes]
      rfl
    have hcomplete := feed_complete hhead (by simp; omega)
    rw [← List.take_append_drop (len.toNat + 2) inputs, hcut] at hfeed
    obtain ⟨os₁, v, os₂, hfirst, -, rfl⟩ := feed_of_append hfeed
    split at hcomplete
    · simp [hcomplete] at hfirst
    · obtain ⟨callback, hcomplete⟩ := hcomplete
      obtain ⟨rfl, -⟩ : List.replicate init.length none ++ [some ⟨len.toNat + 2, callback⟩] = os₁ ∧
          Buffer.clear = v := by
        rw [hcomplete] at hfirst
        simpa using hfirst
      have hinit : init.length < p.bytes.length - 1 := by
        have := congrArg List.length hhead
        simp at this
        simp [hbytes]
        omega
      -- the output there should be silent
      have hat := congrArg (·[init.length]?) hout
      simp [Packet.expected, List.getElem?_append, hinit] at hat

/-- A sequence of packets that fit is framed, whatever is on the stack. -/
theorem framesExactly_of_fits {packets : List Packet} (hwf : ∀ p ∈ packets, p.WellFormed)
    (hfits : ∀ p ∈ packets, p.Fits) : FramesExactly packets := by
  induction packets with
  | nil =>
      intro inputs hinputs
      obtain rfl : inputs = [] := by simpa using hinputs
      exact ⟨[], rfl, rfl⟩
  | cons p packets ih =>
      intro inputs hinputs
      obtain ⟨is, js, rfl, his, hjs⟩ := List.map_eq_append_iff.mp hinputs
      obtain ⟨os, hfirst, hos⟩ := feed_of_fits (hwf p List.mem_cons_self)
        (hfits p List.mem_cons_self) his
      obtain ⟨os', hrest, hos'⟩ := ih (fun q hq => hwf q (List.mem_cons_of_mem _ hq))
        (fun q hq => hfits q (List.mem_cons_of_mem _ hq)) js hjs
      refine ⟨os ++ os', ?_, by simp [hos, hos']⟩
      rw [feed_append_of_eq hfirst, hrest]
      rfl

/-- Bytes received over a zeroed stack. -/
def quiet (bytes : List UInt8) : List Input := bytes.map fun b => ⟨b, fun _ => 0⟩

@[simp] theorem map_byte_quiet (bytes : List UInt8) : (quiet bytes).map Input.byte = bytes := by
  simp [quiet, Function.comp_def]

/-- A framed sequence frames its first packet. -/
theorem FramesExactly.head {p : Packet} {packets : List Packet}
    (h : FramesExactly (p :: packets)) (hwf : p.WellFormed) : p.Fits := by
  obtain ⟨outputs, hfeed, hout⟩ := h
    (quiet p.bytes ++ quiet (packets.flatMap Packet.bytes)) (by simp)
  obtain ⟨os₁, u, os₂, hfirst, -, rfl⟩ := feed_of_append hfeed
  rw [List.map_append, List.flatMap_cons] at hout
  have hone := List.append_inj hout (by
    rw [List.length_map, length_outputs hfirst, Packet.length_expected, quiet, List.length_map])
  exact fits_of_feed hwf (map_byte_quiet _) hfirst hone.1

/-- A framed sequence frames what follows a packet that fits. -/
theorem FramesExactly.tail {p : Packet} {packets : List Packet}
    (h : FramesExactly (p :: packets)) (hwf : p.WellFormed) (hfits : p.Fits) :
    FramesExactly packets := by
  intro inputs hinputs
  obtain ⟨os, hfirst, hos⟩ := feed_of_fits hwf hfits (map_byte_quiet p.bytes)
  obtain ⟨outputs, hfeed, hout⟩ := h (quiet p.bytes ++ inputs) (by simp [hinputs])
  rw [feed_append_of_eq hfirst, Option.map_eq_some_iff] at hfeed
  obtain ⟨⟨os', u⟩, hrest, heq⟩ := hfeed
  obtain ⟨rfl, rfl⟩ : os ++ os' = outputs ∧ u = Buffer.clear := by simpa using heq
  refine ⟨os', hrest, ?_⟩
  rwa [List.map_append, List.flatMap_cons, hos, List.append_cancel_left_eq] at hout

/-- **Which packets the queue frames.**  A sequence of well-formed packets is framed
exactly if and only if every packet has a body shorter than 128 bytes, every CONNACK and
SUBACK a body of at most 22 and every PUBLISH a topic of at most 63. -/
theorem framesExactly_iff (packets : List Packet) (hwf : ∀ p ∈ packets, p.WellFormed) :
    FramesExactly packets ↔ ∀ p ∈ packets, p.Fits := by
  refine ⟨fun h => ?_, framesExactly_of_fits hwf⟩
  induction packets with
  | nil => simp
  | cons p packets ih =>
      have hp := h.head (hwf p List.mem_cons_self)
      have hrest := ih (fun q hq => hwf q (List.mem_cons_of_mem _ hq))
        (h.tail (hwf p List.mem_cons_self) hp)
      rintro q hq
      rcases List.mem_cons.mp hq with rfl | hq
      · exact hp
      · exact hrest q hq

/-- A CONNACK of success with one property, and a PINGRESP. -/
def session : List Packet :=
  [⟨0x20, [0x00, 0x00, 0x03, 0x22, 0x00, 0x0A]⟩, ⟨0xD0, []⟩]

theorem framesExactly_session : FramesExactly session := by
  refine (framesExactly_iff session ?_).mpr ?_
  · rintro p hp
    fin_cases hp <;> exact ⟨by decide, by decide, by decide, by decide⟩
  · rintro p hp
    fin_cases hp <;> exact ⟨by decide, by decide, by decide⟩

/-- A PUBLISH of 124 bytes on the topic `t`: its body has 128. -/
def longPublish : Packet := ⟨0x30, [0x00, 0x01, 0x74, 0x00] ++ List.replicate 124 0x78⟩

theorem length_body_longPublish : longPublish.body.length = 128 := by
  simp [longPublish]

theorem wellFormed_longPublish : longPublish.WellFormed where
  total := by simp [Packet.bytes, varByteInteger, length_body_longPublish]
  connack := by rw [length_body_longPublish]; omega
  suback := by rw [length_body_longPublish]; omega
  publish _ := by
    rw [length_body_longPublish]
    exact Nat.le_of_ble_eq_true rfl

/-- **Not every well-formed packet is framed**: a PUBLISH with a body of 128 bytes is
removed before its end. -/
theorem not_framesExactly_longPublish :
    ¬ ∀ packets : List Packet, (∀ p ∈ packets, p.WellFormed) → FramesExactly packets := by
  intro hall
  have hframes := hall [longPublish] (by simpa using wellFormed_longPublish)
  have hshort : longPublish.body.length < 128 := (hframes.head wellFormed_longPublish).body
  rw [length_body_longPublish] at hshort
  exact absurd hshort (by omega)

end USKD.PBD
