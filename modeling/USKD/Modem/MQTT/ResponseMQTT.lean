import Mathlib.Algebra.Order.Ring.Int
import Mathlib.Data.List.GetD
import USKD.Utils.Buffer
import USKD.Utils.Text

/-!
# `ResponseMQTT`: what the device reads out of a packet of the server

`ResponseMQTT::Create` looks at the first two bytes of the input buffer and builds one
of four responses from a copy of it, `BufferMQTT`; `ResponseMQTT::Run` reports the
length to remove and calls back.

Three things of the source are modelled as they are, because the framing depends on
them.

* **The Remaining Length is one byte** (`ReadVarByte`), its top bit included.
* **A tracked length stops at zero**: `ReadUint8` and `ReadUint16` decrement `*len` only
  if it is not zero, `ReadString` always does.  A null `len` is a length not tracked; the
  two cases are the Boolean `tracked`, and the `rem_length` a tracked read decrements is
  kept next to the index.
* **The readers do not look at the size** of the buffer: behind the copied bytes they
  return what the stack held (`stale`, of which nothing is known), and behind the array
  of 1024, like a string or a property list written past its own array, the run ends
  (`none`).

The log lines are left out.
-/

namespace USKD

namespace ResponseMQTT

/-! ## The readers -/

/-- `struct BufferMQTT`: the copied bytes, the rest of its array, the reading position,
and the `rem_length` of the constructor that reads. -/
structure BufferMQTT where
  bytes : List UInt8
  stale : ℕ → UInt8
  index : ℕ
  remLength : ℤ

/-- `struct Property`. -/
structure Property where
  type : UInt8
  length : UInt8
deriving DecidableEq

namespace BufferMQTT

/-- The constructor `BufferMQTT(const Buffer<1024> &)`. -/
def new (stale : ℕ → UInt8) (buf : Buffer 1024) : BufferMQTT := ⟨buf.bytes, stale, 0, 0⟩

/-- `buffer[index++]` on the array itself. -/
def next (s : BufferMQTT) : Option (UInt8 × BufferMQTT) :=
  if s.index < 1024 then
    some (s.bytes.getD s.index (s.stale s.index), { s with index := s.index + 1 })
  else none

/-- `if (*len) *len = *len - n`. -/
def consume (s : BufferMQTT) (tracked : Bool) (n : ℤ) : BufferMQTT :=
  if tracked ∧ s.remLength ≠ 0 then { s with remLength := s.remLength - n } else s

/-- `ReadUint8`. -/
def readUint8 (s : BufferMQTT) (tracked : Bool) : Option (UInt8 × BufferMQTT) :=
  (s.consume tracked 1).next

/-- `ReadUint16`: the high byte is cast to `uint8` after the shift. -/
def readUint16 (s : BufferMQTT) (tracked : Bool) : Option (UInt16 × BufferMQTT) := do
  let (hi, s) ← (s.consume tracked 2).next
  let hiByte : UInt8 := UInt8.ofNat (hi.toNat <<< 8)
  let (lo, s) ← s.next
  pure (hiByte.toUInt16 ||| lo.toUInt16, s)

/-- The loop of `ReadString`. -/
def readBytes : ℕ → BufferMQTT → Option (List UInt8 × BufferMQTT)
  | 0, s => some ([], s)
  | n + 1, s => do
      let (b, s) ← s.next
      let (bs, s) ← readBytes n s
      pure (b :: bs, s)

/-- `ReadString(out, _sz, len)` into an array of `room` bytes, with the final zero. -/
def readString (s : BufferMQTT) (room : ℕ) (sz : ℤ) : Option (List UInt8 × BufferMQTT) :=
  if sz.toNat < room then readBytes sz.toNat { s with remLength := s.remLength - sz } else none

/-- `ReadVarByte`. -/
def readVarByte (s : BufferMQTT) (tracked : Bool) : Option (ℕ × BufferMQTT) :=
  (s.consume tracked 1).next.map fun r => (r.1.toNat, r.2)

/-- `ReadControlPacketType`. -/
def readControlPacketType (s : BufferMQTT) (tracked : Bool) : Option (UInt8 × BufferMQTT) :=
  s.readUint8 tracked

/-- `ReadProperty`: the length first, then the type. -/
def readProperty (s : BufferMQTT) (tracked : Bool) : Option (Property × BufferMQTT) := do
  let (length, s) ← s.readUint8 tracked
  let (type, s) ← s.readUint8 tracked
  pure (⟨type, length⟩, s)

/-- The loop `while (rem_length)` of `ResponseCONNECT`, into an array of `room`
properties. -/
def readProperties : ℕ → BufferMQTT → Option (List Property)
  | room, s =>
      if s.remLength = 0 then some []
      else
        match room with
        | 0 => none
        | room + 1 => do
            let (prop, s) ← s.readProperty true
            let props ← readProperties room s
            pure (prop :: props)

/-- The first two reads of `Create` and of every constructor: the packet type and
`rem_length`, which the following reads may track. -/
def readHeader (s : BufferMQTT) : Option (UInt8 × ℕ × BufferMQTT) := do
  let (type, s) ← s.readControlPacketType false
  let (remLength, s) ← s.readVarByte false
  pure (type, remLength, { s with remLength := remLength })

/-! ### What the readers do inside the array -/

theorem next_of_lt {s : BufferMQTT} (h : s.index < 1024) :
    s.next =
      some (s.bytes.getD s.index (s.stale s.index), { s with index := s.index + 1 }) := by
  rw [next, if_pos h]

/-- A tracked read takes one off a positive length and leaves zero at zero. -/
theorem readUint8_tracked {s : BufferMQTT} (hlen : 0 ≤ s.remLength) (h : s.index < 1024) :
    s.readUint8 true =
      some (s.bytes.getD s.index (s.stale s.index),
        { s with index := s.index + 1, remLength := max (s.remLength - 1) 0 }) := by
  by_cases hzero : s.remLength = 0
  · have hmax : max (s.remLength - 1) 0 = s.remLength := by omega
    rw [readUint8, consume, if_neg (by simp [hzero]), next_of_lt h, hmax]
  · have hmax : max (s.remLength - 1) 0 = s.remLength - 1 := by omega
    rw [readUint8, consume, if_pos ⟨rfl, hzero⟩, next_of_lt (by simpa using h), hmax]

/-- The bytes of the buffer are read as they stand there. -/
theorem readBytes_append {s : BufferMQTT} {xs ys : List UInt8}
    (h : s.bytes.drop s.index = xs ++ ys) (hsize : s.bytes.length ≤ 1024) :
    readBytes xs.length s = some (xs, { s with index := s.index + xs.length }) := by
  induction xs generalizing s with
  | nil => rfl
  | cons x xs ih =>
      have hlt : s.index < s.bytes.length := by
        by_contra hge
        rw [List.drop_of_length_le (Nat.not_lt.mp hge)] at h
        exact absurd h (by simp)
      have hget : s.bytes.getD s.index (s.stale s.index) = x := by
        rw [List.getD_eq_getElem _ _ hlt]
        rw [List.drop_eq_getElem_cons hlt] at h
        exact (List.cons.inj h).1
      have hdrop : s.bytes.drop (s.index + 1) = xs ++ ys := by
        rw [List.drop_eq_getElem_cons hlt] at h
        exact (List.cons.inj h).2
      have hrest := ih (s := { s with index := s.index + 1 }) hdrop hsize
      have hindex : s.index + 1 + xs.length = s.index + (xs.length + 1) := by omega
      rw [List.length_cons, readBytes, next_of_lt (Nat.lt_of_lt_of_le hlt hsize), hget]
      simp only [Option.bind_eq_bind, Option.bind_some, hrest, Option.pure_def, hindex]

theorem readProperty_tracked {s : BufferMQTT} (hlen : 0 ≤ s.remLength)
    (h : s.index + 2 ≤ 1024) :
    ∃ prop, s.readProperty true =
      some (prop, { s with index := s.index + 2, remLength := max (s.remLength - 2) 0 }) := by
  have hmax : max (max (s.remLength - 1) 0 - 1) 0 = max (s.remLength - 2) 0 := by omega
  refine ⟨⟨s.bytes.getD (s.index + 1) (s.stale (s.index + 1)),
    s.bytes.getD s.index (s.stale s.index)⟩, ?_⟩
  rw [readProperty, readUint8_tracked hlen (by omega)]
  simp only [Option.bind_eq_bind, Option.bind_some]
  rw [readUint8_tracked (by simp) (by simp only; omega)]
  simp only [Option.bind_some, Option.pure_def, hmax]

/-- **The property loop stays inside its array of `room` entries** exactly if the tracked
length is at most two for each of them. -/
theorem readProperties_isSome_iff {room : ℕ} {s : BufferMQTT} (hlen : 0 ≤ s.remLength)
    (h : s.index + 2 * room ≤ 1024) :
    (readProperties room s).isSome ↔ s.remLength ≤ 2 * room := by
  induction room generalizing s with
  | zero =>
      rw [readProperties]
      by_cases hzero : s.remLength = 0
      · simp [hzero]
      · rw [if_neg hzero]
        simp only [Option.isSome_none, Bool.false_eq_true, false_iff]
        omega
  | succ room ih =>
      rw [readProperties]
      by_cases hzero : s.remLength = 0
      · rw [if_pos hzero]
        simp only [Option.isSome_some, true_iff]
        omega
      · obtain ⟨prop, hprop⟩ := readProperty_tracked hlen (show s.index + 2 ≤ 1024 by omega)
        rw [if_neg hzero]
        simp only [hprop, Option.bind_eq_bind, Option.bind_some, Option.pure_def]
        have hrest := @ih { s with index := s.index + 2, remLength := max (s.remLength - 2) 0 }
          (by simp) (by simp only; omega)
        have hcons : ∀ o : Option (List Property),
            (o.bind fun props => some (prop :: props)).isSome = o.isSome := by
          rintro (_ | props) <;> rfl
        rw [hcons, hrest]
        simp only
        omega

/-- The low byte is what `ReadUint16` returns. -/
theorem readUint16_tracked {s : BufferMQTT} (hlen : s.remLength ≠ 0) (h : s.index + 2 ≤ 1024) :
    s.readUint16 true =
      some ((s.bytes.getD (s.index + 1) (s.stale (s.index + 1))).toUInt16,
        { s with index := s.index + 2, remLength := s.remLength - 2 }) := by
  have hhigh : ∀ b : UInt8, UInt8.ofNat (b.toNat <<< 8) = 0 := fun b => by
    apply UInt8.toNat_inj.mp
    simp [Nat.shiftLeft_eq]
  rw [readUint16, consume, if_pos ⟨rfl, hlen⟩, next_of_lt (by simp only; omega)]
  simp only [Option.bind_eq_bind, Option.bind_some]
  rw [next_of_lt (by simp only; omega), Option.bind_some, hhigh]
  simp

/-- The first two bytes of the buffer. -/
theorem readHeader_eq {stale : ℕ → UInt8} {buf : Buffer 1024} {type len : UInt8}
    {rest : List UInt8} (h : buf.bytes = type :: len :: rest) :
    (new stale buf).readHeader =
      some (type, len.toNat, ⟨buf.bytes, stale, 2, len.toNat⟩) := by
  simp [readHeader, readControlPacketType, readUint8, readVarByte, consume, new, next, h]

end BufferMQTT

/-! ## The responses -/

/-- `ResponseMQTT::Type::E`. -/
def Type.NONE : UInt8 := 0x00
@[inherit_doc Type.NONE] def Type.CONNACK : UInt8 := 0x20
@[inherit_doc Type.NONE] def Type.PUBLISH : UInt8 := 0x30
@[inherit_doc Type.NONE] def Type.SUBACK : UInt8 := 0x90

end ResponseMQTT

open ResponseMQTT in
/-- `class ResponseMQTT`. -/
structure ResponseMQTT where
  isUnknown : Bool
  isValid : Bool
  allBytes : ℕ
  type : UInt8
  reasonCode : UInt8
  properties : List Property
deriving DecidableEq

/-- `class ResponseCONNECT`. -/
structure ResponseCONNECT extends ResponseMQTT where
  flags : UInt8

/-- `class ResponsePUBLISH`, with the two strings its constructor logs. -/
structure ResponsePUBLISH extends ResponseMQTT where
  nameTopic : List UInt8
  message : List UInt8

namespace ResponseMQTT

/-- The base constructor. -/
def empty : ResponseMQTT where
  isUnknown := false
  isValid := false
  allBytes := 0
  type := Type.NONE
  reasonCode := 0xFF
  properties := []

/-- The constructor `ResponceUNKNOWN`. -/
def newUNKNOWN (stale : ℕ → UInt8) (buffer : Buffer 1024) : Option ResponseMQTT := do
  let (type, remLength, _) ← (BufferMQTT.new stale buffer).readHeader
  pure { empty with type, allBytes := remLength + 2, isValid := true, isUnknown := true }

/-- The constructor `ResponseCONNECT`. -/
def newCONNECT (stale : ℕ → UInt8) (buffer : Buffer 1024) : Option ResponseCONNECT := do
  let (type, remLength, s) ← (BufferMQTT.new stale buffer).readHeader
  let allBytes := remLength + 2
  if buffer.size ≥ allBytes then
    let (flags, s) ← s.readUint8 true
    let (reasonCode, s) ← s.readUint8 true
    let properties ← s.readProperties 10
    pure { empty with type, allBytes, isValid := true, flags, reasonCode, properties }
  else
    pure { empty with type, allBytes, flags := 0 }

/-- The constructor `ResponsePUBLISH`. -/
def newPUBLISH (stale : ℕ → UInt8) (buffer : Buffer 1024) : Option ResponsePUBLISH := do
  let (type, remLength, s) ← (BufferMQTT.new stale buffer).readHeader
  let allBytes := remLength + 2
  if buffer.size ≥ allBytes then
    let (topicLength, s) ← s.readUint16 true
    let (nameTopic, s) ← s.readString 64 topicLength.toNat
    let (_lengthProp, s) ← s.readUint8 true
    let (message, _) ← s.readString 128 s.remLength
    pure { empty with type, allBytes, isValid := true, nameTopic, message }
  else
    pure { empty with type, allBytes, nameTopic := [], message := [] }

/-- A complete packet passes the test of the constructors. -/
theorem size_ge_of_complete {buffer : Buffer 1024} {type len : UInt8} {rest : List UInt8}
    (h : buffer.bytes = type :: len :: rest) (hfull : len.toNat ≤ rest.length) :
    buffer.size ≥ len.toNat + 2 := by
  rw [Buffer.size_eq, h, List.length_cons, List.length_cons]
  omega

/-- On a complete packet `ResponseCONNECT` fails exactly if the properties overrun their
array of ten; otherwise it is valid and as long as its two header bytes say. -/
theorem newCONNECT_spec (stale : ℕ → UInt8) {buffer : Buffer 1024} {type len : UInt8}
    {rest : List UInt8} (h : buffer.bytes = type :: len :: rest)
    (hfull : len.toNat ≤ rest.length) :
    (∀ r, newCONNECT stale buffer = some r →
      r.isValid ∧ r.allBytes = len.toNat + 2 ∧ r.type = type) ∧
    ((newCONNECT stale buffer).isSome ↔ len.toNat ≤ 22) := by
  have hsize := size_ge_of_complete h hfull
  have hbyte := len.toNat_lt
  rw [newCONNECT, BufferMQTT.readHeader_eq h]
  simp only [Option.bind_eq_bind, Option.bind_some, if_pos hsize, Option.pure_def]
  rw [BufferMQTT.readUint8_tracked (by simp) (by simp)]
  simp only [Option.bind_some]
  rw [BufferMQTT.readUint8_tracked (by simp) (by simp)]
  simp only [Option.bind_some]
  generalize hs : BufferMQTT.mk buffer.bytes stale (2 + 1 + 1) _ = s
  have hrem : s.remLength = max ((len.toNat : ℤ) - 2) 0 := by
    rw [← hs]
    simp only
    omega
  have hprops := @BufferMQTT.readProperties_isSome_iff 10 s
    (by rw [hrem]; simp) (by rw [← hs]; simp)
  constructor
  · intro r hr
    obtain ⟨props, -, hr⟩ := Option.bind_eq_some_iff.mp hr
    obtain rfl := Option.some.inj hr
    exact ⟨rfl, rfl, rfl⟩
  · cases hp : s.readProperties 10 with
    | none =>
        rw [hp] at hprops
        simp only [Option.isSome_none, Bool.false_eq_true, false_iff] at hprops
        simp only [Option.bind_none, Option.isSome_none, Bool.false_eq_true, false_iff]
        omega
    | some props =>
        rw [hp] at hprops
        simp only [Option.isSome_some, true_iff] at hprops
        simp only [Option.bind_some, Option.isSome_some, true_iff]
        omega

/-- On a complete packet `ResponsePUBLISH` is, if it does not fail, valid and as long as
its two header bytes say. -/
theorem newPUBLISH_eq_some {stale : ℕ → UInt8} {buffer : Buffer 1024} {type len : UInt8}
    {rest : List UInt8} (h : buffer.bytes = type :: len :: rest)
    (hfull : len.toNat ≤ rest.length) {r : ResponsePUBLISH}
    (hr : newPUBLISH stale buffer = some r) :
    r.isValid ∧ r.allBytes = len.toNat + 2 ∧ r.type = type := by
  have hsize := size_ge_of_complete h hfull
  rw [newPUBLISH, BufferMQTT.readHeader_eq h] at hr
  simp only [Option.bind_eq_bind, Option.bind_some, if_pos hsize, Option.pure_def,
    Option.bind_eq_some_iff] at hr
  obtain ⟨topic, -, name, -, prop, -, message, -, hr⟩ := hr
  obtain rfl := Option.some.inj hr
  exact ⟨rfl, rfl, rfl⟩

/-- **What `ResponsePUBLISH` reads**: behind the topic it takes one byte for the properties,
and everything behind that byte for the message. -/
theorem newPUBLISH_eq (stale : ℕ → UInt8) {buffer : Buffer 1024} {type len hi lo prop : UInt8}
    {topic message tail : List UInt8}
    (h : buffer.bytes = type :: len :: hi :: lo :: (topic ++ prop :: (message ++ tail)))
    (htopic : lo.toNat = topic.length) (hlen : len.toNat = topic.length + message.length + 3)
    (hroom : topic.length < 64) (hbyte : len.toNat < 128) :
    newPUBLISH stale buffer =
      some ⟨⟨false, true, len.toNat + 2, type, 0xFF, []⟩, topic, message⟩ := by
  have hbytes : buffer.bytes.length = topic.length + message.length + tail.length + 5 := by
    rw [h]
    simp only [List.length_cons, List.length_append]
    omega
  have hfull : buffer.bytes.length ≤ 1024 := buffer.size_le
  have hsize : buffer.size ≥ len.toNat + 2 := by
    rw [Buffer.size_eq, hbytes, hlen]
    omega
  have hlo : (buffer.bytes.getD 3 (stale 3)).toUInt16.toNat = topic.length := by
    rw [h, ← htopic]
    simp
  have hrem : max ((len.toNat : ℤ) - 2 - topic.length - 1) 0 = message.length := by omega
  rw [newPUBLISH, BufferMQTT.readHeader_eq h]
  simp only [Option.bind_eq_bind, Option.bind_some, if_pos hsize, Option.pure_def]
  rw [BufferMQTT.readUint16_tracked (by simp only; omega) (by simp)]
  simp only [Option.bind_some]
  -- the topic
  have hname := BufferMQTT.readBytes_append
    (s := ⟨buffer.bytes, stale, 4, len.toNat - 2 - topic.length⟩) (by rw [h]; rfl) hfull
  rw [BufferMQTT.readString]
  simp only [hlo, Int.toNat_natCast, Nat.reduceAdd]
  rw [if_pos hroom, hname]
  simp only [Option.bind_some]
  -- one byte, and the message
  have hdrop : buffer.bytes.drop (4 + topic.length + 1) = message ++ tail := by
    have hheader : buffer.bytes.drop (4 + topic.length + 1) =
        (topic ++ prop :: (message ++ tail)).drop (topic.length + 1) := by
      rw [h, Nat.add_assoc, ← List.drop_drop]
      rfl
    rw [hheader, ← List.drop_drop, List.drop_left]
    rfl
  have hread := BufferMQTT.readBytes_append
    (s := ⟨buffer.bytes, stale, 4 + topic.length + 1, (message.length : ℤ) - message.length⟩)
    hdrop hfull
  rw [BufferMQTT.readUint8_tracked (by simp only; omega) (by simp only; omega)]
  simp only [Option.bind_some, hrem]
  rw [BufferMQTT.readString]
  simp only [Int.toNat_natCast]
  rw [if_pos (by omega), hread]
  rfl

/-- A complete packet shorter than 128 that holds its topic makes `ResponsePUBLISH` fail
exactly if the topic does not fit its array of 64. -/
theorem newPUBLISH_isSome_iff (stale : ℕ → UInt8) {buffer : Buffer 1024}
    {type len hi lo : UInt8} {rest : List UInt8}
    (h : buffer.bytes = type :: len :: hi :: lo :: rest) (hfull : len.toNat ≤ rest.length + 2)
    (hholds : lo.toNat + 3 ≤ len.toNat) (hlen : len.toNat < 128) :
    (newPUBLISH stale buffer).isSome ↔ lo.toNat < 64 := by
  by_cases hroom : lo.toNat < 64
  · -- the topic, one byte, and the message, cut out of the rest
    have htopic : lo.toNat = (rest.take lo.toNat).length := by
      rw [List.length_take]
      omega
    obtain ⟨prop, more, hmore⟩ : ∃ prop more, rest.drop lo.toNat = prop :: more := by
      refine List.exists_cons_of_length_pos ?_
      rw [List.length_drop]
      omega
    have hlength : more.length + 1 = rest.length - lo.toNat := by
      rw [← List.length_drop, hmore, List.length_cons]
    have hsplit : rest = rest.take lo.toNat ++
        prop :: (more.take (len.toNat - 3 - lo.toNat) ++ more.drop (len.toNat - 3 - lo.toNat)) := by
      rw [List.take_append_drop, ← hmore, List.take_append_drop]
    rw [newPUBLISH_eq stale (hsplit ▸ h) htopic
      (by rw [← htopic, List.length_take]; omega) (by rwa [← htopic]) hlen]
    exact ⟨fun _ => hroom, fun _ => rfl⟩
  · have hsize := size_ge_of_complete h hfull
    have hlo : (buffer.bytes.getD 3 (stale 3)).toUInt16.toNat = lo.toNat := by simp [h]
    rw [newPUBLISH, BufferMQTT.readHeader_eq h]
    simp only [Option.bind_eq_bind, Option.bind_some, if_pos hsize, Option.pure_def]
    rw [BufferMQTT.readUint16_tracked (by simp only; omega) (by simp)]
    simp only [Option.bind_some]
    rw [BufferMQTT.readString]
    simp only [hlo, Int.toNat_natCast]
    rw [if_neg hroom]
    simpa using hroom

/-- `ResponseMQTT::Create`.  It returns the base class by value: what a derived class
adds is cut off. -/
def create (stale : ℕ → UInt8) (bytes : Buffer 1024) : Option ResponseMQTT :=
  if bytes.size < 2 then some empty
  else do
    let (type, remLength, _) ← (BufferMQTT.new stale bytes).readHeader
    let highNibble := type &&& 0xF0
    if bytes.size < remLength + 2 then pure empty
    else if highNibble = Type.CONNACK then
      (newCONNECT stale bytes).map ResponseCONNECT.toResponseMQTT
    else if highNibble = Type.PUBLISH then
      (newPUBLISH stale bytes).map ResponsePUBLISH.toResponseMQTT
    else if highNibble = Type.SUBACK then
      (newCONNECT stale bytes).map ResponseCONNECT.toResponseMQTT
    else newUNKNOWN stale bytes

/-! ## `Run` -/

/-- What a response calls back. -/
inductive Callback
  | mqttUpdate (answer : List UInt8)
  | modemReset
deriving DecidableEq

/-- A successful `Run`: the value written to `*size`, and the call it made. -/
structure Processed where
  size : ℕ
  callback : Option Callback
deriving DecidableEq

/-- `ResponseCONNECT::Run`. -/
def runCONNECT (r : ResponseMQTT) : Option Processed :=
  if r.isValid then
    some ⟨r.allBytes,
      some (if r.reasonCode = 0x00 then .mqttUpdate (ascii "MQTT OK") else .modemReset)⟩
  else none

/-- `ResponseSUBSCRIBE::Run`. -/
def runSUBSCRIBE (r : ResponseMQTT) : Option Processed :=
  if r.isValid then
    some ⟨r.allBytes, some (.mqttUpdate (ascii (if r.reasonCode < 0x80 then "SUBS OK" else "FALSE")))⟩
  else none

/-- `ResponsePUBLISH::Run`. -/
def runPUBLISH (r : ResponseMQTT) : Option Processed :=
  if r.isValid then some ⟨r.allBytes, some (.mqttUpdate (ascii "PUBLISH OK"))⟩ else none

/-- `ResponceUNKNOWN::Run`. -/
def runUNKNOWN (r : ResponseMQTT) : Option Processed :=
  if r.isValid then some ⟨r.allBytes, none⟩ else none

/-- `ResponseMQTT::Run`; `none` is the answer `false`. -/
def run (r : ResponseMQTT) : Option Processed :=
  let highNibble := r.type &&& 0xF0
  if highNibble = Type.CONNACK then r.runCONNECT
  else if highNibble = Type.SUBACK then r.runSUBSCRIBE
  else if highNibble = Type.PUBLISH then r.runPUBLISH
  else if r.isUnknown then r.runUNKNOWN
  else none

/-! ### `Create` followed by `Run` -/

/-- A buffer that does not hold a whole packet yet gives a response that does nothing. -/
theorem create_of_incomplete {stale : ℕ → UInt8} {bytes : Buffer 1024}
    (h : ∀ type len rest, bytes.bytes = type :: len :: rest → rest.length < len.toNat) :
    create stale bytes = some empty := by
  rw [create]
  by_cases hshort : bytes.size < 2
  · rw [if_pos hshort]
  · obtain ⟨type, len, rest, hbytes⟩ : ∃ type len rest, bytes.bytes = type :: len :: rest := by
      rcases hb : bytes.bytes with _ | ⟨type, _ | ⟨len, rest⟩⟩
      · simp [hb] at hshort
      · simp [hb] at hshort
      · exact ⟨type, len, rest, rfl⟩
    have hless : bytes.size < len.toNat + 2 := by
      have := h type len rest hbytes
      simp [hbytes]
      omega
    rw [if_neg hshort, BufferMQTT.readHeader_eq hbytes]
    simp only [Option.bind_eq_bind, Option.bind_some, if_pos hless, Option.pure_def]

/-- A whole packet goes to the constructor its type names. -/
theorem create_of_complete {stale : ℕ → UInt8} {bytes : Buffer 1024} {type len : UInt8}
    {rest : List UInt8} (h : bytes.bytes = type :: len :: rest)
    (hfull : len.toNat ≤ rest.length) :
    create stale bytes =
      if type &&& 0xF0 = Type.CONNACK then
        (newCONNECT stale bytes).map ResponseCONNECT.toResponseMQTT
      else if type &&& 0xF0 = Type.PUBLISH then
        (newPUBLISH stale bytes).map ResponsePUBLISH.toResponseMQTT
      else if type &&& 0xF0 = Type.SUBACK then
        (newCONNECT stale bytes).map ResponseCONNECT.toResponseMQTT
      else newUNKNOWN stale bytes := by
  have hshort : ¬ bytes.size < 2 := by simp [h]
  have hless : ¬ bytes.size < len.toNat + 2 := by simp [h]; omega
  rw [create, if_neg hshort, BufferMQTT.readHeader_eq h]
  simp only [Option.bind_eq_bind, Option.bind_some, if_neg hless]

theorem newUNKNOWN_eq {stale : ℕ → UInt8} {buffer : Buffer 1024} {type len : UInt8}
    {rest : List UInt8} (h : buffer.bytes = type :: len :: rest) :
    newUNKNOWN stale buffer =
      some ⟨true, true, len.toNat + 2, type, 0xFF, []⟩ := by
  rw [newUNKNOWN, BufferMQTT.readHeader_eq h]
  rfl

/-- A valid response of a known type, and every valid unknown one, is removed with its
length. -/
theorem run_of_isValid {r : ResponseMQTT} (hvalid : r.isValid)
    (htype : r.isUnknown ∨ r.type &&& 0xF0 = Type.CONNACK ∨ r.type &&& 0xF0 = Type.PUBLISH ∨
      r.type &&& 0xF0 = Type.SUBACK) :
    ∃ callback, r.run = some ⟨r.allBytes, callback⟩ := by
  rw [run]
  simp only [runCONNECT, runSUBSCRIBE, runPUBLISH, runUNKNOWN, hvalid, if_true]
  by_cases hconn : r.type &&& 0xF0 = Type.CONNACK
  · exact ⟨_, by rw [if_pos hconn]⟩
  by_cases hsub : r.type &&& 0xF0 = Type.SUBACK
  · exact ⟨_, by rw [if_neg hconn, if_pos hsub]⟩
  by_cases hpub : r.type &&& 0xF0 = Type.PUBLISH
  · exact ⟨_, by rw [if_neg hconn, if_neg hsub, if_pos hpub]⟩
  · have hunknown : r.isUnknown := by
      rcases htype with h | h | h | h
      · exact h
      · exact absurd h hconn
      · exact absurd h hpub
      · exact absurd h hsub
    exact ⟨none, by rw [if_neg hconn, if_neg hsub, if_neg hpub, if_pos hunknown]⟩

/-- **A whole packet is run with the length its second byte says**, whatever its type,
unless a constructor failed. -/
theorem run_create_of_complete {stale : ℕ → UInt8} {bytes : Buffer 1024} {type len : UInt8}
    {rest : List UInt8} (h : bytes.bytes = type :: len :: rest)
    (hfull : len.toNat ≤ rest.length) {r : ResponseMQTT} (hr : create stale bytes = some r) :
    ∃ callback, r.run = some ⟨len.toNat + 2, callback⟩ := by
  have hconnect : ∀ c, newCONNECT stale bytes = some c →
      c.isValid ∧ c.allBytes = len.toNat + 2 ∧ c.type = type := (newCONNECT_spec stale h hfull).1
  rw [create_of_complete h hfull] at hr
  split at hr
  · rename_i hconn
    obtain ⟨c, hc, rfl⟩ := Option.map_eq_some_iff.mp hr
    obtain ⟨hvalid, hall, rfl⟩ := hconnect c hc
    rw [← hall]
    exact run_of_isValid hvalid (Or.inr (Or.inl hconn))
  · split at hr
    · rename_i hpub
      obtain ⟨c, hc, rfl⟩ := Option.map_eq_some_iff.mp hr
      obtain ⟨hvalid, hall, rfl⟩ := newPUBLISH_eq_some h hfull hc
      rw [← hall]
      exact run_of_isValid hvalid (Or.inr (Or.inr (Or.inl hpub)))
    · split at hr
      · rename_i hsub
        obtain ⟨c, hc, rfl⟩ := Option.map_eq_some_iff.mp hr
        obtain ⟨hvalid, hall, rfl⟩ := hconnect c hc
        rw [← hall]
        exact run_of_isValid hvalid (Or.inr (Or.inr (Or.inr hsub)))
      · rw [newUNKNOWN_eq h] at hr
        obtain rfl := Option.some.inj hr
        exact run_of_isValid rfl (Or.inl rfl)

end ResponseMQTT

end USKD
