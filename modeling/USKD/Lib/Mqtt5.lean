import Mathlib.Data.List.Basic
import Mathlib.Algebra.Order.Group.Nat

/-!
# MQTT 5 packets

A parser for the three packets a client begins a conversation with: CONNECT, SUBSCRIBE and
PUBLISH.  It reads a packet as a whole: the Remaining Length has to be the number of bytes
behind it, and every length in the packet the length of what it stands before.

What is checked is the layout.  Whether a string is UTF-8, a topic may be empty or a
property may occur in a packet is not looked at, and a length may have more bytes than it
needs, so that a packet this parser refuses is refused by every other.
-/

namespace Mqtt5

/-- What a reader returns: a value, and the bytes behind it. -/
abbrev Reader (α : Type) := List UInt8 → Option (α × List UInt8)

/-! ## Values -/

def byte : Reader UInt8
  | b :: rest => some (b, rest)
  | [] => none

def uint16 : Reader ℕ
  | b1 :: b0 :: rest => some (256 * b1.toNat + b0.toNat, rest)
  | _ => none

def uint32 : Reader ℕ
  | b3 :: b2 :: b1 :: b0 :: rest =>
      some (256 ^ 3 * b3.toNat + 256 ^ 2 * b2.toNat + 256 * b1.toNat + b0.toNat, rest)
  | _ => none

/-- A variable byte integer of at most `n` bytes. -/
def varByte : ℕ → Reader ℕ
  | 0, _ => none
  | _, [] => none
  | n + 1, b :: rest =>
      if b.toNat < 128 then some (b.toNat, rest)
      else (varByte n rest).map fun r => (b.toNat - 128 + 128 * r.1, r.2)

/-- The first `n` bytes. -/
def take (n : ℕ) : Reader (List UInt8) := fun bytes =>
  if n ≤ bytes.length then some (bytes.take n, bytes.drop n) else none

/-- A string, or binary data, behind its length. -/
def field : Reader (List UInt8) := fun bytes => (uint16 bytes).bind fun r => take r.1 r.2

/-! ## Properties -/

inductive Value
  | int (n : ℕ)
  | string (s : List UInt8)
  | pair (name value : List UInt8)
deriving DecidableEq

structure Property where
  id : ℕ
  value : Value
deriving DecidableEq

/-- The value of the property `id`. -/
def value (id : ℕ) : Reader Value := fun bytes =>
  if id ∈ [1, 23, 25, 36, 37, 40, 41, 42] then (byte bytes).map fun r => (.int r.1.toNat, r.2)
  else if id ∈ [2, 17, 24, 39] then (uint32 bytes).map fun r => (.int r.1, r.2)
  else if id ∈ [19, 33, 34, 35] then (uint16 bytes).map fun r => (.int r.1, r.2)
  else if id = 11 then (varByte 4 bytes).map fun r => (.int r.1, r.2)
  else if id ∈ [3, 8, 9, 18, 21, 22, 26, 28, 31] then
    (field bytes).map fun r => (.string r.1, r.2)
  else if id = 38 then
    (field bytes).bind fun name => (field name.2).map fun r => (.pair name.1 r.1, r.2)
  else none

/-- The properties of a section, at most `n` of them. -/
def propertyList : ℕ → List UInt8 → Option (List Property)
  | _, [] => some []
  | 0, _ => none
  | n + 1, id :: rest =>
      (value id.toNat rest).bind fun r =>
        (propertyList n r.2).map fun properties => ⟨id.toNat, r.1⟩ :: properties

/-- A property section behind its length. -/
def properties : Reader (List Property) := fun bytes =>
  (varByte 4 bytes).bind fun len =>
    (take len.1 len.2).bind fun section_ =>
      (propertyList len.1 section_.1).map fun properties => (properties, section_.2)

/-! ## Packets -/

structure Will where
  properties : List Property
  topic : List UInt8
  payload : List UInt8
deriving DecidableEq

inductive Packet
  | connect (flags : UInt8) (keepAlive : ℕ) (properties : List Property) (clientId : List UInt8)
      (will : Option Will) (userName password : Option (List UInt8))
  | subscribe (packetId : ℕ) (properties : List Property) (filters : List (List UInt8 × UInt8))
  | publish (flags : ℕ) (topic : List UInt8) (packetId : Option ℕ) (properties : List Property)
      (payload : List UInt8)
deriving DecidableEq

/-- A part that is there if `present`. -/
def optional {α : Type} (present : Bool) (read : Reader α) : Reader (Option α) := fun bytes =>
  if present then (read bytes).map fun r => (some r.1, r.2) else some (none, bytes)

def will : Reader Will := fun bytes =>
  (properties bytes).bind fun props =>
    (field props.2).bind fun topic =>
      (field topic.2).map fun payload => (⟨props.1, topic.1, payload.1⟩, payload.2)

/-- CONNECT behind the fixed header: protocol name and version, flags, keep alive, the
properties, and the payload the flags announce. -/
def connect (body : List UInt8) : Option Packet := do
  let (protocol, rest) ← field body
  let (version, rest) ← byte rest
  let (flags, rest) ← byte rest
  let (keepAlive, rest) ← uint16 rest
  let (props, rest) ← properties rest
  let (clientId, rest) ← field rest
  let (will, rest) ← optional (flags &&& 0x04 ≠ 0) will rest
  let (userName, rest) ← optional (flags &&& 0x80 ≠ 0) field rest
  let (password, rest) ← optional (flags &&& 0x40 ≠ 0) field rest
  if protocol = [0x4D, 0x51, 0x54, 0x54] ∧ version = 5 ∧ flags &&& 0x01 = 0 ∧ rest = [] then
    some (.connect flags keepAlive props clientId will userName password)
  else none

/-- The topic filters of SUBSCRIBE, at most `n` of them, each with its options. -/
def filters : ℕ → List UInt8 → Option (List (List UInt8 × UInt8))
  | 0, bytes => if bytes = [] then some [] else none
  | n + 1, bytes =>
      if bytes = [] then some []
      else (field bytes).bind fun filter =>
        (byte filter.2).bind fun options =>
          (filters n options.2).map fun rest => (filter.1, options.1) :: rest

def subscribe (body : List UInt8) : Option Packet := do
  let (packetId, rest) ← uint16 body
  let (props, rest) ← properties rest
  let fs ← filters rest.length rest
  if fs = [] then none else some (.subscribe packetId props fs)

/-- PUBLISH, with the lower half of its first byte: DUP, two bits of QoS, RETAIN. -/
def publish (flags : ℕ) (body : List UInt8) : Option Packet := do
  let (topic, rest) ← field body
  let (packetId, rest) ← optional (flags / 2 % 4 ≠ 0) uint16 rest
  let (props, rest) ← properties rest
  if flags / 2 % 4 = 3 then none else some (.publish flags topic packetId props rest)

/-- What stands behind the Remaining Length. -/
def body (first : UInt8) (bytes : List UInt8) : Option Packet :=
  if first.toNat = 0x10 then connect bytes
  else if first.toNat = 0x82 then subscribe bytes
  else if first.toNat / 16 = 3 then publish (first.toNat % 16) bytes
  else none

/-- **A whole packet.** -/
def parse : List UInt8 → Option Packet
  | [] => none
  | first :: rest =>
      (varByte 4 rest).bind fun len => if len.2.length = len.1 then body first len.2 else none

/-! ## Reading what was written -/

variable {first b : UInt8} {bytes s rest : List UInt8}

theorem varByte_of_lt (n : ℕ) (h : b.toNat < 128) (rest : List UInt8) :
    varByte (n + 1) (b :: rest) = some (b.toNat, rest) := by
  rw [varByte, if_pos h]

theorem optional_true {α : Type} {read : Reader α} {r : α × List UInt8}
    (h : read bytes = some r) : optional true read bytes = some (some r.1, r.2) := by
  rw [optional, if_pos rfl, h, Option.map_some]

theorem optional_false {α : Type} (read : Reader α) (bytes : List UInt8) :
    optional false read bytes = some (none, bytes) :=
  if_neg Bool.false_ne_true

theorem filters_nil (n : ℕ) : filters n [] = some [] := by
  cases n <;> rfl

theorem take_append {n : ℕ} (h : n = s.length) (rest : List UInt8) :
    take n (s ++ rest) = some (s, rest) := by
  subst h
  unfold take
  rw [if_pos (by rw [List.length_append]; omega), List.take_left, List.drop_left]

/-- A string shorter than 256, behind its length. -/
theorem field_append (h : b.toNat = s.length) (rest : List UInt8) :
    field (0 :: b :: s ++ rest) = some (s, rest) := by
  unfold field
  rw [List.cons_append, List.cons_append, uint16, Option.bind_some]
  refine take_append ?_ rest
  rw [← h]
  exact Nat.zero_add _

/-- A section with one property. -/
theorem propertyList_singleton {id : UInt8} {v : Value} (h : value id.toNat rest = some (v, []))
    (n : ℕ) : propertyList (n + 1) (id :: rest) = some [⟨id.toNat, v⟩] := by
  have hnil : propertyList n [] = some [] := by
    cases n <;> rfl
  rw [propertyList, h, Option.bind_some, hnil]
  rfl

/-- A property section shorter than 128, behind its length. -/
theorem properties_append {props : List Property} (hlength : b.toNat = s.length)
    (h : s.length < 128) (hs : propertyList s.length s = some props) (rest : List UInt8) :
    properties (b :: s ++ rest) = some (props, rest) := by
  have hlt : b.toNat < 128 := by rwa [hlength]
  unfold properties
  rw [List.cons_append, varByte_of_lt 3 hlt, Option.bind_some, take_append hlength,
    Option.bind_some, hlength, hs]
  rfl

/-- **One byte of Remaining Length** is enough below 128. -/
theorem parse_of_lt (hlength : b.toNat = bytes.length) (h : bytes.length < 128) :
    parse (first :: b :: bytes) = body first bytes := by
  rw [← hlength] at h
  rw [parse, varByte_of_lt 3 h, Option.bind_some, if_pos hlength.symm]

/-- From 128 on one byte is never enough, if a small byte follows: the length is read as
another one, whatever `b` is. -/
theorem parse_of_ge {c : UInt8} (hc : c.toNat = 0) (h : 127 ≤ bytes.length)
    (hb : b.toNat ≤ bytes.length + 1) : parse (first :: b :: c :: bytes) = none := by
  rw [parse]
  by_cases hsmall : b.toNat < 128
  · rw [varByte_of_lt 3 hsmall, Option.bind_some, if_neg]
    rw [List.length_cons]
    omega
  · have hlt := b.toNat_lt
    rw [varByte, if_neg hsmall, varByte_of_lt 2 (by omega), Option.map_some, Option.bind_some,
      if_neg]
    show bytes.length ≠ b.toNat - 128 + 128 * c.toNat
    omega

end Mqtt5
