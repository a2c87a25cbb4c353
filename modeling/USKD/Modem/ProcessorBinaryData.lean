import USKD.Modem.MQTT.ResponseMQTT

/-!
# `PBD`: the queue of MQTT bytes

`Modem::InData` hands every payload byte of a `+IPD` segment to `PBD::AppendByte`, which
stores it in a buffer of 1024 and looks whether a packet is complete.

An input carries, next to the byte, what the stack holds where the call builds its copy
of the buffer (`ResponseMQTT.BufferMQTT`).  `none` is a call that writes past one of the
arrays of the response constructors.
-/

namespace USKD.PBD

open ResponseMQTT

/-- `PBD::Process`. -/
def process (stale : ℕ → UInt8) (buffer : Buffer 1024) :
    Option (Option Processed × Buffer 1024) := do
  let response ← ResponseMQTT.create stale buffer
  match response.run with
  | some processed => do
      let buffer ← buffer.removeFirst processed.size
      pure (some processed, buffer)
  | none => pure (none, buffer)

/-- A byte, and the stack under the call that receives it. -/
structure Input where
  byte : UInt8
  stale : ℕ → UInt8

/-- `PBD::AppendByte`. -/
def appendByte (buffer : Buffer 1024) (input : Input) :
    Option (Option Processed × Buffer 1024) :=
  let buffer := (buffer.push input.byte).1
  if buffer.size ≠ 0 then process input.stale buffer else some (none, buffer)

theorem process_of_incomplete {stale : ℕ → UInt8} {buffer : Buffer 1024}
    (h : ∀ type len rest, buffer.bytes = type :: len :: rest → rest.length < len.toNat) :
    process stale buffer = some (none, buffer) := by
  rw [process, create_of_incomplete h]
  rfl

/-- **A complete packet is run**, and removed. -/
theorem process_of_run {stale : ℕ → UInt8} {buffer : Buffer 1024} {type len : UInt8}
    {rest : List UInt8} (h : buffer.bytes = type :: len :: rest)
    (hfull : len.toNat ≤ rest.length) {r : ResponseMQTT}
    (hr : create stale buffer = some r) :
    ∃ buffer', process stale buffer = some (r.run, buffer') ∧
      buffer'.bytes = rest.drop len.toNat := by
  obtain ⟨callback, hrun⟩ := run_create_of_complete h hfull hr
  have hle : len.toNat + 2 ≤ buffer.bytes.length := by simp [h]; omega
  refine ⟨⟨buffer.bytes.drop (len.toNat + 2), ?_⟩, ?_, ?_⟩
  · have := buffer.size_le
    simp only [List.length_drop]
    omega
  · rw [process, hr]
    simp only [Option.bind_eq_bind, Option.bind_some, hrun, Buffer.removeFirst, if_pos hle,
      Option.pure_def]
  · simp [h]

/-- A complete packet is removed with the length its second byte says. -/
theorem process_of_complete {stale : ℕ → UInt8} {buffer : Buffer 1024} {type len : UInt8}
    {rest : List UInt8} (h : buffer.bytes = type :: len :: rest)
    (hfull : len.toNat ≤ rest.length) {r : ResponseMQTT}
    (hr : create stale buffer = some r) :
    ∃ callback buffer', process stale buffer = some (some ⟨len.toNat + 2, callback⟩, buffer') ∧
      buffer'.bytes = rest.drop len.toNat := by
  obtain ⟨callback, hrun⟩ := run_create_of_complete h hfull hr
  obtain ⟨buffer', hprocess, hrest⟩ := process_of_run h hfull hr
  exact ⟨callback, buffer', hrun ▸ hprocess, hrest⟩

theorem process_of_create_eq_none {stale : ℕ → UInt8} {buffer : Buffer 1024}
    (hr : create stale buffer = none) : process stale buffer = none := by
  rw [process, hr]
  rfl

/-- With room in the buffer, `AppendByte` processes the old contents and the byte. -/
theorem appendByte_of_lt {buffer : Buffer 1024} (input : Input)
    (h : buffer.bytes.length < 1024) :
    appendByte buffer input = process input.stale (buffer.push input.byte).1 := by
  have hne : (buffer.push input.byte).1.size ≠ 0 := by simp [Buffer.push_of_lt h]
  rw [appendByte]
  simp only [if_pos hne]

/-! ## What stays in the buffer -/

/-- The buffer holds fewer bytes than the second one asks for. -/
def Pending (buffer : Buffer 1024) : Prop :=
  ∀ type len rest, buffer.bytes = type :: len :: rest → rest.length < len.toNat

theorem pending_clear : Pending Buffer.clear := by
  rintro type len rest h
  simp at h

theorem Pending.length_lt {buffer : Buffer 1024} (h : Pending buffer) :
    buffer.bytes.length < 1024 := by
  rcases hb : buffer.bytes with _ | ⟨type, _ | ⟨len, rest⟩⟩
  · simp
  · simp
  · have hrest := h type len rest hb
    have hbyte := len.toNat_lt
    simp only [List.length_cons]
    omega

/-- A byte on top of a pending buffer completes at most what the second byte asks for. -/
theorem Pending.push {buffer : Buffer 1024} (h : Pending buffer) {input : Input}
    {type len : UInt8} {rest : List UInt8}
    (hpush : (buffer.push input.byte).1.bytes = type :: len :: rest) :
    rest.length ≤ len.toNat := by
  rw [Buffer.push_of_lt h.length_lt] at hpush
  rcases hb : buffer.bytes with _ | ⟨t, _ | ⟨l, r⟩⟩
  · simp [hb] at hpush
  · obtain ⟨-, -, rfl⟩ : t = type ∧ input.byte = len ∧ [] = rest := by simpa [hb] using hpush
    simp
  · obtain ⟨rfl, rfl, rfl⟩ : t = type ∧ l = len ∧ r ++ [input.byte] = rest := by
      simpa [hb] using hpush
    have := h t l r hb
    simp
    omega

/-- **What one byte does to a pending buffer**: it is stored, or it is the last byte of a
packet that fills the buffer, which is then empty. -/
theorem Pending.appendByte_cases {buffer buffer' : Buffer 1024} (h : Pending buffer) {input : Input}
    {processed : Option Processed}
    (hstep : PBD.appendByte buffer input = some (processed, buffer')) :
    (processed = none ∧ Pending buffer' ∧ buffer'.bytes = buffer.bytes ++ [input.byte]) ∨
      ∃ type len rest callback, buffer.bytes ++ [input.byte] = type :: len :: rest ∧
        rest.length = len.toNat ∧ processed = some ⟨len.toNat + 2, callback⟩ ∧
          buffer'.bytes = [] := by
  have hpushed : (buffer.push input.byte).1.bytes = buffer.bytes ++ [input.byte] :=
    Buffer.push_of_lt h.length_lt
  rw [appendByte_of_lt input h.length_lt] at hstep
  by_cases hmore : Pending (buffer.push input.byte).1
  · rw [process_of_incomplete hmore] at hstep
    obtain ⟨rfl, rfl⟩ := Prod.mk.inj (Option.some.inj hstep)
    exact Or.inl ⟨rfl, hmore, hpushed⟩
  -- the byte completes a packet that ends with it
  · simp only [Pending, not_forall, not_lt] at hmore
    obtain ⟨type, len, rest, hbytes, hfull⟩ := hmore
    have hexact : rest.length = len.toNat := Nat.le_antisymm (h.push hbytes) hfull
    cases hcreate : create input.stale (buffer.push input.byte).1 with
    | none => rw [process_of_create_eq_none hcreate] at hstep; exact absurd hstep (by simp)
    | some r =>
        obtain ⟨callback, behind, hprocess, hrest⟩ := process_of_complete hbytes hfull hcreate
        rw [hprocess] at hstep
        obtain ⟨rfl, rfl⟩ := Prod.mk.inj (Option.some.inj hstep)
        exact Or.inr ⟨type, len, rest, callback, hpushed ▸ hbytes, hexact, rfl,
          by rw [hrest, ← hexact, List.drop_length]⟩

/-- **`AppendByte` leaves a pending buffer.** -/
theorem Pending.appendByte {buffer buffer' : Buffer 1024} (h : Pending buffer) {input : Input}
    {processed : Option Processed}
    (hstep : PBD.appendByte buffer input = some (processed, buffer')) : Pending buffer' := by
  rcases h.appendByte_cases hstep with ⟨-, hpending, -⟩ | ⟨-, -, -, -, -, -, -, hempty⟩
  · exact hpending
  · rintro t l r heq
    rw [hempty] at heq
    exact absurd heq (by simp)

end USKD.PBD
