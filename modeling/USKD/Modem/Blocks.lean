import USKD.Modem.ProcessorBinaryData
import USKD.Lib.Feed

/-!
# The stream of the queue, cut into blocks

For `AppendByte` a stream is a sequence of blocks, whatever the server meant by it: a type, a
length in one byte, and as many bytes.  `blocks` cuts any stream so, and what remains asks for
more than has come.

* A call that succeeds removes the block that its byte completes, and nothing else
  (`feed_blocks`).
* A call fails only where a constructor writes behind one of its arrays, and whether it does is
  to be seen from the block (`Block.Runs`).

So the queue keeps up with a stream exactly if all its blocks run (`keepsUp_iff`).
-/

namespace USKD

namespace ResponseMQTT

variable {stale : ℕ → UInt8} {buffer : Buffer 1024} {type len : UInt8} {rest : List UInt8}

/-- Inside the array every string is read, also behind the copied bytes. -/
theorem BufferMQTT.readBytes_of_le {n : ℕ} {s : BufferMQTT} (h : s.index + n ≤ 1024) :
    ∃ bs, readBytes n s = some (bs, { s with index := s.index + n }) := by
  induction n generalizing s with
  | zero => exact ⟨[], rfl⟩
  | succ n ih =>
      have hnext := next_of_lt (show s.index < 1024 by omega)
      obtain ⟨bs, hbs⟩ := @ih { s with index := s.index + 1 } (by simp only; omega)
      have hindex : s.index + 1 + n = s.index + (n + 1) := by omega
      refine ⟨s.bytes.getD s.index (s.stale s.index) :: bs, ?_⟩
      rw [readBytes, hnext]
      simp only [Option.bind_eq_bind, Option.bind_some, hbs, Option.pure_def, hindex]

theorem BufferMQTT.readString_of_lt {room : ℕ} {sz : ℤ} {s : BufferMQTT} (hroom : sz.toNat < room)
    (h : s.index + sz.toNat ≤ 1024) :
    ∃ bs, s.readString room sz =
      some (bs, { s with index := s.index + sz.toNat, remLength := s.remLength - sz }) := by
  obtain ⟨bs, hbs⟩ := @readBytes_of_le sz.toNat { s with remLength := s.remLength - sz } h
  refine ⟨bs, ?_⟩
  rw [readString, if_pos hroom, hbs]

theorem BufferMQTT.readString_of_not_lt {room : ℕ} {sz : ℤ} {s : BufferMQTT}
    (hroom : ¬ sz.toNat < room) : s.readString room sz = none :=
  if_neg hroom

/-- `ReadUint8` with any length that is left, be it negative. -/
theorem BufferMQTT.readUint8_of_lt {s : BufferMQTT} (h : s.index < 1024) :
    s.readUint8 true =
      some (s.bytes.getD s.index (s.stale s.index),
        { s with
          index := s.index + 1
          remLength := if s.remLength = 0 then 0 else s.remLength - 1 }) := by
  rw [readUint8, consume]
  by_cases hzero : s.remLength = 0
  · rw [if_neg (by simp [hzero]), next_of_lt h, if_pos hzero, ← hzero]
  · rw [if_pos ⟨rfl, hzero⟩, next_of_lt (by simpa using h), if_neg hzero]

/-- `ReadUint16` with no length left. -/
theorem BufferMQTT.readUint16_zero {s : BufferMQTT} (hzero : s.remLength = 0)
    (h : s.index + 2 ≤ 1024) :
    s.readUint16 true =
      some ((s.bytes.getD (s.index + 1) (s.stale (s.index + 1))).toUInt16,
        { s with index := s.index + 2 }) := by
  have hhigh : ∀ b : UInt8, UInt8.ofNat (b.toNat <<< 8) = 0 := fun b => by
    apply UInt8.toNat_inj.mp
    simp [Nat.shiftLeft_eq]
  rw [readUint16, consume, if_neg (by simp [hzero]), next_of_lt (by omega)]
  simp only [Option.bind_eq_bind, Option.bind_some]
  rw [next_of_lt (by simp only; omega), Option.bind_some, hhigh]
  simp

/-- A PUBLISH that is too short for the length of its topic takes it from the stack. -/
theorem newPUBLISH_of_short (stale : ℕ → UInt8) (h : buffer.bytes = type :: len :: rest)
    (hfull : rest.length = len.toNat) (hlen : len.toNat < 2) (hstale : stale 3 = 0xFF) :
    newPUBLISH stale buffer = none := by
  have hsize := size_ge_of_complete h hfull.ge
  have hlo : buffer.bytes.getD 3 (stale 3) = 0xFF := by
    rw [List.getD_eq_default, hstale]
    rw [h]
    simp only [List.length_cons]
    omega
  have hover : ¬ ((0xFF : UInt8).toUInt16.toNat : ℤ).toNat < 64 := by decide
  rw [newPUBLISH, BufferMQTT.readHeader_eq h]
  simp only [Option.bind_eq_bind, Option.bind_some, if_pos hsize, Option.pure_def]
  by_cases hzero : (len.toNat : ℤ) = 0
  · rw [BufferMQTT.readUint16_zero hzero (by simp)]
    simp only [Option.bind_some, hlo]
    rw [BufferMQTT.readString_of_not_lt hover]
    rfl
  · rw [BufferMQTT.readUint16_tracked hzero (by simp)]
    simp only [Option.bind_some, hlo]
    rw [BufferMQTT.readString_of_not_lt hover]
    rfl

/-- **Both strings of a PUBLISH fit their arrays**: the topic, and what is left for the message
behind it and the byte of the properties. -/
theorem newPUBLISH_isSome {hi lo : UInt8}
    (h : buffer.bytes = type :: len :: hi :: lo :: rest) (hfull : len.toNat ≤ rest.length + 2)
    (hlen : 2 ≤ len.toNat) :
    (newPUBLISH stale buffer).isSome ↔ lo.toNat ≤ 63 ∧ len.toNat ≤ lo.toNat + 130 := by
  have hsize := size_ge_of_complete h hfull
  have hlo : (buffer.bytes.getD 3 (stale 3)).toUInt16.toNat = lo.toNat := by simp [h]
  rw [newPUBLISH, BufferMQTT.readHeader_eq h]
  simp only [Option.bind_eq_bind, Option.bind_some, if_pos hsize, Option.pure_def]
  rw [BufferMQTT.readUint16_tracked (by simp only; omega) (by simp)]
  simp only [Option.bind_some, hlo]
  by_cases htopic : lo.toNat < 64
  · obtain ⟨name, hname⟩ := @BufferMQTT.readString_of_lt 64 lo.toNat
      ⟨buffer.bytes, stale, 2 + 2, (len.toNat : ℤ) - 2⟩ htopic (by simp only; omega)
    rw [hname]
    simp only [Option.bind_some, Int.toNat_natCast]
    rw [BufferMQTT.readUint8_of_lt (by simp only; omega)]
    simp only [Option.bind_some]
    generalize hleft : (if (len.toNat : ℤ) - 2 - lo.toNat = 0 then (0 : ℤ)
      else (len.toNat : ℤ) - 2 - lo.toNat - 1) = left
    have hbound : left.toNat < 128 ↔ len.toNat ≤ lo.toNat + 130 := by
      split at hleft <;> omega
    by_cases hmessage : left.toNat < 128
    · obtain ⟨message, hread⟩ := @BufferMQTT.readString_of_lt 128 left
        ⟨buffer.bytes, stale, 2 + 2 + lo.toNat + 1, left⟩ hmessage (by simp only; omega)
      rw [hread]
      simp only [Option.bind_some, Option.isSome_some, true_iff]
      exact ⟨Nat.lt_succ_iff.mp htopic, hbound.mp hmessage⟩
    · rw [BufferMQTT.readString_of_not_lt hmessage]
      simp only [Option.bind_none, Option.isSome_none, Bool.false_eq_true, false_iff]
      exact fun hfits => hmessage (hbound.mpr hfits.2)
  · rw [BufferMQTT.readString_of_not_lt (by simpa using htopic)]
    simp only [Option.bind_none, Option.isSome_none, Bool.false_eq_true, false_iff]
    exact fun hfits => htopic (Nat.lt_succ_iff.mpr hfits.1)

end ResponseMQTT

namespace PBD

open ResponseMQTT Transducer

/-! ## Blocks -/

/-- A block of the stream. -/
structure Block where
  type : UInt8
  len : UInt8
  body : List UInt8
deriving DecidableEq

namespace Block

/-- The block as it stands in the stream. -/
def bytes (b : Block) : List UInt8 := b.type :: b.len :: b.body

/-- The length that `ReadUint16` takes for the topic: the second byte of the body. -/
def topic (b : Block) : ℕ := (b.body.getD 1 0).toNat

/-- A block with the length of a topic. -/
theorem body_of_long (b : Block) (hlen : b.body.length = b.len.toNat) (hlong : 2 ≤ b.len.toNat) :
    ∃ hi lo rest, b.body = hi :: lo :: rest ∧ b.topic = lo.toNat := by
  match hb : b.body with
  | [] | [_] =>
      rw [hb] at hlen
      simp only [List.length_nil, List.length_singleton] at hlen
      omega
  | hi :: lo :: rest =>
      refine ⟨hi, lo, rest, rfl, ?_⟩
      rw [topic, hb]
      rfl

/-- **The constructor of the block stays in its arrays**: ten properties of two bytes, a topic of
at most 63 and a message of at most 127 bytes. -/
def Runs (b : Block) : Prop :=
  (b.type &&& 0xF0 = Type.CONNACK ∨ b.type &&& 0xF0 = Type.SUBACK → b.len.toNat ≤ 22) ∧
    (b.type &&& 0xF0 = Type.PUBLISH →
      2 ≤ b.len.toNat ∧ b.topic ≤ 63 ∧ b.len.toNat ≤ b.topic + 130)

instance (b : Block) : Decidable b.Runs := inferInstanceAs (Decidable (_ ∧ _))

end Block

/-- The second byte asks for more than has come. -/
def Incomplete (stream : List UInt8) : Prop :=
  ∀ type len rest, stream = type :: len :: rest → rest.length < len.toNat

/-- The blocks of a stream, and what remains. -/
def blocks : List UInt8 → List Block × List UInt8
  | type :: len :: rest =>
      if len.toNat ≤ rest.length then
        let cut := blocks (rest.drop len.toNat)
        (⟨type, len, rest.take len.toNat⟩ :: cut.1, cut.2)
      else ([], type :: len :: rest)
  | short => ([], short)
termination_by stream => stream.length
decreasing_by
  simp only [List.length_drop, List.length_cons]
  omega

theorem blocks_of_incomplete {stream : List UInt8} (h : Incomplete stream) :
    blocks stream = ([], stream) := by
  match stream with
  | [] => rw [blocks]; simp
  | [b] => rw [blocks]; simp
  | type :: len :: rest => rw [blocks, if_neg (Nat.not_le.mpr (h type len rest rfl))]

theorem blocks_cons {type len : UInt8} {body : List UInt8} (hlen : body.length = len.toNat)
    (rest : List UInt8) :
    blocks (type :: len :: (body ++ rest)) =
      (⟨type, len, body⟩ :: (blocks rest).1, (blocks rest).2) := by
  have hfull : len.toNat ≤ (body ++ rest).length := by
    rw [List.length_append]
    omega
  rw [blocks, if_pos hfull]
  simp only [← hlen, List.take_left, List.drop_left]

/-- **The blocks and the rest are the stream.** -/
theorem flatMap_blocks (stream : List UInt8) :
    (blocks stream).1.flatMap Block.bytes ++ (blocks stream).2 = stream := by
  induction stream using blocks.induct with
  | case1 type len rest hfull ih =>
      rw [blocks, if_pos hfull]
      simp only [List.flatMap_cons, Block.bytes, List.cons_append, List.append_assoc]
      rw [ih, List.take_append_drop]
  | case2 type len rest hshort =>
      rw [blocks, if_neg hshort]
      rfl
  | case3 stream hshort =>
      rw [blocks_of_incomplete fun type len rest h => absurd h (hshort type len rest)]
      rfl

/-! ## One byte -/

variable {buffer : Buffer 1024} {stale : ℕ → UInt8}

/-- **The constructors of a block succeed, whatever the stack holds**, if and only if the block
runs. -/
theorem create_isSome_iff_runs {b : Block} (hbytes : buffer.bytes = b.bytes)
    (hlen : b.body.length = b.len.toNat) :
    (∀ stale, (create stale buffer).isSome) ↔ b.Runs := by
  have hconnect := fun stale => (newCONNECT_spec stale hbytes hlen.ge).2
  have hne : Type.CONNACK ≠ Type.PUBLISH ∧ Type.SUBACK ≠ Type.PUBLISH ∧
      Type.CONNACK ≠ Type.SUBACK := by decide
  simp only [create_of_complete hbytes hlen.ge, Block.Runs]
  by_cases hconn : b.type &&& 0xF0 = Type.CONNACK
  · simp [hconn, hconnect, hne.1]
  by_cases hpub : b.type &&& 0xF0 = Type.PUBLISH
  · simp only [hpub, hne.1.symm, hne.2.1.symm, reduceIte, Option.isSome_map, or_self,
      false_implies, true_and, forall_const]
    by_cases hshort : b.len.toNat < 2
    · have hnone := newPUBLISH_of_short (fun _ => 0xFF) hbytes hlen hshort rfl
      constructor
      · intro hall
        have hsome := hall fun _ => 0xFF
        rw [hnone] at hsome
        exact absurd hsome (by simp)
      · intro hruns
        exact absurd hruns.1 (Nat.not_le.mpr hshort)
    · have hlong : 2 ≤ b.len.toNat := Nat.not_lt.mp hshort
      obtain ⟨hi, lo, rest, hbody, htopic⟩ := b.body_of_long hlen hlong
      have hpublish : ∀ stale, (newPUBLISH stale buffer).isSome ↔
          lo.toNat ≤ 63 ∧ b.len.toNat ≤ lo.toNat + 130 := by
        intro stale
        have hpublish : buffer.bytes = b.type :: b.len :: hi :: lo :: rest := by
          rw [hbytes, Block.bytes, hbody]
        rw [hbody] at hlen
        exact newPUBLISH_isSome hpublish hlen.ge hlong
      simp only [hpublish, htopic, hlong, true_and, forall_const]
  by_cases hsub : b.type &&& 0xF0 = Type.SUBACK
  · simp [hsub, hconnect, hne.2.1, hne.2.2.symm]
  · simp [hconn, hpub, hsub, newUNKNOWN_eq hbytes]

/-- A byte on top of a pending buffer completes a block, or leaves it incomplete. -/
theorem Pending.incomplete_or_block (h : Pending buffer) (x : UInt8) :
    Incomplete (buffer.bytes ++ [x]) ∨
      ∃ b : Block, buffer.bytes ++ [x] = b.bytes ∧ b.body.length = b.len.toNat := by
  by_cases hmore : Incomplete (buffer.bytes ++ [x])
  · exact Or.inl hmore
  · simp only [Incomplete, not_forall, not_lt] at hmore
    obtain ⟨type, len, rest, hbytes, hfull⟩ := hmore
    have hpush : (buffer.push (Input.mk x fun _ => 0).byte).1.bytes = type :: len :: rest := by
      rw [Buffer.push_of_lt h.length_lt]
      exact hbytes
    exact Or.inr ⟨⟨type, len, rest⟩, hbytes, Nat.le_antisymm (h.push hpush) hfull⟩

/-- A byte that completes nothing is stored. -/
theorem Pending.append_incomplete (h : Pending buffer) {input : Input}
    (hmore : Incomplete (buffer.bytes ++ [input.byte])) :
    ∃ behind, PBD.appendByte buffer input = some (none, behind) ∧ Pending behind ∧
      behind.bytes = buffer.bytes ++ [input.byte] := by
  have hpushed : (buffer.push input.byte).1.bytes = buffer.bytes ++ [input.byte] :=
    Buffer.push_of_lt h.length_lt
  have hpending : Pending (buffer.push input.byte).1 := by
    unfold Pending
    rw [hpushed]
    exact hmore
  refine ⟨(buffer.push input.byte).1, ?_, hpending, hpushed⟩
  rw [appendByte_of_lt input h.length_lt, process_of_incomplete hpending]

/-- A byte that completes a block removes it, unless a constructor fails. -/
theorem Pending.append_block (h : Pending buffer) (input : Input) {b : Block}
    (hblock : buffer.bytes ++ [input.byte] = b.bytes) (hlen : b.body.length = b.len.toNat) :
    if (create input.stale (buffer.push input.byte).1).isSome then
      ∃ callback, PBD.appendByte buffer input =
        some (some ⟨b.bytes.length, callback⟩, Buffer.clear)
    else PBD.appendByte buffer input = none := by
  have hpushed : (buffer.push input.byte).1.bytes = b.bytes := by
    rw [Buffer.push_of_lt h.length_lt, hblock]
  rw [appendByte_of_lt input h.length_lt]
  cases hcreate : create input.stale (buffer.push input.byte).1 with
  | none => exact process_of_create_eq_none hcreate
  | some r =>
      obtain ⟨callback, behind, hprocess, hrest⟩ := process_of_complete hpushed hlen.ge hcreate
      have hclear : behind = Buffer.clear := by
        apply Buffer.bytes_inj
        rw [hrest, ← hlen, List.drop_length]
        rfl
      have hsize : b.bytes.length = b.len.toNat + 2 := by
        rw [← hlen]
        rfl
      rw [hsize]
      exact ⟨callback, hclear ▸ hprocess⟩

/-- A block that is complete comes off the front of the stream. -/
theorem blocks_block {b : Block} (hlen : b.body.length = b.len.toNat) (rest : List UInt8) :
    blocks (b.bytes ++ rest) = (b :: (blocks rest).1, (blocks rest).2) :=
  blocks_cons hlen rest

/-! ## The stream -/

/-- **What calls that succeed leave and remove.** -/
theorem feed_blocks {inputs : List Input} {outputs : List (Option Processed)}
    {behind : Buffer 1024} (h : Pending buffer)
    (hfeed : feed appendByte buffer inputs = some (outputs, behind)) :
    Pending behind ∧ behind.bytes = (blocks (buffer.bytes ++ inputs.map Input.byte)).2 ∧
      outputs.filterMap (Option.map Processed.size) =
        (blocks (buffer.bytes ++ inputs.map Input.byte)).1.map fun b => b.bytes.length := by
  induction inputs generalizing buffer outputs with
  | nil =>
      obtain ⟨rfl, rfl⟩ := Prod.mk.inj (Option.some.inj hfeed)
      have hnone : blocks (buffer.bytes ++ [].map Input.byte) = ([], buffer.bytes) := by
        rw [List.map_nil, List.append_nil, blocks_of_incomplete h]
      rw [hnone]
      exact ⟨h, rfl, rfl⟩
  | cons input inputs ih =>
      have hsplit : buffer.bytes ++ (input :: inputs).map Input.byte =
          buffer.bytes ++ [input.byte] ++ inputs.map Input.byte := by
        rw [List.append_assoc]
        rfl
      rw [hsplit]
      rcases h.incomplete_or_block input.byte with hmore | ⟨b, hblock, hlen⟩
      · obtain ⟨next, hstep, hpending, hbytes⟩ := h.append_incomplete hmore
        rw [feed_cons_of_eq hstep] at hfeed
        obtain ⟨⟨os, t⟩, hrest, hfeed⟩ := Option.map_eq_some_iff.mp hfeed
        obtain ⟨rfl, rfl⟩ := Prod.mk.inj hfeed
        rw [← hbytes]
        have hmore := ih hpending hrest
        exact hmore
      · have hstep := h.append_block input hblock hlen
        split at hstep
        · obtain ⟨callback, hstep⟩ := hstep
          rw [feed_cons_of_eq hstep] at hfeed
          obtain ⟨⟨os, t⟩, hrest, hfeed⟩ := Option.map_eq_some_iff.mp hfeed
          obtain ⟨rfl, rfl⟩ := Prod.mk.inj hfeed
          obtain ⟨hpending, hbytes, hsizes⟩ := ih pending_clear hrest
          rw [Buffer.bytes_clear, List.nil_append] at hbytes hsizes
          rw [hblock, blocks_block hlen]
          exact ⟨hpending, hbytes, congrArg (b.bytes.length :: ·) hsizes⟩
        · rw [feed_cons, hstep] at hfeed
          exact absurd hfeed (by simp)

/-- With a byte that is stored the calls succeed as they do behind it. -/
theorem isSome_feed_incomplete (h : Pending buffer) {x : UInt8}
    (hmore : Incomplete (buffer.bytes ++ [x])) (stream : List UInt8) :
    ∃ next, Pending next ∧ next.bytes = buffer.bytes ++ [x] ∧
      ((∀ inputs : List Input, inputs.map Input.byte = x :: stream →
          (feed appendByte buffer inputs).isSome) ↔
        ∀ inputs : List Input, inputs.map Input.byte = stream →
          (feed appendByte next inputs).isSome) := by
  have hstep : ∀ stale, ∃ next, PBD.appendByte buffer ⟨x, stale⟩ = some (none, next) ∧
      Pending next ∧ next.bytes = buffer.bytes ++ [x] :=
    fun stale => h.append_incomplete hmore
  -- the byte is stored, whatever the stack holds
  obtain ⟨next, -, hpending, hbytes⟩ := hstep fun _ => 0
  refine ⟨next, hpending, hbytes, ?_, ?_⟩
  · intro hall inputs hinputs
    have hsome := hall (⟨x, fun _ => 0⟩ :: inputs) (by rw [List.map_cons, hinputs])
    obtain ⟨next', hnext', -, hbytes'⟩ := hstep fun _ => 0
    obtain rfl : next' = next := Buffer.bytes_inj (hbytes'.trans hbytes.symm)
    rw [feed_cons_of_eq hnext', Option.isSome_map] at hsome
    exact hsome
  · intro hall inputs hinputs
    obtain ⟨input, inputs', rfl, rfl, htail⟩ := List.map_eq_cons_iff.mp hinputs
    obtain ⟨next', hnext', -, hbytes'⟩ := hstep input.stale
    obtain rfl : next' = next := Buffer.bytes_inj (hbytes'.trans hbytes.symm)
    rw [feed_cons_of_eq hnext', Option.isSome_map]
    exact hall inputs' htail

/-- With a byte that completes a block they succeed if its constructor does, whatever the stack
holds, and the calls behind it. -/
theorem isSome_feed_block (h : Pending buffer) {x : UInt8} {b : Block}
    (hblock : buffer.bytes ++ [x] = b.bytes) (hlen : b.body.length = b.len.toNat)
    (stream : List UInt8) :
    (∀ inputs : List Input, inputs.map Input.byte = x :: stream →
        (feed appendByte buffer inputs).isSome) ↔
      (∀ stale, (create stale (buffer.push x).1).isSome) ∧
        ∀ inputs : List Input, inputs.map Input.byte = stream →
          (feed appendByte Buffer.clear inputs).isSome := by
  constructor
  · intro hall
    have hcall : ∀ stale inputs, inputs.map Input.byte = stream →
        (create stale (buffer.push x).1).isSome ∧
          (feed appendByte Buffer.clear inputs).isSome := by
      intro stale inputs hinputs
      have hsome := hall (⟨x, stale⟩ :: inputs) (by rw [List.map_cons, hinputs])
      have hstep := h.append_block ⟨x, stale⟩ hblock hlen
      split at hstep
      · rename_i hcreate
        obtain ⟨callback, hstep⟩ := hstep
        rw [feed_cons_of_eq hstep, Option.isSome_map] at hsome
        exact ⟨hcreate, hsome⟩
      · rw [feed_cons, hstep] at hsome
        exact absurd hsome (by simp)
    refine ⟨fun stale => (hcall stale (stream.map fun y => ⟨y, fun _ => 0⟩) ?_).1,
      fun inputs hinputs => (hcall (fun _ => 0) inputs hinputs).2⟩
    rw [List.map_map]
    exact List.map_id stream
  · rintro ⟨hcreate, hall⟩ inputs hinputs
    obtain ⟨input, inputs', rfl, rfl, htail⟩ := List.map_eq_cons_iff.mp hinputs
    have hstep := h.append_block input hblock hlen
    rw [if_pos (hcreate input.stale)] at hstep
    obtain ⟨callback, hstep⟩ := hstep
    rw [feed_cons_of_eq hstep, Option.isSome_map]
    exact hall inputs' htail

/-- **The calls over a stream succeed, whatever the stack holds**, if and only if its blocks
run. -/
theorem feed_isSome_iff (h : Pending buffer) (stream : List UInt8) :
    (∀ inputs : List Input, inputs.map Input.byte = stream →
        (feed appendByte buffer inputs).isSome) ↔
      ∀ b ∈ (blocks (buffer.bytes ++ stream)).1, b.Runs := by
  induction stream generalizing buffer with
  | nil =>
      rw [List.append_nil, blocks_of_incomplete h]
      constructor
      · intro _ b hb
        exact absurd hb List.not_mem_nil
      · intro _ inputs hinputs
        rw [List.map_eq_nil_iff.mp hinputs]
        rfl
  | cons x stream ih =>
      have hsplit : buffer.bytes ++ x :: stream = buffer.bytes ++ [x] ++ stream := by
        rw [List.append_assoc]
        rfl
      rw [hsplit]
      rcases h.incomplete_or_block x with hmore | ⟨b, hblock, hlen⟩
      · obtain ⟨next, hpending, hbytes, hcalls⟩ := isSome_feed_incomplete h hmore stream
        rw [hcalls, ih hpending, hbytes]
      · have hpushed : (buffer.push x).1.bytes = b.bytes := by
          rw [Buffer.push_of_lt h.length_lt, hblock]
        have hih := ih pending_clear
        rw [Buffer.bytes_clear, List.nil_append] at hih
        rw [isSome_feed_block h hblock hlen, hblock, blocks_block hlen, List.forall_mem_cons, ← hih,
          create_isSome_iff_runs hpushed hlen]

theorem Pending.length_le (h : Pending buffer) : buffer.bytes.length ≤ 256 := by
  match hb : buffer.bytes with
  | [] | [_] => simp
  | type :: len :: rest =>
      have hrest := h type len rest hb
      have hbyte := len.toNat_lt
      simp only [List.length_cons]
      omega

/-- **The queue keeps up with a stream**, whatever the stack holds.  After each of the calls: the
buffer is pending, so that it holds at most 256 bytes and the next one has room; exactly the
blocks that are complete were removed, each with its length; and with what is pending they are
all the bytes that came. -/
def KeepsUp (stream : List UInt8) : Prop :=
  ∀ inputs : List Input, inputs.map Input.byte = stream → ∀ pre, pre <+: inputs →
    ∃ outputs buffer, feed appendByte Buffer.clear pre = some (outputs, buffer) ∧
      Pending buffer ∧ buffer.bytes.length ≤ 256 ∧ (∀ b, (buffer.push b).2) ∧
      outputs.filterMap (Option.map Processed.size) =
        (blocks (pre.map Input.byte)).1.map (fun b => b.bytes.length) ∧
      (blocks (pre.map Input.byte)).1.flatMap Block.bytes ++ buffer.bytes = pre.map Input.byte

/-- The calls over the whole stream succeed. -/
theorem runs_of_keepsUp {stream : List UInt8} (h : KeepsUp stream) :
    ∀ b ∈ (blocks stream).1, b.Runs := by
  have hiff := feed_isSome_iff pending_clear stream
  rw [Buffer.bytes_clear, List.nil_append] at hiff
  rw [← hiff]
  intro inputs hinputs
  obtain ⟨outputs, buffer, hfeed, -⟩ := h inputs hinputs inputs (List.prefix_refl inputs)
  rw [hfeed]
  rfl

/-- **The queue keeps up with a stream if and only if all its blocks run.** -/
theorem keepsUp_iff (stream : List UInt8) :
    KeepsUp stream ↔ ∀ b ∈ (blocks stream).1, b.Runs := by
  constructor
  · exact runs_of_keepsUp
  · rintro hruns inputs hinputs pre ⟨post, rfl⟩
    have hsome : (feed appendByte Buffer.clear (pre ++ post)).isSome :=
      (feed_isSome_iff pending_clear stream).mpr hruns _ hinputs
    obtain ⟨⟨outputs, behind⟩, hfeed⟩ := Option.isSome_iff_exists.mp hsome
    obtain ⟨os, buffer, -, hpre, -, -⟩ := feed_of_append hfeed
    obtain ⟨hpending, hbytes, hsizes⟩ := feed_blocks pending_clear hpre
    rw [Buffer.bytes_clear, List.nil_append] at hbytes hsizes
    refine ⟨os, buffer, hpre, hpending, hpending.length_le, fun b => ?_, hsizes, ?_⟩
    · rw [Buffer.push, dif_pos hpending.length_lt]
    · rw [hbytes, flatMap_blocks]

/-- A CONNACK with eleven properties. -/
def longConnack : Block := ⟨0x20, 24, List.replicate 24 0⟩

/-- Its last property is written behind the array. -/
theorem not_keepsUp_longConnack : ¬ KeepsUp longConnack.bytes := by
  intro hkeeps
  have hlen : longConnack.body.length = longConnack.len.toNat := by decide
  have hempty : blocks [] = ([], []) := blocks_of_incomplete fun _ _ _ h => absurd h (by simp)
  have hblocks := blocks_block hlen []
  rw [List.append_nil, hempty] at hblocks
  have hruns := runs_of_keepsUp hkeeps longConnack (by rw [hblocks]; exact List.mem_singleton_self _)
  exact absurd hruns (by decide)

end PBD

end USKD
