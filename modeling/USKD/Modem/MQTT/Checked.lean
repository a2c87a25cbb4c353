import USKD.Modem.Blocks

/-!
# The responses, with their accesses checked

The readers of a packet trust its lengths: they read on behind its last byte, into the bytes of
the next packet or of the stack, and let the remaining length fall below zero.  Here the
constructors are written once more, with each read **checked**: it fails if it went behind the
last byte of the packet or left a negative length.

* `within` is the check; the stores into the three arrays were checked all along.
* A checked constructor that succeeds is the constructor (`create_of_checkedCreate`).
* Which packets pass the checks is `Block.Safe`; so all calls over a stream are in range exactly
  if its blocks are safe (`inRange_iff`).
-/

namespace USKD

namespace ResponseMQTT

namespace BufferMQTT

/-- A read that has stayed in front of `limit` and leaves no negative length.  The index only
grows, so that its last value bounds all reads. -/
def within {α : Type} (limit : ℕ) (read : Option (α × BufferMQTT)) : Option (α × BufferMQTT) :=
  read.filter fun r => r.2.index ≤ limit ∧ 0 ≤ r.2.remLength

/-- **A checked read** succeeds within its limit, if the rest does. -/
theorem isSome_within_bind {α β : Type} {limit : ℕ} {a : α} {s : BufferMQTT}
    {f : α × BufferMQTT → Option β} :
    ((within limit (some (a, s))).bind f).isSome ↔
      (s.index ≤ limit ∧ 0 ≤ s.remLength) ∧ (f (a, s)).isSome := by
  rw [within, Option.filter_some]
  by_cases h : s.index ≤ limit ∧ 0 ≤ s.remLength
  · rw [if_pos (decide_eq_true h), Option.bind_some]
    exact (and_iff_right h).symm
  · rw [if_neg (by simpa using h)]
    exact iff_of_false (by simp) fun hboth => h hboth.1

theorem within_of_le {α : Type} {limit : ℕ} {a : α} {s : BufferMQTT} (hindex : s.index ≤ limit)
    (hrem : 0 ≤ s.remLength) : within limit (some (a, s)) = some (a, s) := by
  rw [within, Option.filter_some, if_pos (decide_eq_true ⟨hindex, hrem⟩)]

theorem within_of_not {α : Type} {limit : ℕ} {a : α} {s : BufferMQTT}
    (h : ¬ (s.index ≤ limit ∧ 0 ≤ s.remLength)) : within limit (some (a, s)) = none := by
  rw [within, Option.filter_some, if_neg (by simpa using h)]

theorem eq_some_of_within {α : Type} {limit : ℕ} {read : Option (α × BufferMQTT)}
    {r : α × BufferMQTT} (h : within limit read = some r) : read = some r :=
  (Option.filter_eq_some_iff.mp h).1

/-- The loop of `ResponseCONNECT`, checked. -/
def checkedProperties (limit : ℕ) : ℕ → BufferMQTT → Option (List Property)
  | room, s =>
      if s.remLength = 0 then some []
      else
        match room with
        | 0 => none
        | room + 1 => do
            let (prop, s) ← within limit (s.readProperty true)
            let props ← checkedProperties limit room s
            pure (prop :: props)

theorem readProperties_of_checked {limit room : ℕ} {s : BufferMQTT} {props : List Property}
    (h : checkedProperties limit room s = some props) : readProperties room s = some props := by
  induction room generalizing s props with
  | zero =>
      rw [checkedProperties] at h
      rw [readProperties]
      exact h
  | succ room ih =>
      rw [checkedProperties] at h
      rw [readProperties]
      split at h
      · rename_i hzero
        rw [if_pos hzero]
        exact h
      · rename_i hmore
        rw [if_neg hmore]
        simp only [Option.bind_eq_bind, Option.bind_eq_some_iff] at h ⊢
        obtain ⟨⟨prop, s'⟩, hprop, rest, hrest, h⟩ := h
        exact ⟨(prop, s'), eq_some_of_within hprop, rest, ih hrest, h⟩

/-- **The property loop ends with the packet** if its length is even, and there is room for all
of it. -/
theorem checkedProperties_isSome_iff {limit room : ℕ} {s : BufferMQTT} (hrem : 0 ≤ s.remLength)
    (hlimit : (s.index : ℤ) + s.remLength = limit) (harray : limit < 1024) :
    (checkedProperties limit room s).isSome ↔ s.remLength % 2 = 0 ∧ s.remLength ≤ 2 * room := by
  induction room generalizing s with
  | zero =>
      rw [checkedProperties]
      by_cases hzero : s.remLength = 0
      · simp [hzero]
      · rw [if_neg hzero]
        simp only [Option.isSome_none, Bool.false_eq_true, false_iff]
        omega
  | succ room ih =>
      rw [checkedProperties]
      by_cases hzero : s.remLength = 0
      · rw [if_pos hzero]
        simp only [Option.isSome_some, true_iff]
        omega
      rw [if_neg hzero]
      obtain ⟨prop, hprop⟩ := readProperty_tracked hrem (show s.index + 2 ≤ 1024 by omega)
      rw [hprop]
      by_cases hone : s.remLength = 1
      · -- the second byte of the property is behind the packet
        rw [within_of_not (by simp only; omega)]
        simp only [Option.bind_eq_bind, Option.bind_none, Option.isSome_none, Bool.false_eq_true,
          false_iff]
        omega
      · rw [within_of_le (by simp only; omega) (by simp only; omega)]
        have hrest := @ih { s with index := s.index + 2, remLength := max (s.remLength - 2) 0 }
          (by simp only; omega) (by simp only; omega)
        have hcons : ∀ o : Option (List Property),
            (o.bind fun props => some (prop :: props)).isSome = o.isSome := by
          rintro (_ | props) <;> rfl
        simp only [Option.bind_eq_bind, Option.bind_some, Option.pure_def]
        rw [hcons, hrest]
        simp only
        omega

end BufferMQTT

open BufferMQTT

variable {stale : ℕ → UInt8} {buffer : Buffer 1024} {type len : UInt8} {rest : List UInt8}

/-! ## The constructors -/

/-- `ResponseCONNECT`, checked. -/
def checkedCONNECT (stale : ℕ → UInt8) (buffer : Buffer 1024) : Option ResponseCONNECT := do
  let (type, remLength, s) ← (BufferMQTT.new stale buffer).readHeader
  let allBytes := remLength + 2
  if buffer.size ≥ allBytes then
    let (flags, s) ← within allBytes (s.readUint8 true)
    let (reasonCode, s) ← within allBytes (s.readUint8 true)
    let properties ← checkedProperties allBytes 10 s
    pure { empty with type, allBytes, isValid := true, flags, reasonCode, properties }
  else
    pure { empty with type, allBytes, flags := 0 }

/-- `ResponsePUBLISH`, checked. -/
def checkedPUBLISH (stale : ℕ → UInt8) (buffer : Buffer 1024) : Option ResponsePUBLISH := do
  let (type, remLength, s) ← (BufferMQTT.new stale buffer).readHeader
  let allBytes := remLength + 2
  if buffer.size ≥ allBytes then
    let (topicLength, s) ← within allBytes (s.readUint16 true)
    let (nameTopic, s) ← within allBytes (s.readString 64 topicLength.toNat)
    let (_lengthProp, s) ← within allBytes (s.readUint8 true)
    let (message, _) ← within allBytes (s.readString 128 s.remLength)
    pure { empty with type, allBytes, isValid := true, nameTopic, message }
  else
    pure { empty with type, allBytes, nameTopic := [], message := [] }

/-- `ResponseMQTT::Create` with the checked constructors.  The two bytes of the header are always
there. -/
def checkedCreate (stale : ℕ → UInt8) (bytes : Buffer 1024) : Option ResponseMQTT :=
  if bytes.size < 2 then some empty
  else do
    let (type, remLength, _) ← (BufferMQTT.new stale bytes).readHeader
    let highNibble := type &&& 0xF0
    if bytes.size < remLength + 2 then pure empty
    else if highNibble = Type.CONNACK then
      (checkedCONNECT stale bytes).map ResponseCONNECT.toResponseMQTT
    else if highNibble = Type.PUBLISH then
      (checkedPUBLISH stale bytes).map ResponsePUBLISH.toResponseMQTT
    else if highNibble = Type.SUBACK then
      (checkedCONNECT stale bytes).map ResponseCONNECT.toResponseMQTT
    else newUNKNOWN stale bytes

theorem newCONNECT_of_checked {r : ResponseCONNECT} (h : checkedCONNECT stale buffer = some r) :
    newCONNECT stale buffer = some r := by
  rw [checkedCONNECT] at h
  rw [newCONNECT]
  simp only [Option.bind_eq_bind, Option.bind_eq_some_iff] at h ⊢
  obtain ⟨header, hheader, h⟩ := h
  refine ⟨header, hheader, ?_⟩
  split at h
  · rename_i hsize
    rw [if_pos hsize]
    simp only [Option.bind_eq_some_iff] at h ⊢
    obtain ⟨flags, hflags, reason, hreason, props, hprops, h⟩ := h
    exact ⟨flags, eq_some_of_within hflags, reason, eq_some_of_within hreason, props,
      readProperties_of_checked hprops, h⟩
  · rename_i hsize
    rw [if_neg hsize]
    exact h

theorem newPUBLISH_of_checked {r : ResponsePUBLISH} (h : checkedPUBLISH stale buffer = some r) :
    newPUBLISH stale buffer = some r := by
  rw [checkedPUBLISH] at h
  rw [newPUBLISH]
  simp only [Option.bind_eq_bind, Option.bind_eq_some_iff] at h ⊢
  obtain ⟨header, hheader, h⟩ := h
  refine ⟨header, hheader, ?_⟩
  split at h
  · rename_i hsize
    rw [if_pos hsize]
    simp only [Option.bind_eq_some_iff] at h ⊢
    obtain ⟨topic, htopic, name, hname, prop, hprop, message, hmessage, h⟩ := h
    exact ⟨topic, eq_some_of_within htopic, name, eq_some_of_within hname, prop,
      eq_some_of_within hprop, message, eq_some_of_within hmessage, h⟩
  · rename_i hsize
    rw [if_neg hsize]
    exact h

/-- **The checks only refuse**: what the checked constructors build, the constructors build. -/
theorem create_of_checkedCreate {r : ResponseMQTT} (h : checkedCreate stale buffer = some r) :
    create stale buffer = some r := by
  rw [checkedCreate] at h
  rw [create]
  split at h
  · rename_i hshort
    rw [if_pos hshort]
    exact h
  rename_i hshort
  rw [if_neg hshort]
  simp only [Option.bind_eq_bind, Option.bind_eq_some_iff] at h ⊢
  obtain ⟨header, hheader, h⟩ := h
  refine ⟨header, hheader, ?_⟩
  split at h
  · rename_i hless
    rw [if_pos hless]
    exact h
  rename_i hless
  rw [if_neg hless]
  split at h
  · rename_i hconn
    rw [if_pos hconn]
    obtain ⟨c, hc, rfl⟩ := Option.map_eq_some_iff.mp h
    rw [newCONNECT_of_checked hc]
    rfl
  rename_i hconn
  rw [if_neg hconn]
  split at h
  · rename_i hpub
    rw [if_pos hpub]
    obtain ⟨c, hc, rfl⟩ := Option.map_eq_some_iff.mp h
    rw [newPUBLISH_of_checked hc]
    rfl
  rename_i hpub
  rw [if_neg hpub]
  split at h
  · rename_i hsub
    rw [if_pos hsub]
    obtain ⟨c, hc, rfl⟩ := Option.map_eq_some_iff.mp h
    rw [newCONNECT_of_checked hc]
    rfl
  · rename_i hsub
    rw [if_neg hsub]
    exact h

/-! ## Which packets pass -/

/-- **CONNACK and SUBACK**: flags and reason, and then properties of two bytes each. -/
theorem checkedCONNECT_isSome_iff (h : buffer.bytes = type :: len :: rest)
    (hfull : len.toNat ≤ rest.length) :
    (checkedCONNECT stale buffer).isSome ↔
      len.toNat % 2 = 0 ∧ 2 ≤ len.toNat ∧ len.toNat ≤ 22 := by
  have hsize := size_ge_of_complete h hfull
  have hbyte := len.toNat_lt
  rw [checkedCONNECT, BufferMQTT.readHeader_eq h]
  simp only [Option.bind_eq_bind, Option.bind_some, if_pos hsize, Option.pure_def]
  rw [BufferMQTT.readUint8_tracked (by simp) (by simp), isSome_within_bind,
    BufferMQTT.readUint8_tracked (by simp) (by simp), isSome_within_bind]
  simp only
  generalize hs : BufferMQTT.mk buffer.bytes stale (2 + 1 + 1) _ = s
  have hrem : s.remLength = max (max ((len.toNat : ℤ) - 1) 0 - 1) 0 := by rw [← hs]
  have hindex : s.index = 4 := by rw [← hs]
  have hmap : ∀ (o : Option (List Property)) (f : List Property → ResponseCONNECT),
      (o.bind fun props => some (f props)).isSome = o.isSome := by
    rintro (_ | props) f <;> rfl
  rw [hmap]
  by_cases hreason : 2 ≤ len.toNat
  · rw [checkedProperties_isSome_iff (by omega) (by omega) (by omega)]
    omega
  · omega

/-- **PUBLISH**: the topic, one byte and the message fill the packet and fit their arrays. -/
theorem checkedPUBLISH_isSome_iff {hi lo : UInt8}
    (h : buffer.bytes = type :: len :: hi :: lo :: rest) (hfull : len.toNat ≤ rest.length + 2)
    (hlen : 2 ≤ len.toNat) :
    (checkedPUBLISH stale buffer).isSome ↔
      lo.toNat + 3 ≤ len.toNat ∧ lo.toNat ≤ 63 ∧ len.toNat ≤ lo.toNat + 130 := by
  have hsize := size_ge_of_complete h hfull
  have hlo : (buffer.bytes.getD 3 (stale 3)).toUInt16.toNat = lo.toNat := by simp [h]
  rw [checkedPUBLISH, BufferMQTT.readHeader_eq h]
  simp only [Option.bind_eq_bind, Option.bind_some, if_pos hsize, Option.pure_def]
  rw [BufferMQTT.readUint16_tracked (by simp only; omega) (by simp), isSome_within_bind]
  simp only [hlo]
  by_cases htopic : lo.toNat < 64
  · obtain ⟨name, hname⟩ := @BufferMQTT.readString_of_lt 64 lo.toNat
      ⟨buffer.bytes, stale, 2 + 2, (len.toNat : ℤ) - 2⟩ htopic (by simp only; omega)
    rw [hname, isSome_within_bind]
    simp only [Int.toNat_natCast]
    by_cases hholds : lo.toNat + 2 ≤ len.toNat
    · rw [BufferMQTT.readUint8_tracked (by simp only; omega) (by simp only; omega),
        isSome_within_bind]
      simp only
      generalize hleft : max ((len.toNat : ℤ) - 2 - lo.toNat - 1) 0 = left
      by_cases hmessage : left.toNat < 128
      · obtain ⟨message, hread⟩ := @BufferMQTT.readString_of_lt 128 left
          ⟨buffer.bytes, stale, 2 + 2 + lo.toNat + 1, left⟩ hmessage (by simp only; omega)
        rw [hread, isSome_within_bind]
        simp only [Option.isSome_some, and_true]
        omega
      · rw [BufferMQTT.readString_of_not_lt hmessage]
        simp only [within, Option.filter_none, Option.bind_none, Option.isSome_none,
          Bool.false_eq_true, and_false, false_iff]
        omega
    · exact iff_of_false (fun hreads => by omega) fun hfits => by omega
  · rw [BufferMQTT.readString_of_not_lt (by simpa using htopic)]
    simp only [within, Option.filter_none, Option.bind_none, Option.isSome_none,
      Bool.false_eq_true, and_false, false_iff]
    omega

/-- A PUBLISH without the length of its topic. -/
theorem checkedPUBLISH_of_short (h : buffer.bytes = type :: len :: rest)
    (hfull : len.toNat ≤ rest.length) (hlen : len.toNat < 2) :
    checkedPUBLISH stale buffer = none := by
  have hsize := size_ge_of_complete h hfull
  rw [checkedPUBLISH, BufferMQTT.readHeader_eq h]
  simp only [Option.bind_eq_bind, Option.bind_some, if_pos hsize, Option.pure_def]
  by_cases hzero : (len.toNat : ℤ) = 0
  · rw [BufferMQTT.readUint16_zero hzero (by simp), within_of_not (by simp only; omega)]
    rfl
  · rw [BufferMQTT.readUint16_tracked hzero (by simp), within_of_not (by simp only; omega)]
    rfl

end ResponseMQTT

namespace PBD

open ResponseMQTT Transducer

/-- **The lengths of the block agree with each other, and with the arrays.** -/
def Block.Safe (b : Block) : Prop :=
  (b.type &&& 0xF0 = Type.CONNACK ∨ b.type &&& 0xF0 = Type.SUBACK →
      b.len.toNat % 2 = 0 ∧ 2 ≤ b.len.toNat ∧ b.len.toNat ≤ 22) ∧
    (b.type &&& 0xF0 = Type.PUBLISH →
      2 ≤ b.len.toNat ∧ b.topic + 3 ≤ b.len.toNat ∧ b.topic ≤ 63 ∧ b.len.toNat ≤ b.topic + 130)

instance (b : Block) : Decidable b.Safe := inferInstanceAs (Decidable (_ ∧ _))

variable {buffer : Buffer 1024} {stale : ℕ → UInt8}

/-- A buffer without a whole packet gives nothing to read. -/
theorem checkedCreate_of_incomplete (h : Incomplete buffer.bytes) :
    checkedCreate stale buffer = some empty := by
  rw [checkedCreate]
  by_cases hshort : buffer.size < 2
  · rw [if_pos hshort]
  · match hb : buffer.bytes with
    | [] | [_] =>
        rw [Buffer.size_eq, hb] at hshort
        exact absurd (by simp) hshort
    | type :: len :: rest =>
        have hless : buffer.size < len.toNat + 2 := by
          have hrest := h type len rest hb
          rw [Buffer.size_eq, hb]
          simp only [List.length_cons]
          omega
        rw [if_neg hshort, BufferMQTT.readHeader_eq hb]
        simp only [Option.bind_eq_bind, Option.bind_some, if_pos hless, Option.pure_def]

/-- **A block is built within its bytes and the arrays** if and only if it is safe, whatever the
stack holds. -/
theorem checkedCreate_isSome_iff {b : Block} (hbytes : buffer.bytes = b.bytes)
    (hlen : b.body.length = b.len.toNat) :
    (checkedCreate stale buffer).isSome ↔ b.Safe := by
  have hne : Type.CONNACK ≠ Type.PUBLISH ∧ Type.SUBACK ≠ Type.PUBLISH ∧
      Type.CONNACK ≠ Type.SUBACK := by decide
  have hconnect := @checkedCONNECT_isSome_iff stale _ _ _ _ hbytes hlen.ge
  have hsize : buffer.size = b.len.toNat + 2 := by
    rw [Buffer.size_eq, hbytes, ← hlen]
    rfl
  rw [checkedCreate, if_neg (by omega), BufferMQTT.readHeader_eq hbytes]
  simp only [Option.bind_eq_bind, Option.bind_some, hsize, lt_irrefl, reduceIte, Block.Safe]
  by_cases hconn : b.type &&& 0xF0 = Type.CONNACK
  · simp [hconn, hconnect, hne.1]
  by_cases hpub : b.type &&& 0xF0 = Type.PUBLISH
  · simp only [hpub, hne.1.symm, hne.2.1.symm, reduceIte, Option.isSome_map, or_self,
      false_implies, true_and, forall_const]
    by_cases hshort : b.len.toNat < 2
    · rw [checkedPUBLISH_of_short hbytes hlen.ge hshort]
      simp only [Option.isSome_none, Bool.false_eq_true, false_iff]
      exact fun hsafe => absurd hsafe.1 (Nat.not_le.mpr hshort)
    · obtain ⟨hi, lo, rest, hbody, htopic⟩ := b.body_of_long hlen (Nat.not_lt.mp hshort)
      have hpublish : buffer.bytes = b.type :: b.len :: hi :: lo :: rest := by
        rw [hbytes, Block.bytes, hbody]
      rw [hbody] at hlen
      rw [checkedPUBLISH_isSome_iff hpublish hlen.ge (Nat.not_lt.mp hshort), htopic]
      exact ⟨fun hfits => ⟨Nat.not_lt.mp hshort, hfits⟩, fun hsafe => hsafe.2⟩
  by_cases hsub : b.type &&& 0xF0 = Type.SUBACK
  · simp [hsub, hconnect, hne.2.1, hne.2.2.symm]
  · simp [hconn, hpub, hsub, newUNKNOWN_eq hbytes]

/-- **The next call** returns, and builds its response within the bytes of the packet, the
arrays and the length that is left. -/
def InRange (buffer : Buffer 1024) : List Input → Prop
  | [] => True
  | input :: _ => (checkedCreate input.stale (buffer.push input.byte).1).isSome ∧
      (appendByte buffer input).isSome

/-- **All accesses over a stream are in range if and only if its blocks are safe**: stated for
a pending buffer, and every content of the stack. -/
theorem along_inRange_iff (h : Pending buffer) (inputs : List Input) :
    Along appendByte InRange buffer inputs ↔
      ∀ b ∈ (blocks (buffer.bytes ++ inputs.map Input.byte)).1, b.Safe := by
  induction inputs generalizing buffer with
  | nil =>
      rw [List.map_nil, List.append_nil, blocks_of_incomplete h]
      exact ⟨fun _ b hb => absurd hb List.not_mem_nil, fun _ => trivial⟩
  | cons input inputs ih =>
      have hpushed : (buffer.push input.byte).1.bytes = buffer.bytes ++ [input.byte] :=
        Buffer.push_of_lt h.length_lt
      have hsplit : buffer.bytes ++ (input :: inputs).map Input.byte =
          buffer.bytes ++ [input.byte] ++ inputs.map Input.byte := by
        rw [List.append_assoc]
        rfl
      rw [hsplit]
      rcases h.incomplete_or_block input.byte with hmore | ⟨b, hblock, hlen⟩
      · obtain ⟨next, hstep, hpending, hbytes⟩ := h.append_incomplete hmore
        rw [← hbytes, ← ih hpending]
        constructor
        · intro halong
          exact halong.next hstep
        · intro hrest
          refine ⟨⟨?_, by rw [hstep]; rfl⟩, fun o t ht => ?_⟩
          · rw [checkedCreate_of_incomplete (hpushed ▸ hmore)]
            rfl
          · obtain ⟨-, rfl⟩ := Prod.mk.inj (Option.some.inj (hstep.symm.trans ht))
            exact hrest
      · have hsafe := @checkedCreate_isSome_iff _ input.stale _ (hpushed.trans hblock) hlen
        have hih := ih pending_clear
        rw [Buffer.bytes_clear, List.nil_append] at hih
        rw [hblock, blocks_block hlen, List.forall_mem_cons, ← hih, ← hsafe]
        have hcall := h.append_block input hblock hlen
        constructor
        · intro halong
          refine ⟨halong.1.1, ?_⟩
          split at hcall
          · obtain ⟨callback, hstep⟩ := hcall
            exact halong.next hstep
          · have hreturns : (appendByte buffer input).isSome := halong.1.2
            rw [hcall] at hreturns
            exact absurd hreturns (by simp)
        · rintro ⟨hchecked, hrest⟩
          obtain ⟨r, hr⟩ := Option.isSome_iff_exists.mp hchecked
          have hcreate := create_of_checkedCreate hr
          rw [hcreate] at hcall
          obtain ⟨callback, hstep⟩ := hcall
          refine ⟨⟨hchecked, by rw [hstep]; rfl⟩, fun o t ht => ?_⟩
          obtain ⟨-, rfl⟩ := Prod.mk.inj (Option.some.inj (hstep.symm.trans ht))
          exact hrest

/-- **No access out of range.** -/
theorem inRange_iff (inputs : List Input) :
    Along appendByte InRange Buffer.clear inputs ↔
      ∀ b ∈ (blocks (inputs.map Input.byte)).1, b.Safe := by
  have hiff := along_inRange_iff pending_clear inputs
  rw [Buffer.bytes_clear, List.nil_append] at hiff
  exact hiff

/-- A CONNACK with nothing but flags, reason and an empty property section. -/
def shortConnack : Block := ⟨0x20, 3, [0x00, 0x00, 0x00]⟩

/-- The type of its one property is read behind its last byte. -/
theorem not_inRange_shortConnack :
    ¬ Along appendByte InRange Buffer.clear (shortConnack.bytes.map fun b => ⟨b, fun _ => 0⟩) := by
  intro halong
  have hlen : shortConnack.body.length = shortConnack.len.toNat := by decide
  have hempty : blocks [] = ([], []) := blocks_of_incomplete fun _ _ _ h => absurd h (by simp)
  have hblocks := blocks_block hlen []
  rw [List.append_nil, hempty] at hblocks
  have hsafe := (along_inRange_iff pending_clear _).mp halong shortConnack (by
    rw [Buffer.bytes_clear, List.nil_append, List.map_map]
    show shortConnack ∈ (blocks (shortConnack.bytes.map id)).1
    rw [List.map_id, hblocks]
    exact List.mem_singleton_self _)
  exact absurd hsafe (by decide)

end PBD

end USKD
