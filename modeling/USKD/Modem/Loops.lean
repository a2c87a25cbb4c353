import USKD.Lib.Run
import USKD.Modem.Terminated

/-!
# `InData::Update`, step by step

The `for` loop of `Update` sets its index back and removes bytes from the buffer that it is running
over; the `while` loop inside removes bytes until it finds one that is not below `0x20`, in a buffer
whose `operator[]` gives zeros when it is empty; and the `do` loop starts again behind every answer.
Here each test of a loop is a state, and `next` leads from one to the following one.

* `Inv` is what keeps the loops in the buffer: the bytes of `answer` stand in the part of the buffer
  that has been read, in their order.  Behind a header the first of them, `+`, ends the `while`
  loop, and all of them are still there to be removed.
* `Turn.measure_lt`: every step brings the end nearer.
* `leads_of_update` connects the steps with the passes of `InData`.
* `Orderly` reads the bytes that `Update` finds as the `Decoder` does, up to the end of an answer or
  of a header, and says which of them lead out of what the language defines: the number of a header
  that does not fit `buf_number`, and a count that goes below `INT_MIN`.
* `safe_iff` says that `Update` is safe if and only if the bytes are orderly.
-/

namespace USKD.InData

/-- Where `InData::Update` stands. -/
inductive Point
  /-- At the test of the `for` loop. -/
  | scanning (i : ℕ) (answer : Buffer 2048)
  /-- At the test of the `while` loop. -/
  | stripping (answer : Buffer 2048)
  /-- At the call of `SIM868::Update`. -/
  | passing (answer : Buffer 2048) (exist : Bool)
  | returned
  /-- More has been removed than there was. -/
  | overdrawn
  /-- Behind an access outside of `buf_number`, or a count below `INT_MIN`. -/
  | undefined
deriving DecidableEq

/-- The buffer `answer`. -/
def Point.answer : Point → Option (Buffer 2048)
  | .scanning _ answer | .stripping answer | .passing answer _ => some answer
  | .returned | .overdrawn | .undefined => none

/-- The variables of `InData::Update`, and what has been called: an answer as the contents of its
array. -/
structure Loop where
  point : Point
  buffer : Buffer 2048
  left : ℤ
  calls : List Event
deriving DecidableEq

namespace Loop

/-- `buffer.RemoveFirst(n)`, and on to `point`. -/
def remove (s : Loop) (n : ℕ) (point : Point) : Loop :=
  match s.buffer.removeFirst n with
  | none => { s with point := .overdrawn }
  | some buffer => { s with point, buffer }

/-- The body of the `for` loop. -/
def body (s : Loop) (i : ℕ) (answer : Buffer 2048) : Loop :=
  let symbol := s.buffer.get i
  if s.left ≠ 0 then
    if s.left = -2 ^ 31 then { s with point := .undefined }
    else { s with
      point := .scanning (i + 1) answer
      left := s.left - 1
      calls := s.calls ++ [.appendByte symbol] }
  else if symbol = 0x0A then { s with point := .scanning (i + 1) answer }
  else if symbol = 0x0D then
    if answer.size = 0 then { s with point := .scanning (i + 1) answer }
    else s.remove (i + 1) (.passing (answer.push 0).1 true)
  else if symbol = 0x3E then
    s.remove (i + 1) (.passing ((answer.push symbol).1.push 0).1 true)
  else
    let answer := (answer.push symbol).1
    if isHeader answer.bytes then
      match headerNumber answer.bytes with
      | none => { s with point := .undefined }
      | some number => { s with point := .stripping answer, left := number }
    else { s with point := .scanning (i + 1) answer }

/-- One step. -/
def next (s : Loop) : Loop :=
  match s.point with
  | .scanning i answer =>
      if i < s.buffer.size then s.body i answer else { s with point := .passing answer false }
  | .stripping answer =>
      if s.buffer.get 0 < 0x20 then s.remove 1 (.stripping answer)
      else s.remove answer.size (.scanning 0 .clear)
  | .passing answer exist =>
      let s := { s with calls := s.calls ++ [Event.update (if exist then answer.bytes else [])] }
      if exist then { s with point := .scanning 0 .clear } else { s with point := .returned }
  | .returned | .overdrawn | .undefined => s

end Loop

/-- `InData::Update` behind the move of `main`. -/
def start (s : InData) : Loop where
  point := if s.moved.size = 0 then .passing .clear false else .scanning 0 .clear
  buffer := s.moved
  left := s.binaryBytesLeft
  calls := []

namespace Loop

/-! ## What a step can do -/

variable {s : Loop} {i n : ℕ} {answer buffer : Buffer 2048} {left : ℤ} {calls : List Event}
  {point : Point}

theorem next_scanning : next ⟨.scanning i answer, buffer, left, calls⟩ =
    if i < buffer.size then body ⟨.scanning i answer, buffer, left, calls⟩ i answer
    else ⟨.passing answer false, buffer, left, calls⟩ := rfl

theorem next_stripping : next ⟨.stripping answer, buffer, left, calls⟩ =
    if buffer.get 0 < 0x20 then
      remove ⟨.stripping answer, buffer, left, calls⟩ 1 (.stripping answer)
    else remove ⟨.stripping answer, buffer, left, calls⟩ answer.size (.scanning 0 .clear) := rfl

/-- The bytes of `answer` stand in front of position `i`, in their order. -/
def Read (s : Loop) (i : ℕ) (answer : Buffer 2048) : Prop :=
  answer.bytes.Sublist (s.buffer.bytes.take i)

theorem remove_of_some {behind : Buffer 2048} (h : s.buffer.removeFirst n = some behind) :
    s.remove n point = { s with point, buffer := behind } := by
  rw [remove, h]

/-- Bytes that are there can be removed. -/
theorem exists_remove (hn : 0 < n) (hle : n ≤ s.buffer.size) :
    ∃ behind, s.remove n point = { s with point, buffer := behind } ∧
      behind.bytes = s.buffer.bytes.drop n ∧ behind.size < s.buffer.size := by
  obtain ⟨behind, hremove⟩ : ∃ behind, s.buffer.removeFirst n = some behind := ⟨_, if_pos hle⟩
  exact ⟨behind, remove_of_some hremove, Buffer.bytes_removeFirst hremove,
    length_removeFirst_lt hn hremove⟩

theorem take_succ_buffer (hi : i < s.buffer.size) :
    s.buffer.bytes.take (i + 1) = s.buffer.bytes.take i ++ [s.buffer.get i] := by
  rw [Buffer.size_eq] at hi
  rw [List.take_succ_eq_append_getElem hi, Buffer.get, List.getD_eq_getElem?_getD,
    List.getElem?_eq_getElem hi, Option.getD_some]

/-- There is always room for the next byte. -/
theorem Read.push (h : Read s i answer) (hi : i < s.buffer.size) :
    (answer.push (s.buffer.get i)).1.bytes = answer.bytes ++ [s.buffer.get i] := by
  have hlength := h.length_le
  have hsize := s.buffer.size_le
  rw [Buffer.size_eq] at hi
  rw [List.length_take] at hlength
  exact Buffer.push_of_lt (by omega)

/-- The colon of a header. -/
theorem body_of_isHeader (hleft : s.left = 0)
    (hpush : (answer.push (s.buffer.get i)).1.bytes = answer.bytes ++ [s.buffer.get i])
    (hheader : isHeader (answer.bytes ++ [s.buffer.get i]) = true) :
    s.body i answer =
      if (Decoder.number (answer.bytes ++ [s.buffer.get i])).length < 32 then { s with
        point := .stripping (answer.push (s.buffer.get i)).1
        left := toInt (strtoul (Decoder.number (answer.bytes ++ [s.buffer.get i]))) }
      else { s with point := .undefined } := by
  have hcolon := last_of_isHeader hheader
  unfold body
  simp only
  rw [if_neg (not_not.mpr hleft), if_neg (by rw [hcolon]; decide), if_neg (by rw [hcolon]; decide),
    if_neg (by rw [hcolon]; decide), hpush, if_pos hheader, Decoder.headerNumber_eq]
  by_cases hnumber : (Decoder.number (answer.bytes ++ [s.buffer.get i])).length < 32
  · rw [if_pos hnumber, if_pos hnumber]
  · rw [if_neg hnumber, if_neg hnumber]

/-- **What the body of the `for` loop can do.** -/
theorem body_cases (hread : Read s i answer) (hi : i < s.buffer.size) :
    (∃ answer' left calls, s.body i answer =
        { s with point := .scanning (i + 1) answer', left, calls } ∧ Read s (i + 1) answer') ∨
      (∃ answer', s.body i answer = s.remove (i + 1) (.passing answer' true)) ∨
      (∃ header left, s.body i answer = { s with point := .stripping header, left } ∧
        header.bytes.Sublist s.buffer.bytes ∧ isHeader header.bytes = true) ∨
      s.body i answer = { s with point := .undefined } := by
  have htake := take_succ_buffer hi
  have hpush := hread.push hi
  have hkeep : Read s (i + 1) answer := by
    unfold Read
    rw [htake]
    exact hread.trans (List.sublist_append_left _ _)
  have hstore : Read s (i + 1) (answer.push (s.buffer.get i)).1 := by
    unfold Read
    rw [htake, hpush]
    exact hread.append (List.Sublist.refl _)
  by_cases hleft : s.left = 0
  · by_cases hheader : isHeader (answer.bytes ++ [s.buffer.get i]) = true
    · rw [body_of_isHeader hleft hpush hheader]
      split
      · refine .inr (.inr (.inl ⟨_, _, rfl, ?_, ?_⟩))
        · exact hstore.trans (List.take_sublist _ _)
        · rw [hpush]
          exact hheader
      · exact .inr (.inr (.inr rfl))
    · unfold body
      simp only
      rw [if_neg (not_not.mpr hleft)]
      by_cases hlf : s.buffer.get i = 0x0A
      · rw [if_pos hlf]
        exact .inl ⟨answer, s.left, s.calls, rfl, hkeep⟩
      rw [if_neg hlf]
      by_cases hcr : s.buffer.get i = 0x0D
      · rw [if_pos hcr]
        by_cases hempty : answer.size = 0
        · rw [if_pos hempty]
          exact .inl ⟨answer, s.left, s.calls, rfl, hkeep⟩
        · rw [if_neg hempty]
          exact .inr (.inl ⟨(answer.push 0).1, rfl⟩)
      rw [if_neg hcr]
      by_cases hprompt : s.buffer.get i = 0x3E
      · rw [if_pos hprompt]
        exact .inr (.inl ⟨_, rfl⟩)
      · rw [if_neg hprompt, hpush, if_neg hheader]
        exact .inl ⟨_, s.left, s.calls, rfl, hstore⟩
  · unfold body
    simp only
    rw [if_pos hleft]
    by_cases hleast : s.left = -2 ^ 31
    · rw [if_pos hleast]
      exact .inr (.inr (.inr rfl))
    · rw [if_neg hleast]
      exact .inl ⟨answer, _, _, rfl, hkeep⟩

/-! ## The invariant -/

/-- **What keeps the loops in the buffer.** -/
def Inv (s : Loop) : Prop :=
  match s.point with
  | .scanning i answer => Read s i answer ∧ i ≤ s.buffer.size
  | .stripping header => header.bytes.Sublist s.buffer.bytes ∧ isHeader header.bytes = true
  | .overdrawn => False
  | .passing _ _ | .returned | .undefined => True

/-- **The byte that ends the `while` loop**: the first byte of a header is not below `0x20`. -/
theorem exists_header_bytes {header : List UInt8} (h : isHeader header = true) :
    ∃ rest, header = 0x2B :: rest := by
  simp only [isHeader, Bool.and_eq_true, beq_iff_eq] at h
  cases header with
  | nil => exact absurd h.2 (by decide)
  | cons b rest =>
      rw [List.take_succ_cons] at h
      obtain rfl : b = 0x2B := (List.cons.inj h.2).1
      exact ⟨rest, rfl⟩

/-- At the test of the `while` loop the buffer is not empty. -/
theorem exists_stripped {header : Buffer 2048} (hsub : header.bytes.Sublist s.buffer.bytes)
    (hheader : isHeader header.bytes = true) :
    ∃ b rest, s.buffer.bytes = b :: rest ∧ s.buffer.get 0 = b ∧
      (b < 0x20 → header.bytes.Sublist rest) := by
  obtain ⟨tail, htail⟩ := exists_header_bytes hheader
  cases hbuffer : s.buffer.bytes with
  | nil =>
      rw [hbuffer, htail] at hsub
      exact absurd (List.sublist_nil.mp hsub) (List.cons_ne_nil _ _)
  | cons b rest =>
      refine ⟨b, rest, rfl, by rw [Buffer.get, hbuffer]; rfl, fun hlow => ?_⟩
      rw [hbuffer, htail] at hsub
      rw [htail]
      rcases List.sublist_cons_iff.mp hsub with h | ⟨tail', htail', -⟩
      · exact h
      · obtain ⟨rfl, -⟩ := List.cons.inj htail'
        exact absurd hlow (by decide)

/-- **What a step can do** inside of the buffer. -/
inductive Turn : Loop → Loop → Prop
  | past {i : ℕ} {answer buffer : Buffer 2048} {left : ℤ} {calls : List Event} :
      Turn ⟨.scanning i answer, buffer, left, calls⟩ ⟨.passing answer false, buffer, left, calls⟩
  | read {i : ℕ} {answer answer' buffer : Buffer 2048} {left left' : ℤ} {calls calls' : List Event}
      (hi : i < buffer.size) (hread : answer'.bytes.Sublist (buffer.bytes.take (i + 1))) :
      Turn ⟨.scanning i answer, buffer, left, calls⟩
        ⟨.scanning (i + 1) answer', buffer, left', calls'⟩
  | ended {i : ℕ} {answer answer' buffer behind : Buffer 2048} {left : ℤ} {calls : List Event}
      (hless : behind.size < buffer.size) :
      Turn ⟨.scanning i answer, buffer, left, calls⟩ ⟨.passing answer' true, behind, left, calls⟩
  | found {i : ℕ} {answer header buffer : Buffer 2048} {left left' : ℤ} {calls : List Event}
      (hi : i < buffer.size) (hsub : header.bytes.Sublist buffer.bytes)
      (hheader : isHeader header.bytes = true) :
      Turn ⟨.scanning i answer, buffer, left, calls⟩ ⟨.stripping header, buffer, left', calls⟩
  | stripped {header buffer behind : Buffer 2048} {left : ℤ} {calls : List Event}
      (hless : behind.size < buffer.size) (hsub : header.bytes.Sublist behind.bytes)
      (hheader : isHeader header.bytes = true) :
      Turn ⟨.stripping header, buffer, left, calls⟩ ⟨.stripping header, behind, left, calls⟩
  | removed {header buffer behind : Buffer 2048} {left : ℤ} {calls : List Event}
      (hless : behind.size < buffer.size) :
      Turn ⟨.stripping header, buffer, left, calls⟩ ⟨.scanning 0 .clear, behind, left, calls⟩
  | again {answer buffer : Buffer 2048} {left : ℤ} {calls calls' : List Event} :
      Turn ⟨.passing answer true, buffer, left, calls⟩ ⟨.scanning 0 .clear, buffer, left, calls'⟩
  | back {answer buffer : Buffer 2048} {left : ℤ} {calls calls' : List Event} :
      Turn ⟨.passing answer false, buffer, left, calls⟩ ⟨.returned, buffer, left, calls'⟩
  | astray {i : ℕ} {answer buffer : Buffer 2048} {left : ℤ} {calls : List Event} :
      Turn ⟨.scanning i answer, buffer, left, calls⟩ ⟨.undefined, buffer, left, calls⟩

/-- `Update` has ended, or has left the language. -/
def Ended (s : Loop) : Prop := s.point = .returned ∨ s.point = .undefined

/-- A step from the test of the `for` loop. -/
theorem turn_scanning (hread : answer.bytes.Sublist (buffer.bytes.take i)) :
    Turn ⟨.scanning i answer, buffer, left, calls⟩
      (next ⟨.scanning i answer, buffer, left, calls⟩) := by
  rw [next_scanning]
  split
  · next hi =>
      rcases @body_cases ⟨.scanning i answer, buffer, left, calls⟩ i answer hread hi with
        ⟨answer', left', calls', hbody, hread'⟩ | ⟨answer', hbody⟩ |
        ⟨header, left', hbody, hsub, hheader⟩ | hbody
      · rw [hbody]
        exact .read hi hread'
      · obtain ⟨behind, hremove, -, hless⟩ := @exists_remove
          ⟨.scanning i answer, buffer, left, calls⟩ (i + 1) (.passing answer' true)
          (Nat.succ_pos i) hi
        rw [hbody, hremove]
        exact .ended hless
      · rw [hbody]
        exact .found hi hsub hheader
      · rw [hbody]
        exact .astray
  · exact .past

/-- A step from the test of the `while` loop: the header is still there. -/
theorem turn_stripping {header : Buffer 2048} (hsub : header.bytes.Sublist buffer.bytes)
    (hheader : isHeader header.bytes = true) :
    Turn ⟨.stripping header, buffer, left, calls⟩
      (next ⟨.stripping header, buffer, left, calls⟩) := by
  obtain ⟨b, rest, hbytes, hfirst, hrest⟩ :=
    @exists_stripped ⟨.stripping header, buffer, left, calls⟩ header hsub hheader
  simp only at hbytes hfirst
  rw [next_stripping, hfirst]
  by_cases hlow : b < 0x20
  · obtain ⟨behind, hremove, hbehind, hless⟩ := @exists_remove
      ⟨.stripping header, buffer, left, calls⟩ 1 (.stripping header) Nat.one_pos (by
        rw [Buffer.size_eq, hbytes, List.length_cons]
        omega)
    rw [if_pos hlow, hremove]
    refine .stripped hless ?_ hheader
    rw [hbehind, hbytes]
    exact hrest hlow
  · obtain ⟨behind, hremove, -, hless⟩ := @exists_remove
      ⟨.stripping header, buffer, left, calls⟩ header.size (.scanning 0 .clear)
      (Nat.zero_lt_of_lt (length_of_isHeader hheader)) hsub.length_le
    rw [if_neg hlow, hremove]
    exact .removed hless

/-- **Every step stays inside of the buffer.** -/
theorem turn_next (h : Inv s) : Ended s ∨ Turn s s.next := by
  obtain ⟨point, buffer, left, calls⟩ := s
  cases point with
  | scanning i answer => exact .inr (turn_scanning h.1)
  | stripping header => exact .inr (turn_stripping h.1 h.2)
  | passing answer exist =>
      cases exist with
      | true => exact .inr .again
      | false => exact .inr .back
  | returned => exact .inl (.inl rfl)
  | overdrawn => exact h.elim
  | undefined => exact .inl (.inr rfl)

theorem next_of_ended (h : Ended s) : s.next = s := by
  rcases h with h | h <;> rw [next, h]

theorem Turn.inv {t : Loop} (h : Turn s t) : Inv t := by
  cases h with
  | read hi hread => exact ⟨hread, hi⟩
  | found _ hsub hheader => exact ⟨hsub, hheader⟩
  | stripped _ hsub hheader => exact ⟨hsub, hheader⟩
  | removed | again => exact ⟨List.nil_sublist _, Nat.zero_le _⟩
  | past | ended | back | astray => trivial

theorem inv_next (h : Inv s) : Inv s.next := by
  rcases turn_next h with hended | hturn
  · rw [next_of_ended hended]
    exact h
  · exact hturn.inv

/-! ## The end -/

/-- What is still to be done.  A byte of the buffer counts more than a whole pass over it. -/
def measure (s : Loop) : ℕ :=
  match s.point with
  | .scanning i _ => 2050 * s.buffer.size + (s.buffer.size - i) + 2
  | .stripping _ => 2050 * s.buffer.size + 2
  | .passing _ true => 2050 * s.buffer.size + s.buffer.size + 3
  | .passing _ false => 1
  | .returned | .overdrawn | .undefined => 0

/-- **Every step brings the end nearer.** -/
theorem Turn.measure_lt {t : Loop} (h : Turn s t) : t.measure < s.measure := by
  have hsize : s.buffer.size ≤ 2048 := s.buffer.size_le
  cases h with
  | past | back | astray | again =>
      simp only [measure]
      omega
  | read hi | found hi =>
      simp only [measure]
      omega
  | ended hless | stripped hless | removed hless =>
      simp only [measure] at hsize ⊢
      omega

theorem inv_start (s : InData) : Inv s.start := by
  unfold start
  split
  · trivial
  · exact ⟨List.nil_sublist _, Nat.zero_le _⟩

end Loop

/-! ## The passes -/

/-- An event with the C string in the place of the array that holds it. -/
def Event.cut : Event → Event
  | .appendByte byte => .appendByte byte
  | .update answer => .update (beforeZero answer)

theorem map_cut_appendByte (handed : List UInt8) :
    (handed.map Event.appendByte).map Event.cut = handed.map .appendByte := by
  rw [List.map_map]
  rfl

namespace Loop

section

variable {s : Loop} {i : ℕ} {answer buffer behind header : Buffer 2048} {left : ℤ}
  {calls : List Event} {symbol : UInt8} {rest : List UInt8} {pass : Pass}

/-- Where the steps of a pass end. -/
def Stopped (s : Loop) (buffer : Buffer 2048) (calls : List Event) (pass : Pass) : Prop :=
  match pass.outcome with
  | .exhausted => ∃ answer, s = ⟨.passing answer false, buffer, pass.left, calls⟩
  | .answer answer count => ∀ behind, buffer.removeFirst count = some behind →
      s = ⟨.passing answer true, behind, pass.left, calls⟩
  | .header header => isHeader header.bytes = true ∧ ∀ number,
      headerNumber header.bytes = some number → s = ⟨.stripping header, buffer, number, calls⟩

theorem next_of_drop (hrest : buffer.bytes.drop i = symbol :: rest) :
    next ⟨.scanning i answer, buffer, left, calls⟩ =
        body ⟨.scanning i answer, buffer, left, calls⟩ i answer ∧
      buffer.get i = symbol ∧ buffer.bytes.drop (i + 1) = rest := by
  have hi : i < buffer.bytes.length := by
    by_contra hle
    rw [List.drop_eq_nil_of_le (Nat.le_of_not_lt hle)] at hrest
    exact absurd hrest (List.cons_ne_nil _ _).symm
  rw [List.drop_eq_getElem_cons hi] at hrest
  obtain ⟨hsymbol, hbehind⟩ := List.cons.inj hrest
  refine ⟨?_, ?_, hbehind⟩
  · rw [next_scanning]
    exact if_pos hi
  · rw [Buffer.get, List.getD_eq_getElem?_getD, List.getElem?_eq_getElem hi, Option.getD_some,
      hsymbol]

/-- **The steps of a pass.** -/
theorem leads_scan (hscan : scan i answer left rest = some pass)
    (hrest : buffer.bytes.drop i = rest) (calls : List Event) :
    ∃ t, LTS.Leads next ⟨.scanning i answer, buffer, left, calls⟩ t ∧
      t.Stopped buffer (calls ++ pass.handed.map .appendByte) pass := by
  induction rest generalizing i answer left pass calls with
  | nil =>
      obtain rfl := Option.some.inj hscan
      have hover : ¬ i < buffer.size := (List.drop_eq_nil_iff.mp hrest).not_gt
      refine ⟨_, .head (.refl _), answer, ?_⟩
      rw [next_scanning, if_neg hover, List.map_nil, List.append_nil]
  | cons symbol rest ih =>
      obtain ⟨hnext, hget, hdrop⟩ := @next_of_drop i answer buffer left calls symbol rest hrest
      unfold body at hnext
      simp only [hget] at hnext
      rcases scan_cons_cases hscan with ⟨hleft, hleast, p, hp, rfl⟩ | ⟨rfl, hcases⟩
      · -- a byte of a packet
        rw [if_pos hleft, if_neg hleast] at hnext
        obtain ⟨t, hleads, hstopped⟩ := ih hp hdrop (calls ++ [.appendByte symbol])
        refine ⟨t, .head (hnext ▸ hleads), ?_⟩
        rw [List.append_assoc, List.singleton_append] at hstopped
        exact hstopped
      rw [if_neg (not_not.mpr rfl)] at hnext
      rcases hcases with ⟨hskip, hbehind⟩ | ⟨rfl, hsize, rfl⟩ | ⟨rfl, rfl⟩ |
        ⟨⟨hlf, hcr, hprompt⟩, ⟨hheader, rfl⟩ | ⟨hheader, hbehind⟩⟩
      · have hskipped : next ⟨.scanning i answer, buffer, 0, calls⟩ =
            ⟨.scanning (i + 1) answer, buffer, 0, calls⟩ := by
          rw [hnext]
          rcases hskip with rfl | ⟨rfl, hempty⟩
          · rw [if_pos rfl]
          · rw [if_neg (by decide), if_pos rfl, if_pos hempty]
        obtain ⟨t, hleads, hstopped⟩ := ih hbehind hdrop calls
        exact ⟨t, .head (hskipped ▸ hleads), hstopped⟩
      · rw [if_neg (by decide), if_pos rfl, if_neg hsize] at hnext
        refine ⟨_, .head (.refl _), fun behind hremove => ?_⟩
        rw [hnext, remove_of_some hremove, List.map_nil, List.append_nil]
      · rw [if_neg (by decide), if_neg (by decide), if_pos rfl] at hnext
        refine ⟨_, .head (.refl _), fun behind hremove => ?_⟩
        rw [hnext, remove_of_some hremove, List.map_nil, List.append_nil]
      · rw [if_neg hlf, if_neg hcr, if_neg hprompt, if_pos hheader] at hnext
        refine ⟨_, .head (.refl _), hheader, fun number hnumber => ?_⟩
        rw [hnext, hnumber, List.map_nil, List.append_nil]
      · rw [if_neg hlf, if_neg hcr, if_neg hprompt, if_neg (by simp [hheader])] at hnext
        obtain ⟨t, hleads, hstopped⟩ := ih hbehind hdrop calls
        exact ⟨t, .head (hnext ▸ hleads), hstopped⟩

/-- **The steps of the `while` loop**, and the removal of the header. -/
theorem leads_strip (hpos : 0 < header.size)
    (hremove : (strip buffer).removeFirst header.size = some behind) :
    LTS.Leads next ⟨.stripping header, buffer, left, calls⟩
      ⟨.scanning 0 .clear, behind, left, calls⟩ := by
  obtain ⟨bytes, size_le⟩ := buffer
  induction bytes with
  | nil =>
      have hshort : ¬ header.size ≤ (strip ⟨[], size_le⟩).bytes.length := hpos.not_ge
      rw [Buffer.removeFirst, if_neg hshort] at hremove
      exact absurd hremove (by simp)
  | cons b rest ih =>
      by_cases hlow : b < 0x20
      · have hle : rest.length ≤ 2048 := (Nat.le_succ _).trans size_le
        have hstrip : strip ⟨b :: rest, size_le⟩ = strip ⟨rest, hle⟩ :=
          Buffer.bytes_inj (by
            rw [bytes_strip, bytes_strip, List.dropWhile_cons_of_pos (by simpa using hlow)])
        have hfirst : next ⟨.stripping header, ⟨b :: rest, size_le⟩, left, calls⟩ =
            ⟨.stripping header, ⟨rest, hle⟩, left, calls⟩ := by
          rw [next_stripping]
          exact if_pos hlow
        rw [hstrip] at hremove
        exact .head (hfirst ▸ ih hle hremove)
      · have hstrip : strip ⟨b :: rest, size_le⟩ = ⟨b :: rest, size_le⟩ :=
          Buffer.bytes_inj (by
            rw [bytes_strip, List.dropWhile_cons_of_neg (by simpa using hlow)])
        have hlast : next ⟨.stripping header, ⟨b :: rest, size_le⟩, left, calls⟩ =
            ⟨.scanning 0 .clear, behind, left, calls⟩ := by
          rw [hstrip] at hremove
          rw [next_stripping]
          exact (if_neg hlow).trans (remove_of_some hremove)
        exact .head (hlast ▸ .refl _)

end

/-- **The steps do what the passes do**, in one turn of the `do` loop after the other. -/
theorem leads_drain {fuel : ℕ} {buffer : Buffer 2048} {left : ℤ} {events : List Event}
    {r : Buffer 2048 × ℤ} (h : Drains fuel buffer left events r) (calls : List Event) :
    ∃ calls', LTS.Leads next ⟨.scanning 0 .clear, buffer, left, calls⟩
        ⟨.returned, r.1, r.2, calls'⟩ ∧
      calls'.map Event.cut = calls.map Event.cut ++ events := by
  induction h generalizing calls with
  | exhausted hscan =>
      obtain ⟨t, hpass, answer, rfl⟩ := leads_scan hscan List.drop_zero calls
      refine ⟨_, hpass.trans (.head (.refl _)), ?_⟩
      rw [List.map_append, List.map_append, map_cut_appendByte, List.append_assoc]
      rfl
  | @answer _ _ behind answer _ left' handed text _ _ _ hscan htext hbehind _ ih =>
      obtain ⟨t, hpass, hstopped⟩ := leads_scan hscan List.drop_zero calls
      obtain rfl := hstopped behind hbehind
      obtain ⟨calls', hrest, hcalls⟩ :=
        ih (calls ++ handed.map .appendByte ++ [.update answer.bytes])
      refine ⟨calls', hpass.trans (.head hrest), ?_⟩
      rw [hcalls, List.map_append, List.map_append, map_cut_appendByte, cString_eq_some htext,
        List.append_assoc, List.append_assoc]
      rfl
  | @header _ _ _ header _ _ _ handed _ _ hscan hnumber hbehind _ ih =>
      obtain ⟨t, hpass, hheader, hstopped⟩ := leads_scan hscan List.drop_zero calls
      obtain rfl := hstopped _ hnumber
      have hpos : 0 < header.size := Nat.zero_lt_of_lt (length_of_isHeader hheader)
      obtain ⟨calls', hrest, hcalls⟩ := ih (calls ++ handed.map .appendByte)
      refine ⟨calls', (hpass.trans (leads_strip hpos hbehind)).trans hrest, ?_⟩
      rw [hcalls, List.map_append, map_cut_appendByte, List.append_assoc]

end Loop

/-- **Where the passes of `update` come to an end, the steps return**, with the same buffer, the
same count and the same calls. -/
theorem leads_of_update {s t : InData} {events : List Event} (h : s.update = some (events, t)) :
    ∃ calls, LTS.Leads Loop.next s.start ⟨.returned, t.buffer, t.binaryBytesLeft, calls⟩ ∧
      calls.map Event.cut = events := by
  rw [update_eq] at h
  rw [start]
  by_cases hempty : s.moved.size = 0
  · rw [if_pos hempty] at h ⊢
    obtain ⟨rfl, rfl⟩ := Prod.mk.inj (Option.some.inj h)
    exact ⟨_, .head (.refl _), rfl⟩
  · rw [if_neg hempty] at h ⊢
    obtain ⟨r, hdrain, h⟩ := Option.map_eq_some_iff.mp h
    obtain ⟨rfl, rfl⟩ := Prod.mk.inj h
    exact Loop.leads_drain (drains_of_drain hdrain) []

/-! ## What the bytes decide -/

namespace Decoder

variable {d : Decoder} {b : UInt8} {bytes text behind : List UInt8}

/-- The text up to the end of the first answer or header, and the bytes behind it. -/
def cut (d : Decoder) : List UInt8 → Option (List UInt8 × List UInt8)
  | [] => none
  | b :: bs => if (d.step b).2.raw = [] then some (d.answer ++ [b], bs) else (d.step b).2.cut bs

theorem cut_of_fresh {left : ℕ} (h : (d.step b).2 = fresh left) :
    d.cut (b :: bytes) = some (d.answer ++ [b], bytes) := by
  rw [cut, h]
  exact if_pos rfl

theorem cut_of_kept (h : (d.step b).2.raw = d.raw ++ [b]) :
    d.cut (b :: bytes) = (d.step b).2.cut bytes := by
  rw [cut, if_neg]
  rw [h]
  exact List.append_ne_nil_of_right_ne_nil _ (List.cons_ne_nil b [])

theorem length_lt_of_cut (h : d.cut bytes = some (text, behind)) :
    behind.length < bytes.length ∧ 0 < text.length := by
  induction bytes generalizing d with
  | nil => exact absurd h (by simp [cut])
  | cons b bytes ih =>
      rw [cut] at h
      split at h
      · obtain ⟨rfl, rfl⟩ := Prod.mk.inj (Option.some.inj h)
        refine ⟨Nat.lt_succ_self _, ?_⟩
        rw [List.length_append]
        exact Nat.succ_pos _
      · obtain ⟨hbehind, htext⟩ := ih h
        exact ⟨hbehind.trans (Nat.lt_succ_self _), htext⟩

end Decoder

/-- **The bytes are orderly** behind a count of `left`: no header has a number that is too long for
`buf_number`, and no count goes below `INT_MIN`.  Behind an answer the bytes behind it are read;
a header takes off the leading control bytes and as many bytes as it has, from the front. -/
def Orderly (left : ℤ) (bytes : List UInt8) : Prop :=
  if left < 0 then ∀ k < bytes.length, left - k ≠ -2 ^ 31
  else
    match _hcut : (Decoder.fresh left.toNat).cut bytes with
    | none => True
    | some (text, behind) =>
        if isHeader text then
          (Decoder.number text).length < 32 ∧
            Orderly (toInt (strtoul (Decoder.number text)))
              ((bytes.dropWhile (· < 0x20)).drop text.length)
        else Orderly 0 behind
termination_by bytes.length
decreasing_by
  · obtain ⟨hbehind, htext⟩ := Decoder.length_lt_of_cut _hcut
    have hstrip : (bytes.dropWhile (· < 0x20)).length ≤ bytes.length := List.length_dropWhile_le _ _
    rw [List.length_drop]
    omega
  · exact (Decoder.length_lt_of_cut _hcut).1

section

variable {left : ℤ} {bytes text behind : List UInt8}

theorem orderly_of_neg (hneg : left < 0) :
    Orderly left bytes ↔ ∀ k < bytes.length, left - k ≠ -2 ^ 31 := by
  rw [Orderly, if_pos hneg]

theorem orderly_of_none (hneg : ¬ left < 0) (hcut : (Decoder.fresh left.toNat).cut bytes = none) :
    Orderly left bytes := by
  rw [Orderly, if_neg hneg]
  split
  · trivial
  · next h => exact absurd (hcut.symm.trans h) (by simp)

theorem orderly_of_some (hneg : ¬ left < 0)
    (hcut : (Decoder.fresh left.toNat).cut bytes = some (text, behind)) :
    Orderly left bytes ↔
      if isHeader text then
        (Decoder.number text).length < 32 ∧
          Orderly (toInt (strtoul (Decoder.number text)))
            ((bytes.dropWhile (· < 0x20)).drop text.length)
      else Orderly 0 behind := by
  rw [Orderly, if_neg hneg]
  split
  · next h => exact absurd (h.symm.trans hcut) (by simp)
  · next h =>
      obtain ⟨rfl, rfl⟩ := Prod.mk.inj (Option.some.inj (h.symm.trans hcut))
      rfl

end

namespace Loop

section

variable {s u : Loop} {i : ℕ} {answer buffer behind header : Buffer 2048} {left : ℤ}
  {calls : List Event} {rest : List UInt8} {d : Decoder} {P Q : Prop}

/-- From here `Update` returns if `P`, and leaves the language if not. -/
def EndsIf (s : Loop) (P : Prop) : Prop :=
  ∃ t, LTS.Leads next s t ∧ (P ∧ t.point = .returned ∨ ¬ P ∧ t.point = .undefined)

theorem EndsIf.of_leads (h : EndsIf u P) (hleads : LTS.Leads next s u) : EndsIf s P := by
  obtain ⟨t, hrest, hpoint⟩ := h
  exact ⟨t, hleads.trans hrest, hpoint⟩

theorem EndsIf.of_next (h : EndsIf u P) (hnext : next s = u) : EndsIf s P :=
  h.of_leads (.head (hnext ▸ .refl _))

theorem EndsIf.congr (h : EndsIf s P) (hiff : P ↔ Q) : EndsIf s Q := propext hiff ▸ h

theorem endsIf_of_undefined (hpoint : s.point = .undefined) (h : ¬ P) : EndsIf s P :=
  ⟨s, .refl s, .inr ⟨h, hpoint⟩⟩

theorem endsIf_passing (h : P) : EndsIf ⟨.passing answer false, buffer, left, calls⟩ P :=
  ⟨_, .head (.refl _), .inl ⟨h, rfl⟩⟩

/-- **A negative count** takes all bytes of the buffer for bytes of a packet. -/
theorem endsIf_of_neg (hneg : left < 0) (hrest : buffer.bytes.drop i = rest)
    (calls : List Event) :
    EndsIf ⟨.scanning i answer, buffer, left, calls⟩ (∀ k < rest.length, left - k ≠ -2 ^ 31) := by
  induction rest generalizing i left calls with
  | nil =>
      have hover : ¬ i < buffer.size := (List.drop_eq_nil_iff.mp hrest).not_gt
      have hnext : next ⟨.scanning i answer, buffer, left, calls⟩ =
          ⟨.passing answer false, buffer, left, calls⟩ := by
        rw [next_scanning, if_neg hover]
      have hend : EndsIf ⟨.passing answer false, buffer, left, calls⟩
          (∀ k < ([] : List UInt8).length, left - k ≠ -2 ^ 31) :=
        endsIf_passing fun k hk => absurd hk (Nat.not_lt_zero k)
      exact hend.of_next hnext
  | cons symbol rest ih =>
      obtain ⟨hnext, -, hdrop⟩ := @next_of_drop i answer buffer left calls symbol rest hrest
      unfold body at hnext
      simp only [if_pos hneg.ne] at hnext
      by_cases hleast : left = -2 ^ 31
      · rw [if_pos hleast] at hnext
        have hstray : EndsIf ⟨.undefined, buffer, left, calls⟩
            (∀ k < (symbol :: rest).length, left - k ≠ -2 ^ 31) :=
          endsIf_of_undefined rfl fun h => h 0 (Nat.succ_pos _) (by rw [hleast]; rfl)
        exact hstray.of_next hnext
      · rw [if_neg hleast] at hnext
        refine ((ih (by omega) hdrop _).of_next hnext).congr ?_
        rw [List.length_cons, Nat.forall_lt_succ_left]
        constructor
        · refine fun h => ⟨by simpa using hleast, fun k hk => ?_⟩
          have := h k hk
          push_cast
          omega
        · rintro ⟨-, h⟩ k hk
          have := h k hk
          push_cast at this
          omega

/-- Where the steps of a pass end, by what is cut off. -/
def Cut (s : Loop) (buffer : Buffer 2048) : Option (List UInt8 × List UInt8) → Prop
  | none => ∃ answer left calls, s = ⟨.passing answer false, buffer, left, calls⟩
  | some (text, behind) =>
      if isHeader text then
        if (Decoder.number text).length < 32 then
          ∃ header calls, header.bytes = text ∧
            s = ⟨.stripping header, buffer, toInt (strtoul (Decoder.number text)), calls⟩
        else s.point = .undefined
      else ∃ answer rest calls, rest.bytes = behind ∧ s = ⟨.passing answer true, rest, 0, calls⟩

/-- An answer that ends at position `i`. -/
theorem cut_of_remove {text : List UInt8} (hi : i < buffer.bytes.length)
    (hdrop : buffer.bytes.drop (i + 1) = rest) (htext : isHeader text = false) :
    (remove ⟨.scanning i answer, buffer, 0, calls⟩ (i + 1) (.passing header true)).Cut buffer
      (some (text, rest)) := by
  obtain ⟨behind, hremove, hbehind, -⟩ := @exists_remove
    ⟨.scanning i answer, buffer, 0, calls⟩ (i + 1) (.passing header true) (Nat.succ_pos i) hi
  rw [Cut, if_neg (by simp [htext]), hremove]
  exact ⟨header, behind, calls, hbehind.trans hdrop, rfl⟩

/-- **One symbol of a pass**: it is kept, or an answer or a header ends with it. -/
theorem kept_or_cut {symbol : UInt8} (hrest : buffer.bytes.drop i = symbol :: rest)
    (hanswer : answer.bytes = d.answer) (hroom : answer.bytes.length ≤ i) (calls : List Event) :
    (∃ answer' calls', next ⟨.scanning i answer, buffer, d.left, calls⟩ =
          ⟨.scanning (i + 1) answer', buffer, (d.step symbol).2.left, calls'⟩ ∧
        answer'.bytes = (d.step symbol).2.answer ∧ answer'.bytes.length ≤ i + 1 ∧
        d.cut (symbol :: rest) = (d.step symbol).2.cut rest) ∨
      (next ⟨.scanning i answer, buffer, d.left, calls⟩).Cut buffer (d.cut (symbol :: rest)) := by
  obtain ⟨hnext, hget, hdrop⟩ := @next_of_drop i answer buffer d.left calls symbol rest hrest
  have hi : i < buffer.bytes.length := by
    by_contra hle
    rw [List.drop_eq_nil_of_le (Nat.le_of_not_lt hle)] at hrest
    exact List.cons_ne_nil _ _ hrest.symm
  have hpush : (answer.push symbol).1.bytes = answer.bytes ++ [symbol] :=
    Buffer.push_of_lt ((hroom.trans_lt hi).trans_le buffer.size_le)
  by_cases hleft : d.left ≠ 0
  · -- a byte of a packet
    have hstep := Decoder.step_payload (b := symbol) hleft
    unfold body at hnext
    simp only [hget] at hnext
    rw [if_pos (Nat.cast_ne_zero.mpr hleft), if_neg (by omega)] at hnext
    have hcast : ((d.left - 1 : ℕ) : ℤ) = (d.left : ℤ) - 1 := by omega
    refine .inl ⟨answer, calls ++ [.appendByte symbol], ?_, ?_, hroom.trans (Nat.le_succ i),
      Decoder.cut_of_kept (by rw [hstep])⟩
    · rw [hnext, hstep, hcast]
    · rw [hstep]
      exact hanswer
  have hleft := not_not.mp hleft
  have hlast : ∀ b, b ≠ 0x3A → isHeader (d.answer ++ [b]) = false :=
    fun b hb => Bool.eq_false_iff.mpr fun h => hb (last_of_isHeader h)
  by_cases hheader : isHeader (d.answer ++ [symbol]) = true
  · -- the colon of a header
    obtain rfl := last_of_isHeader hheader
    have hfresh : (d.step 0x3A).2 =
        Decoder.fresh (strtoul (Decoder.number (d.answer ++ [0x3A]))) := by
      rw [Decoder.step_text hleft (by decide) (by decide) (by decide), if_pos hheader]
    have hzero : (d.left : ℤ) = 0 := Nat.cast_eq_zero.mpr hleft
    rw [Decoder.cut_of_fresh hfresh]
    right
    rw [hnext, body_of_isHeader hzero (by rw [hget, hpush])
      (by rw [hget, hanswer]; exact hheader), hget, hanswer, Cut, if_pos hheader]
    split
    · exact ⟨_, calls, by rw [hpush, hanswer], rfl⟩
    · rfl
  unfold body at hnext
  simp only [hget, hleft, Nat.cast_zero, ne_eq, not_true_eq_false, if_false] at hnext
  rw [hleft, Nat.cast_zero]
  by_cases hskip : symbol = 0x0A ∨ symbol = 0x0D ∧ d.answer = []
  · have hstep := Decoder.step_skip hleft hskip
    refine .inl ⟨answer, calls, ?_, ?_, hroom.trans (Nat.le_succ i),
      Decoder.cut_of_kept (by rw [hstep])⟩
    · rw [hnext, hstep, hleft, Nat.cast_zero]
      rcases hskip with rfl | ⟨rfl, hempty⟩
      · rw [if_pos rfl]
      · have hsize : answer.size = 0 := by rw [Buffer.size_eq, hanswer, hempty, List.length_nil]
        rw [if_neg (by decide), if_pos rfl, if_pos hsize]
    · rw [hstep]
      exact hanswer
  obtain ⟨hlf, hcr⟩ := not_or.mp hskip
  rw [if_neg hlf] at hnext
  by_cases hb : symbol = 0x0D
  · -- the end of a line
    subst hb
    have hne : d.answer ≠ [] := fun hempty => hcr ⟨rfl, hempty⟩
    rw [if_pos rfl, if_neg (by simpa [hanswer] using hne)] at hnext
    rw [Decoder.cut_of_fresh (congrArg Prod.snd (Decoder.step_cr hleft hne)), hnext]
    exact .inr (cut_of_remove hi hdrop (hlast _ (by decide)))
  rw [if_neg hb] at hnext
  by_cases hprompt : symbol = 0x3E
  · subst hprompt
    rw [if_pos rfl] at hnext
    rw [Decoder.cut_of_fresh (congrArg Prod.snd (Decoder.step_prompt hleft)), hnext]
    exact .inr (cut_of_remove hi hdrop (hlast _ (by decide)))
  · rw [if_neg hprompt, hpush, hanswer, if_neg hheader] at hnext
    have hstep := Decoder.step_text hleft hlf hb hprompt
    rw [if_neg hheader] at hstep
    refine .inl ⟨(answer.push symbol).1, calls, ?_, ?_, ?_, Decoder.cut_of_kept (by rw [hstep])⟩
    · rw [hnext, hstep, hleft, Nat.cast_zero]
    · rw [hstep, hpush, hanswer]
    · rw [hpush, List.length_append, List.length_singleton]
      exact Nat.succ_le_succ hroom

/-- **A pass ends where the `Decoder` cuts.** -/
theorem leads_cut (hrest : buffer.bytes.drop i = rest) (hanswer : answer.bytes = d.answer)
    (hroom : answer.bytes.length ≤ i) (calls : List Event) :
    ∃ t, LTS.Leads next ⟨.scanning i answer, buffer, d.left, calls⟩ t ∧
      t.Cut buffer (d.cut rest) := by
  induction rest generalizing i answer d calls with
  | nil =>
      have hover : ¬ i < buffer.size := (List.drop_eq_nil_iff.mp hrest).not_gt
      refine ⟨_, .head (.refl _), answer, d.left, calls, ?_⟩
      rw [next_scanning, if_neg hover]
  | cons symbol rest ih =>
      obtain ⟨-, -, hdrop⟩ := @next_of_drop i answer buffer d.left calls symbol rest hrest
      rcases kept_or_cut hrest hanswer hroom calls with
        ⟨answer', calls', hnext, hanswer', hroom', hkept⟩ | hcut
      · obtain ⟨t, hleads, hcut⟩ := ih hdrop hanswer' hroom' calls'
        exact ⟨t, .head (hnext ▸ hleads), hkept ▸ hcut⟩
      · exact ⟨_, .head (.refl _), hcut⟩

/-- Behind the leading control bytes the header is still there. -/
theorem sublist_strip (hsub : header.bytes.Sublist buffer.bytes)
    (hheader : isHeader header.bytes = true) : header.bytes.Sublist (strip buffer).bytes := by
  obtain ⟨tail, htail⟩ := exists_header_bytes hheader
  rw [bytes_strip]
  generalize buffer.bytes = bytes at hsub
  induction bytes with
  | nil => exact hsub
  | cons b bytes ih =>
      by_cases hlow : b < 0x20
      · rw [List.dropWhile_cons_of_pos (by simpa using hlow)]
        apply ih
        rw [htail] at hsub ⊢
        rcases List.sublist_cons_iff.mp hsub with h | ⟨tail', htail', -⟩
        · exact h
        · obtain ⟨rfl, -⟩ := List.cons.inj htail'
          exact absurd hlow (by decide)
      · rw [List.dropWhile_cons_of_neg (by simpa using hlow)]
        exact hsub

/-- **`Update` returns if the bytes are orderly**, and leaves the language if they are not. -/
theorem endsIf_orderly (buffer : Buffer 2048) (left : ℤ) (calls : List Event) :
    EndsIf ⟨.scanning 0 .clear, buffer, left, calls⟩ (Orderly left buffer.bytes) := by
  induction hsize : buffer.bytes.length using Nat.strongRecOn generalizing buffer left calls with
  | ind size ih =>
  by_cases hneg : left < 0
  · exact (endsIf_of_neg hneg List.drop_zero calls).congr (orderly_of_neg hneg).symm
  have hcast : ((Decoder.fresh left.toNat).left : ℤ) = left := Int.toNat_of_nonneg (not_lt.mp hneg)
  obtain ⟨t, hleads, hcut⟩ := @leads_cut 0 .clear buffer buffer.bytes (Decoder.fresh left.toNat)
    List.drop_zero rfl (Nat.le_refl 0) calls
  rw [hcast] at hleads
  have hinv : t.Inv :=
    hleads.invariant ⟨List.nil_sublist _, Nat.zero_le _⟩ fun _ => inv_next
  refine EndsIf.of_leads ?_ hleads
  cases hfound : (Decoder.fresh left.toNat).cut buffer.bytes with
  | none =>
      rw [hfound] at hcut
      obtain ⟨answer, left', calls', rfl⟩ := hcut
      exact endsIf_passing (orderly_of_none hneg hfound)
  | some found =>
      obtain ⟨text, behind⟩ := found
      obtain ⟨hless, hpos⟩ := Decoder.length_lt_of_cut hfound
      have hiff := orderly_of_some hneg hfound
      rw [hfound, Cut] at hcut
      by_cases hheader : isHeader text = true
      · rw [if_pos hheader] at hcut hiff
        by_cases hnumber : (Decoder.number text).length < 32
        · rw [if_pos hnumber] at hcut
          obtain ⟨header, calls', rfl, rfl⟩ := hcut
          have hsub := sublist_strip hinv.1 hheader
          obtain ⟨behind', hremove⟩ : ∃ behind', (strip buffer).removeFirst header.size =
              some behind' := ⟨_, if_pos hsub.length_le⟩
          have hbytes := Buffer.bytes_removeFirst hremove
          have hshort : behind'.bytes.length < size := by
            rw [← hsize]
            exact (length_removeFirst_lt hpos hremove).trans_le (List.length_dropWhile_le _ _)
          have hrest := ih _ hshort behind' (toInt (strtoul (Decoder.number header.bytes)))
            calls' rfl
          refine (hrest.of_leads (leads_strip hpos hremove)).congr ?_
          rw [hiff, hbytes]
          exact (and_iff_right hnumber).symm
        · rw [if_neg hnumber] at hcut
          exact endsIf_of_undefined hcut fun h => hnumber (hiff.mp h).1
      · rw [if_neg hheader] at hcut hiff
        obtain ⟨answer, rest, calls', rfl, rfl⟩ := hcut
        have hrest := ih _ (hsize ▸ hless) rest 0 (calls' ++ [.update answer.bytes]) rfl
        exact (hrest.of_next rfl).congr hiff.symm

end

end Loop

/-! ## Safety -/

/-- The state behind `n` steps of `InData::Update`. -/
def loopAt (s : InData) (n : ℕ) : Loop := Loop.next^[n] s.start

theorem inv_loopAt (s : InData) (n : ℕ) : (s.loopAt n).Inv := by
  have hleads : LTS.Leads Loop.next s.start (s.loopAt n) := ⟨n, rfl⟩
  exact hleads.invariant (Loop.inv_start s) fun _ => Loop.inv_next

/-- **The steps come to an end**, in whatever order the bytes are. -/
theorem exists_ended (s : InData) : ∃ n, (s.loopAt n).Ended := by
  apply LTS.exists_final Loop.measure (Loop.inv_start s)
  · exact fun _ => Loop.inv_next
  · exact fun _ hinv => (Loop.turn_next hinv).imp_right Loop.Turn.measure_lt

/-- At the end nothing changes any more. -/
theorem loopAt_of_ended {s : InData} {n m : ℕ} (h : (s.loopAt n).Ended) (hle : n ≤ m) :
    s.loopAt m = s.loopAt n :=
  LTS.iterate_of_le hle (Loop.next_of_ended h)

/-- From what the language leaves undefined there is no way back. -/
theorem not_returned_of_undefined {s : InData} {n : ℕ} (h : (s.loopAt n).point = .undefined)
    (m : ℕ) : (s.loopAt m).point ≠ .returned := by
  intro hreturned
  have hsame : s.loopAt n = s.loopAt m := by
    rcases Nat.le_total n m with hle | hle
    · exact (loopAt_of_ended (.inr h) hle).symm
    · exact loopAt_of_ended (.inl hreturned) hle
  rw [hsame, hreturned] at h
  exact Point.noConfusion h

/-- **`InData::Update` is safe**: it returns, never holds more than its buffers can, never removes
more than there is, and tests only bytes of the buffer in the `while` loop. -/
structure Safe (s : InData) : Prop where
  returns : ∃ n, (s.loopAt n).point = .returned
  buffer : ∀ n, (s.loopAt n).buffer.size ≤ 2048
  answer : ∀ n answer, (s.loopAt n).point.answer = some answer → answer.size ≤ 2048
  removes : ∀ n, (s.loopAt n).point ≠ .overdrawn
  strips : ∀ n header, (s.loopAt n).point = .stripping header → (s.loopAt n).buffer.size ≠ 0

theorem ne_overdrawn_loopAt (s : InData) (n : ℕ) : (s.loopAt n).point ≠ .overdrawn := by
  intro hpoint
  have hinv := inv_loopAt s n
  rw [Loop.Inv, hpoint] at hinv
  exact hinv

/-- The `while` loop finds a byte that is not below `0x20` before the buffer is empty. -/
theorem size_ne_zero_of_stripping {s : InData} {n : ℕ} {header : Buffer 2048}
    (hpoint : (s.loopAt n).point = .stripping header) : (s.loopAt n).buffer.size ≠ 0 := by
  have hinv := inv_loopAt s n
  rw [Loop.Inv, hpoint] at hinv
  obtain ⟨b, rest, hbytes, -⟩ := Loop.exists_stripped hinv.1 hinv.2
  rw [Buffer.size_eq, hbytes]
  exact List.cons_ne_nil b rest ∘ List.eq_nil_of_length_eq_zero

/-- `Update` returns if what it finds in `buffer`, once `main` has been moved there, is orderly. -/
theorem endsIf_start (s : InData) : s.start.EndsIf (Orderly s.binaryBytesLeft s.moved.bytes) := by
  rw [start]
  by_cases hempty : s.moved.size = 0
  · have hnil : s.moved.bytes = [] := List.eq_nil_of_length_eq_zero hempty
    rw [if_pos hempty]
    apply Loop.endsIf_passing
    rw [hnil]
    by_cases hneg : s.binaryBytesLeft < 0
    · exact (orderly_of_neg hneg).mpr fun k hk => absurd hk (Nat.not_lt_zero k)
    · exact orderly_of_none hneg rfl
  · rw [if_neg hempty]
    exact Loop.endsIf_orderly s.moved s.binaryBytesLeft []

/-- **When `InData::Update` is safe**: if and only if the bytes of `buffer` and of `main` behind it
are orderly, behind the count that is left. -/
theorem safe_iff (s : InData) : s.Safe ↔ Orderly s.binaryBytesLeft s.moved.bytes := by
  obtain ⟨t, ⟨n, rfl⟩, hend⟩ := s.endsIf_start
  rcases hend with ⟨horderly, hreturned⟩ | ⟨hdisorder, hundefined⟩
  · refine iff_of_true ?_ horderly
    exact {
      returns := ⟨n, hreturned⟩
      buffer := fun n => (s.loopAt n).buffer.size_le
      answer := fun n answer _ => answer.size_le
      removes := ne_overdrawn_loopAt s
      strips := fun n header hpoint => size_ne_zero_of_stripping hpoint }
  · refine iff_of_false (fun hsafe => ?_) hdisorder
    obtain ⟨m, hreturned⟩ := hsafe.returns
    exact not_returned_of_undefined hundefined m hreturned

/-- A header with forty digits. -/
def longNumber : InData :=
  { boot with
    buffer := (Buffer.clear.append (ascii "+IPD," ++ List.replicate 40 0x30 ++ [0x3A])).1 }

/-- **The number of a header is copied whatever its length.** -/
theorem not_safe_longNumber : ¬ ∀ s : InData, s.Safe := by
  intro hsafe
  have hundefined : (longNumber.loopAt 46).point = .undefined := by decide +kernel
  obtain ⟨m, hreturned⟩ := (hsafe longNumber).returns
  exact not_returned_of_undefined hundefined m hreturned

end USKD.InData
