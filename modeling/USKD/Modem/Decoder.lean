import USKD.Modem.InData

/-!
# The stream decoder

What the stream of the modem means, byte by byte and with no buffer: a `Decoder` holds
the answer read so far and the number of packet bytes still to come.  It says what
`InData::Update` is for, whichever way the stream is cut into calls.

Two more fields do not influence the meaning.  `raw` is what the stream has brought since
the last answer or header was complete, and `stale` says whether a packet byte is part of
it.  `Takes` and `Undisturbed` use them to say when the scanner of `InData` works like
the decoder: it keeps `raw` in its buffer, and reads it again in the next call.
-/

namespace USKD.InData

/-- The state of the stream. -/
structure Decoder where
  answer : List UInt8
  left : ℕ
  raw : List UInt8
  stale : Bool
deriving DecidableEq

namespace Decoder

/-- The state behind an answer (`left = 0`) or a header. -/
def fresh (left : ℕ) : Decoder := ⟨[], left, [], false⟩

/-- The characters of a header between its comma and its colon. -/
def number (answer : List UInt8) : List UInt8 := (answer.drop 5).takeWhile (· ≠ 0x3A)

theorem headerNumber_eq (answer : List UInt8) : headerNumber answer =
    if (number answer).length < 32 then some (toInt (strtoul (number answer))) else none := rfl

/-- One byte of the stream. -/
def step (d : Decoder) (b : UInt8) : List Event × Decoder :=
  if d.left ≠ 0 then
    ([.appendByte b], { d with left := d.left - 1, raw := d.raw ++ [b], stale := true })
  else if b = 0x0A then ([], { d with raw := d.raw ++ [b] })
  else if b = 0x0D then
    if d.answer = [] then ([], { d with raw := d.raw ++ [b] })
    else ([.update (beforeZero d.answer)], fresh 0)
  else if b = 0x3E then ([.update (beforeZero (d.answer ++ [b]))], fresh 0)
  else if isHeader (d.answer ++ [b]) then ([], fresh (strtoul (number (d.answer ++ [b]))))
  else ([], { d with answer := d.answer ++ [b], raw := d.raw ++ [b] })

section

variable {d : Decoder} {b : UInt8}

theorem step_payload (h : d.left ≠ 0) :
    d.step b =
      ([.appendByte b], { d with left := d.left - 1, raw := d.raw ++ [b], stale := true }) := by
  rw [step, if_pos h]

/-- LF, and CR before any text, are only kept. -/
theorem step_skip (h : d.left = 0) (hb : b = 0x0A ∨ b = 0x0D ∧ d.answer = []) :
    d.step b = ([], { d with raw := d.raw ++ [b] }) := by
  rw [step, if_neg (not_not.mpr h)]
  rcases hb with rfl | ⟨rfl, hempty⟩
  · rw [if_pos rfl]
  · rw [if_neg (by decide), if_pos rfl, if_pos hempty]

theorem step_cr (h : d.left = 0) (hanswer : d.answer ≠ []) :
    d.step 0x0D = ([.update (beforeZero d.answer)], fresh 0) := by
  rw [step, if_neg (not_not.mpr h), if_neg (by decide), if_pos rfl, if_neg hanswer]

theorem step_prompt (h : d.left = 0) :
    d.step 0x3E = ([.update (beforeZero (d.answer ++ [0x3E]))], fresh 0) := by
  rw [step, if_neg (not_not.mpr h), if_neg (by decide), if_neg (by decide), if_pos rfl]

/-- A byte of text that is not LF, CR or `>` completes a header or extends the answer. -/
theorem step_text (h : d.left = 0) (hlf : b ≠ 0x0A) (hcr : b ≠ 0x0D) (hprompt : b ≠ 0x3E) :
    d.step b =
      if isHeader (d.answer ++ [b]) then ([], fresh (strtoul (number (d.answer ++ [b]))))
      else ([], { d with answer := d.answer ++ [b], raw := d.raw ++ [b] }) := by
  rw [step, if_neg (not_not.mpr h), if_neg hlf, if_neg hcr, if_neg hprompt]

end

/-- The events of a stretch of the stream, and the state behind it. -/
def decode (d : Decoder) : List UInt8 → List Event × Decoder
  | [] => ([], d)
  | b :: bs => ((d.step b).1 ++ (decode (d.step b).2 bs).1, (decode (d.step b).2 bs).2)

@[simp] theorem decode_nil (d : Decoder) : d.decode [] = ([], d) := rfl

theorem decode_cons (d : Decoder) (b : UInt8) (bs : List UInt8) :
    d.decode (b :: bs) =
      ((d.step b).1 ++ ((d.step b).2.decode bs).1, ((d.step b).2.decode bs).2) := rfl

theorem decode_append (d : Decoder) (bs cs : List UInt8) :
    d.decode (bs ++ cs) =
      ((d.decode bs).1 ++ ((d.decode bs).2.decode cs).1, ((d.decode bs).2.decode cs).2) := by
  induction bs generalizing d with
  | nil => rfl
  | cons b bs ih =>
      rw [List.cons_append, decode_cons, ih, decode_cons]
      simp only [List.append_assoc]

/-! ## When the scanner can follow -/

/-- **The byte leaves the scanner in step**: a `>` does not end an answer that fills its
array of 2048, and a header is what the buffer holds behind leading control bytes, with a
number that fits `buf_number` and `int`. -/
structure Takes (d : Decoder) (b : UInt8) : Prop where
  prompt : d.left = 0 → b = 0x3E → d.answer.length + 2 ≤ 2048
  header : d.left = 0 → isHeader (d.answer ++ [b]) →
    (d.raw ++ [b]).dropWhile (· < 0x20) = d.answer ++ [b] ∧
      (number (d.answer ++ [b])).length < 32 ∧ strtoul (number (d.answer ++ [b])) < 2 ^ 31

/-- Every byte of a stretch does. -/
def TakesAll (d : Decoder) : List UInt8 → Prop
  | [] => True
  | b :: bs => d.Takes b ∧ TakesAll (d.step b).2 bs

theorem takesAll_append (d : Decoder) (bs cs : List UInt8) :
    d.TakesAll (bs ++ cs) ↔ d.TakesAll bs ∧ (d.decode bs).2.TakesAll cs := by
  induction bs generalizing d with
  | nil => simp [TakesAll]
  | cons b bs ih =>
      rw [List.cons_append, TakesAll, TakesAll, ih, decode_cons, and_assoc]

theorem takesAll_iff (d : Decoder) {bs : List UInt8} :
    d.TakesAll bs ↔ ∀ pre b post, bs = pre ++ b :: post → (d.decode pre).2.Takes b := by
  constructor
  · rintro h pre b post rfl
    exact ((takesAll_append d pre (b :: post)).mp h).2.1
  · intro h
    induction bs generalizing d with
    | nil => trivial
    | cons b bs ih =>
        refine ⟨h [] b bs rfl, ih (d.step b).2 ?_⟩
        rintro pre c post rfl
        exact h (b :: pre) c post rfl

/-- **The cut stream does not disturb the scanner**: in each call every byte leaves it in
step, and no packet byte is left in the buffer for a following call. -/
def Undisturbed (d : Decoder) : List (List UInt8) → Prop
  | [] => True
  | piece :: pieces =>
      d.TakesAll piece ∧ (pieces ≠ [] → (d.decode piece).2.stale = false) ∧
        Undisturbed (d.decode piece).2 pieces

instance (d : Decoder) (b : UInt8) : Decidable (d.Takes b) :=
  decidable_of_iff
    ((d.left = 0 → b = 0x3E → d.answer.length + 2 ≤ 2048) ∧
      (d.left = 0 → isHeader (d.answer ++ [b]) →
        (d.raw ++ [b]).dropWhile (· < 0x20) = d.answer ++ [b] ∧
          (number (d.answer ++ [b])).length < 32 ∧ strtoul (number (d.answer ++ [b])) < 2 ^ 31))
    ⟨fun h => ⟨h.1, h.2⟩, fun h => ⟨h.prompt, h.header⟩⟩

instance decidableTakesAll : ∀ (bs : List UInt8) (d : Decoder), Decidable (d.TakesAll bs)
  | [], _ => .isTrue trivial
  | b :: bs, d =>
      haveI := decidableTakesAll bs (d.step b).2
      inferInstanceAs (Decidable (d.Takes b ∧ (d.step b).2.TakesAll bs))

instance decidableUndisturbed :
    ∀ (pieces : List (List UInt8)) (d : Decoder), Decidable (d.Undisturbed pieces)
  | [], _ => .isTrue trivial
  | piece :: pieces, d =>
      haveI := decidableUndisturbed pieces (d.decode piece).2
      inferInstanceAs (Decidable (d.TakesAll piece ∧
        (pieces ≠ [] → (d.decode piece).2.stale = false) ∧
          Undisturbed (d.decode piece).2 pieces))

theorem Undisturbed.takesAll {d : Decoder} {pieces : List (List UInt8)}
    (h : d.Undisturbed pieces) : d.TakesAll pieces.flatten := by
  induction pieces generalizing d with
  | nil => trivial
  | cons piece pieces ih =>
      rw [List.flatten_cons, takesAll_append]
      exact ⟨h.1, ih h.2.2⟩

/-! ## Reading the kept bytes again -/

/-- Without packet bytes among them, the kept bytes lead from the last complete answer or
header to where the decoder is, and nothing is reported on the way. -/
structure Settled (d : Decoder) : Prop where
  length : d.answer.length ≤ d.raw.length
  decode : d.stale = false → (fresh d.left).decode d.raw = ([], d)
  takes : d.stale = false → (fresh d.left).TakesAll d.raw

theorem settled_fresh (left : ℕ) : (fresh left).Settled :=
  ⟨Nat.le_refl _, fun _ => rfl, fun _ => trivial⟩

/-- A byte that is kept as text keeps the decoder settled. -/
theorem Settled.keep {d d' : Decoder} {b : UInt8} (h : d.Settled) (htakes : d.Takes b)
    (hleft : d'.left = d.left) (hraw : d'.raw = d.raw ++ [b]) (hstale : d'.stale = d.stale)
    (hlength : d'.answer.length ≤ d.answer.length + 1) (hstep : d.step b = ([], d')) :
    d'.Settled where
  length := by
    have := h.length
    rw [hraw, List.length_append, List.length_singleton]
    omega
  decode hs := by
    rw [hleft, hraw, decode_append, h.decode (hstale ▸ hs), decode_cons, hstep]
    rfl
  takes hs := by
    rw [hleft, hraw, takesAll_append, h.decode (hstale ▸ hs)]
    exact ⟨h.takes (hstale ▸ hs), htakes, trivial⟩

theorem Settled.step {d : Decoder} {b : UInt8} (h : d.Settled) (htakes : d.Takes b) :
    (d.step b).2.Settled := by
  by_cases hleft : d.left = 0
  · by_cases hskip : b = 0x0A ∨ b = 0x0D ∧ d.answer = []
    · rw [step_skip hleft hskip]
      exact h.keep htakes rfl rfl rfl (Nat.le_succ _) (step_skip hleft hskip)
    obtain ⟨hlf, hcr⟩ := not_or.mp hskip
    by_cases hb : b = 0x0D
    · subst hb
      rw [step_cr hleft (fun hempty => hcr ⟨rfl, hempty⟩)]
      exact settled_fresh 0
    by_cases hprompt : b = 0x3E
    · subst hprompt
      rw [step_prompt hleft]
      exact settled_fresh 0
    have hstep := step_text hleft hlf hb hprompt
    by_cases hheader : isHeader (d.answer ++ [b])
    · rw [hstep, if_pos hheader]
      exact settled_fresh _
    · rw [if_neg hheader] at hstep
      rw [hstep]
      exact h.keep htakes rfl rfl rfl (by simp) hstep
  · -- a packet byte: the kept bytes are stale
    rw [step_payload hleft]
    refine ⟨?_, fun hs => absurd hs (by simp), fun hs => absurd hs (by simp)⟩
    have := h.length
    simp only [List.length_append, List.length_singleton]
    omega

theorem Settled.decodeAll {d : Decoder} {bs : List UInt8} (h : d.Settled)
    (htakes : d.TakesAll bs) : (d.decode bs).2.Settled := by
  induction bs generalizing d with
  | nil => exact h
  | cons b bs ih => exact ih (h.step htakes.1) htakes.2

end Decoder

end USKD.InData
