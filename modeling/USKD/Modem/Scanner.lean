import USKD.Lib.Feed
import USKD.Modem.Decoder

/-!
# The scanner follows the decoder

`drain_decodes` is about one call: on a buffer whose bytes leave the scanner in step
(`Decoder.TakesAll`), `drain` reports what the decoder reports, and keeps in the buffer
what the decoder has not seen the end of.  The induction is on the fuel over the passes
and, inside a pass, on the rest of the buffer.

`feed_calls_decodes` lifts it to a sequence of calls: over pieces that do not disturb the
scanner (`Decoder.Undisturbed`), the calls together report what the decoder reports over
the concatenation of the pieces.
-/

namespace USKD.InData

open Decoder Transducer

/-! ## One call -/

theorem finish_answer {next : Buffer 2048 → ℤ → Option (List Event × Buffer 2048 × ℤ)}
    {buffer answer behind : Buffer 2048} {count : ℕ} {text : List UInt8} (left : ℤ)
    (htext : cString answer.bytes = some text) (hremove : buffer.removeFirst count = some behind) :
    finish next buffer ⟨[], left, .answer answer count⟩ =
      (next behind left).map fun q => ([.update text] ++ q.1, q.2) := by
  simp only [finish, htext, hremove, Option.bind_eq_bind, Option.bind_some]
  cases next behind left <;> rfl

theorem finish_header {next : Buffer 2048 → ℤ → Option (List Event × Buffer 2048 × ℤ)}
    {buffer answer behind : Buffer 2048} {number : ℤ} (left : ℤ)
    (hnumber : headerNumber answer.bytes = some number)
    (hremove : (strip buffer).removeFirst answer.size = some behind) :
    finish next buffer ⟨[], left, .header answer⟩ =
      (next behind number).map fun q => ([] ++ q.1, q.2) := by
  simp only [finish, hnumber, hremove, Option.bind_eq_bind, Option.bind_some]
  cases next behind number <;> rfl

/-- A handed byte is the first event of the pass. -/
theorem finish_hand (next : Buffer 2048 → ℤ → Option (List Event × Buffer 2048 × ℤ))
    (buffer : Buffer 2048) (symbol : UInt8) (pass : Pass) :
    finish next buffer (pass.hand symbol) =
      (finish next buffer pass).map fun r => (.appendByte symbol :: r.1, r.2) := by
  obtain ⟨handed, left, outcome⟩ := pass
  have hbind : ∀ {α : Type} (o : Option α)
      (f : α → Option (List Event × Buffer 2048 × ℤ)),
      (o.bind fun a => (f a).map fun r => (Event.appendByte symbol :: r.1, r.2)) =
        (o.bind f).map fun r => (.appendByte symbol :: r.1, r.2) := by
    rintro α (_ | a) f <;> rfl
  cases outcome with
  | exhausted => rfl
  | answer answer count => simp only [finish, Pass.hand, Option.bind_eq_bind, ← hbind]; rfl
  | header answer => simp only [finish, Pass.hand, Option.bind_eq_bind, ← hbind]; rfl

theorem removeFirst_of_eq {buffer : Buffer 2048} {front rest : List UInt8}
    (h : buffer.bytes = front ++ rest) :
    ∃ b, buffer.removeFirst front.length = some b ∧ b.bytes = rest := by
  refine ⟨_, by rw [Buffer.removeFirst, if_pos (by simp [h])], ?_⟩
  simp [h]

/-- What a call owes to the decoder: its events up to the final empty answer, the bytes
it keeps, and the count. -/
def Decodes (r : Option (List Event × Buffer 2048 × ℤ)) (d : Decoder) (bytes : List UInt8) : Prop :=
  ∃ b : Buffer 2048,
    r = some ((d.decode bytes).1 ++ [.update []], b, ((d.decode bytes).2.left : ℤ)) ∧
      b.bytes = (d.decode bytes).2.raw

/-- An answer or a header: the turn of the loop behind it decodes the rest. -/
theorem Decodes.next {r : Option (List Event × Buffer 2048 × ℤ)} {d : Decoder} {b : UInt8}
    {rest : List UInt8} {left : ℕ} {events : List Event}
    (hstep : d.step b = (events, fresh left)) (h : Decodes r (fresh left) rest) :
    Decodes (r.map fun q => (events ++ q.1, q.2)) d (b :: rest) := by
  obtain ⟨buf, rfl, hbuf⟩ := h
  refine ⟨buf, ?_, ?_⟩
  · rw [decode_cons, hstep]
    simp
  · rw [decode_cons, hstep]
    exact hbuf

/-- A byte that is kept as text: the pass goes on. -/
theorem Decodes.keep {r : Option (List Event × Buffer 2048 × ℤ)} {d d' : Decoder} {b : UInt8}
    {rest : List UInt8} (hstep : d.step b = ([], d')) (h : Decodes r d' rest) :
    Decodes r d (b :: rest) := by
  obtain ⟨buf, rfl, hbuf⟩ := h
  refine ⟨buf, ?_, ?_⟩
  · rw [decode_cons, hstep]
    rfl
  · rw [decode_cons, hstep]
    exact hbuf

/-- A packet byte: the rest of the pass decodes the rest. -/
theorem Decodes.hand {next : Buffer 2048 → ℤ → Option (List Event × Buffer 2048 × ℤ)}
    {buffer : Buffer 2048} {pass : Option Pass} {d d' : Decoder} {b : UInt8} {rest : List UInt8}
    (hstep : d.step b = ([.appendByte b], d'))
    (h : Decodes (pass.bind (finish next buffer)) d' rest) :
    Decodes ((pass.map (Pass.hand b)).bind (finish next buffer)) d (b :: rest) := by
  obtain ⟨buf, hbuf, hraw⟩ := h
  obtain ⟨pass, rfl, hfinish⟩ := Option.bind_eq_some_iff.mp hbuf
  refine ⟨buf, ?_, ?_⟩
  · rw [decode_cons, hstep, Option.map_some, Option.bind_some, finish_hand, hfinish]
    rfl
  · rw [decode_cons, hstep]
    exact hraw

/-- The turns with less than `fuel` bytes before them decode what they find. -/
def TurnsDecode (fuel : ℕ) : Prop :=
  ∀ (b : Buffer 2048) (left : ℕ), b.bytes.length < fuel → (fresh left).TakesAll b.bytes →
    Decodes (drain fuel b left) (fresh left) b.bytes

/-- An answer that ends with the byte `b`. -/
theorem TurnsDecode.answer {fuel : ℕ} (hnext : TurnsDecode fuel) {buffer ended : Buffer 2048}
    {d : Decoder} {b : UInt8} {rest text : List UInt8}
    (hfront : buffer.bytes = (d.raw ++ [b]) ++ rest) (hfuel : buffer.bytes.length ≤ fuel)
    (htext : cString ended.bytes = some text) (hstep : d.step b = ([.update text], fresh 0))
    (hrest : (d.step b).2.TakesAll rest) :
    Decodes (finish (drain fuel) buffer ⟨[], 0, .answer ended (d.raw.length + 1)⟩) d
      (b :: rest) := by
  have hremove := removeFirst_of_eq hfront
  rw [List.length_append, List.length_singleton] at hremove
  obtain ⟨behind, hbehind, hbytes⟩ := hremove
  have hlen : buffer.bytes.length = d.raw.length + (rest.length + 1) := by simp [hfront]
  rw [hstep] at hrest
  have hturn := hnext behind 0 (by rw [hbytes]; omega) (by rw [hbytes]; exact hrest)
  rw [hbytes] at hturn
  rw [finish_answer _ htext hbehind]
  exact Decodes.next hstep hturn

/-- A header that is complete with the byte `b`. -/
theorem TurnsDecode.header {fuel left : ℕ} (hnext : TurnsDecode fuel)
    {buffer header : Buffer 2048} {d : Decoder} {b : UInt8} {rest : List UInt8}
    (hstrip : (strip buffer).bytes = header.bytes ++ rest) (hfuel : rest.length < fuel)
    (hnumber : headerNumber header.bytes = some (left : ℤ)) (hstep : d.step b = ([], fresh left))
    (hrest : (d.step b).2.TakesAll rest) :
    Decodes (finish (drain fuel) buffer ⟨[], 0, .header header⟩) d (b :: rest) := by
  obtain ⟨behind, hbehind, hbytes⟩ := removeFirst_of_eq hstrip
  rw [hstep] at hrest
  have hturn := hnext behind left (by rw [hbytes]; exact hfuel) (by rw [hbytes]; exact hrest)
  rw [hbytes] at hturn
  rw [finish_header _ hnumber hbehind]
  exact Decodes.next hstep hturn

/-- **A pass that has read `d.raw` and has `rest` before it decodes `rest`**, if the
following turns decode what they find. -/
theorem finish_scan_decodes {fuel : ℕ} (hnext : TurnsDecode fuel) (buffer : Buffer 2048)
    (hfuel : buffer.bytes.length ≤ fuel) (rest : List UInt8) (d : Decoder) (answer : Buffer 2048)
    (hbuffer : buffer.bytes = d.raw ++ rest) (hanswer : answer.bytes = d.answer)
    (hlength : d.answer.length ≤ d.raw.length) (htakes : d.TakesAll rest) :
    Decodes ((scan d.raw.length answer d.left rest).bind (finish (drain fuel) buffer)) d rest := by
  have hsize := buffer.size_le
  induction rest generalizing d answer with
  | nil =>
      refine ⟨buffer, by simp [scan, finish], ?_⟩
      simpa using hbuffer
  | cons b rest ih =>
      have hlen : d.raw.length + (rest.length + 1) = buffer.bytes.length := by simp [hbuffer]
      have hroom : answer.bytes.length < 2048 := by rw [hanswer]; omega
      have hfront : buffer.bytes = (d.raw ++ [b]) ++ rest := by simp [hbuffer]
      obtain ⟨htake, hrest⟩ := htakes
      by_cases hleft : d.left = 0
      · rw [scan, if_neg (by simp [hleft])]
        by_cases hskip : b = 0x0A ∨ b = 0x0D ∧ d.answer = []
        · have hstep := step_skip hleft hskip
          refine Decodes.keep hstep ?_
          rw [hstep] at hrest
          have hpass := ih { d with raw := d.raw ++ [b] } answer hfront hanswer
            (by simp only [List.length_append]; omega) hrest
          simp only [List.length_append, List.length_singleton] at hpass
          rcases hskip with rfl | ⟨rfl, hempty⟩
          · rwa [if_pos rfl]
          · rwa [if_neg (by decide), if_pos rfl, if_pos (by simp [hanswer, hempty])]
        obtain ⟨hlf, hcr⟩ := not_or.mp hskip
        rw [if_neg hlf]
        by_cases hb : b = 0x0D
        · subst hb
          have hne : d.answer ≠ [] := fun hempty => hcr ⟨rfl, hempty⟩
          have htext : cString (answer.push 0).1.bytes = some (beforeZero d.answer) := by
            rw [Buffer.push_of_lt hroom, hanswer, cString_append_zero]
          rw [if_pos rfl, if_neg (by simpa [hanswer] using hne), hleft, Option.bind_some]
          exact hnext.answer hfront hfuel htext (step_cr hleft hne) hrest
        rw [if_neg hb]
        by_cases hprompt : b = 0x3E
        · subst hprompt
          have hfit := htake.prompt hleft rfl
          have htext : cString (((answer.push 0x3E).1.push 0).1).bytes =
              some (beforeZero (d.answer ++ [0x3E])) := by
            rw [Buffer.push_of_lt (by rw [Buffer.push_of_lt hroom]; simp [hanswer]; omega),
              Buffer.push_of_lt hroom, hanswer, cString_append_zero]
          rw [if_pos rfl, hleft, Option.bind_some]
          exact hnext.answer hfront hfuel htext (step_prompt hleft) hrest
        rw [if_neg hprompt]
        have hpush : (answer.push b).1.bytes = d.answer ++ [b] := by
          rw [Buffer.push_of_lt hroom, hanswer]
        have hstep := step_text hleft hlf hb hprompt
        rw [hpush]
        by_cases hheader : isHeader (d.answer ++ [b])
        · rw [if_pos hheader] at hstep
          obtain ⟨hdrop, hdigits, hint⟩ := htake.header hleft hheader
          -- the strip stops at the header, as the header starts with `+`
          have hstrip : (strip buffer).bytes = (answer.push b).1.bytes ++ rest := by
            rw [hpush, bytes_strip, hfront, List.dropWhile_append, hdrop, if_neg (by simp)]
          have hnumber : headerNumber (answer.push b).1.bytes =
              some (strtoul (number (d.answer ++ [b])) : ℤ) := by
            rw [hpush, headerNumber_eq, if_pos hdigits, toInt_of_lt hint]
          rw [if_pos hheader, hleft, Option.bind_some]
          exact hnext.header hstrip (by omega) hnumber hstep hrest
        · rw [if_neg hheader] at hstep
          rw [hstep] at hrest
          refine Decodes.keep hstep ?_
          have hpass := ih { d with answer := d.answer ++ [b], raw := d.raw ++ [b] }
            (answer.push b).1 hfront hpush (by simp; omega) hrest
          simp only [List.length_append, List.length_singleton] at hpass
          rwa [if_neg hheader]
      · -- a packet byte
        have hstep := step_payload (b := b) hleft
        rw [hstep] at hrest
        have hpass := ih { d with left := d.left - 1, raw := d.raw ++ [b], stale := true } answer
          hfront hanswer (by simp only [List.length_append]; omega) hrest
        have hcast : ((d.left - 1 : ℕ) : ℤ) = (d.left : ℤ) - 1 := by omega
        simp only [List.length_append, List.length_singleton, hcast] at hpass
        rw [scan, if_pos (by omega), if_neg (by omega)]
        exact Decodes.hand hstep hpass

/-- **One call decodes its buffer.** -/
theorem drain_decodes (fuel : ℕ) (buffer : Buffer 2048) (left : ℕ)
    (hfuel : buffer.bytes.length < fuel) (htakes : (fresh left).TakesAll buffer.bytes) :
    Decodes (drain fuel buffer left) (fresh left) buffer.bytes := by
  induction fuel generalizing buffer left with
  | zero => omega
  | succ fuel ih =>
      rw [drain]
      exact finish_scan_decodes ih buffer (by omega) buffer.bytes (fresh left) .clear rfl rfl
        (Nat.le_refl _) htakes

/-- While packet bytes are expected, the first byte of the buffer is handed on first. -/
theorem drain_of_left {fuel : ℕ} {buffer : Buffer 2048} {left : ℤ} {b : UInt8} {bs : List UInt8}
    {events : List Event} {r : Buffer 2048 × ℤ} (hleft : left ≠ 0) (hbytes : buffer.bytes = b :: bs)
    (h : drain (fuel + 1) buffer left = some (events, r)) : ∃ es, events = .appendByte b :: es := by
  rw [drain, hbytes, scan, if_pos hleft] at h
  split at h
  · exact absurd h (by simp)
  · rw [Option.bind_map, Option.bind_eq_some_iff] at h
    obtain ⟨pass, -, h⟩ := h
    rw [Function.comp_apply, finish_hand, Option.map_eq_some_iff] at h
    obtain ⟨q, -, h⟩ := h
    obtain ⟨rfl, -⟩ := Prod.mk.inj h
    exact ⟨q.1, rfl⟩

/-! ## A sequence of calls -/

/-- One call of `InData::Update`, `piece` having been received since the last one. -/
def call (s : InData) (piece : Buffer 2048) : Option (List Event × InData) :=
  update { s with main := piece }

/-- What the following code can see: a call without an answer passes the empty string. -/
def visible (events : List Event) : List Event := events.filter (· ≠ .update [])

@[simp] theorem visible_append (es es' : List Event) :
    visible (es ++ es') = visible es ++ visible es' := List.filter_append ..

theorem visible_update {answer : List UInt8} (h : answer ≠ []) :
    visible [.update answer] = [.update answer] :=
  List.filter_cons_of_pos (by simpa using h)

/-- The bytes handed to `PBD::AppendByte`. -/
def handed (events : List Event) : List UInt8 :=
  events.filterMap fun
    | .appendByte b => some b
    | .update _ => none

/-- The answers handed to `SIM868::Update`. -/
def answers (events : List Event) : List (List UInt8) :=
  events.filterMap fun
    | .appendByte _ => none
    | .update answer => some answer

@[simp] theorem handed_append (es es' : List Event) :
    handed (es ++ es') = handed es ++ handed es' :=
  List.filterMap_append

@[simp] theorem answers_append (es es' : List Event) :
    answers (es ++ es') = answers es ++ answers es' := List.filterMap_append

@[simp] theorem handed_map_appendByte (bs : List UInt8) : handed (bs.map .appendByte) = bs := by
  simp [handed, List.filterMap_map]

@[simp] theorem answers_map_appendByte (bs : List UInt8) : answers (bs.map .appendByte) = [] := by
  simp [answers, List.filterMap_map]

@[simp] theorem handed_map_update (as : List (List UInt8)) : handed (as.map .update) = [] := by
  simp [handed, List.filterMap_map]

@[simp] theorem answers_map_update (as : List (List UInt8)) : answers (as.map .update) = as := by
  simp [answers, List.filterMap_map]

theorem handed_visible (es : List Event) : handed (visible es) = handed es := by
  induction es with
  | nil => rfl
  | cons e es ih =>
      cases e with
      | appendByte b => simpa [handed, visible] using ih
      | update a =>
          by_cases ha : a = []
          · simpa [handed, visible, ha] using ih
          · simpa [handed, visible, ha] using ih

theorem answers_visible (es : List Event) :
    answers (visible es) = (answers es).filter (· ≠ []) := by
  induction es with
  | nil => rfl
  | cons e es ih =>
      cases e with
      | appendByte b => simpa [answers, visible] using ih
      | update a =>
          by_cases ha : a = []
          · simpa [answers, visible, ha] using ih
          · simpa [answers, visible, ha] using ih

/-- The scanner between two calls, and the decoder behind the same stream. -/
structure Follows (s : InData) (d : Decoder) : Prop where
  buffer : s.buffer.bytes = d.raw
  left : s.binaryBytesLeft = d.left
  settled : d.Settled

theorem follows_boot : Follows boot (fresh 0) := ⟨rfl, rfl, settled_fresh 0⟩

/-- **One call follows the decoder** over the bytes it receives. -/
theorem call_decodes {s : InData} {d : Decoder} (h : Follows s d) (hstale : d.stale = false)
    {piece : Buffer 2048} (hroom : s.buffer.size + piece.size ≤ 2048)
    (htakes : d.TakesAll piece.bytes) :
    ∃ events t, call s piece = some (events, t) ∧ Follows t (d.decode piece.bytes).2 ∧
      visible events = visible (d.decode piece.bytes).1 := by
  have hcall : call s piece = _ := update_eq { s with main := piece }
  have hbuffer := bytes_moved (s := { s with main := piece }) hroom
  simp only [h.buffer] at hbuffer
  generalize moved { s with main := piece } = buffer at hcall hbuffer
  -- reading the kept bytes again brings the scanner to where the decoder is
  have hkept := h.settled.decode hstale
  have hall : (fresh d.left).TakesAll buffer.bytes := by
    rw [hbuffer, takesAll_append, hkept]
    exact ⟨h.settled.takes hstale, htakes⟩
  have hdecode : (fresh d.left).decode buffer.bytes = d.decode piece.bytes := by
    rw [hbuffer, decode_append, hkept]
    rfl
  have hsettled := h.settled.decodeAll htakes
  by_cases hempty : buffer.size = 0
  · have hnil : d.raw = [] ∧ piece.bytes = [] := by simpa [hbuffer] using hempty
    refine ⟨_, _, by rw [hcall, if_pos hempty], ⟨?_, ?_, hsettled⟩, ?_⟩
    · simp [hbuffer, hnil]
    · simpa [hnil] using h.left
    · simp [visible, hnil]
  · obtain ⟨b, hdrain, hraw⟩ :=
      drain_decodes (buffer.size + 1) buffer d.left (Nat.lt_succ_self _) hall
    rw [hdecode] at hdrain hraw
    refine ⟨_, _, by rw [hcall, if_neg hempty, h.left, hdrain]; rfl, ⟨hraw, rfl, hsettled⟩, ?_⟩
    simp [visible]

/-- At each of the calls at most `n` bytes are pending. -/
def PendingLe (n : ℕ) (s : InData) (pieces : List (Buffer 2048)) : Prop :=
  ∀ pre piece post, pieces = pre ++ piece :: post → ∀ outputs t,
    feed call s pre = some (outputs, t) → t.buffer.size + piece.size ≤ n

theorem PendingLe.tail {n : ℕ} {s t : InData} {piece : Buffer 2048} {pieces : List (Buffer 2048)}
    {events : List Event} (h : PendingLe n s (piece :: pieces))
    (hcall : call s piece = some (events, t)) : PendingLe n t pieces := by
  rintro pre piece' post rfl outputs u hfeed
  refine h (piece :: pre) piece' post rfl (events :: outputs) u ?_
  rw [feed_cons_of_eq hcall, hfeed]
  rfl

/-- In each of the calls the new bytes find room in the buffer. -/
def NeverFull (s : InData) (pieces : List (Buffer 2048)) : Prop :=
  ∀ pre piece post, pieces = pre ++ piece :: post → ∀ outputs t,
    feed call s pre = some (outputs, t) → t.buffer.size + piece.size ≤ 2048

theorem NeverFull.tail {s t : InData} {piece : Buffer 2048} {pieces : List (Buffer 2048)}
    {events : List Event} (h : NeverFull s (piece :: pieces))
    (hcall : call s piece = some (events, t)) : NeverFull t pieces :=
  PendingLe.tail h hcall

/-- **The calls together decode the stream**, however it is cut, as long as the cuts do
not disturb the scanner. -/
theorem feed_calls_decodes {s : InData} {d : Decoder} (h : Follows s d)
    (pieces : List (Buffer 2048)) (hstale : pieces ≠ [] → d.stale = false)
    (hroom : NeverFull s pieces) (hcuts : d.Undisturbed (pieces.map Buffer.bytes)) :
    ∃ outputs t, feed call s pieces = some (outputs, t) ∧
      Follows t (d.decode (pieces.flatMap Buffer.bytes)).2 ∧
      visible outputs.flatten = visible (d.decode (pieces.flatMap Buffer.bytes)).1 := by
  induction pieces generalizing s d with
  | nil => exact ⟨[], s, rfl, h, rfl⟩
  | cons piece pieces ih =>
      obtain ⟨htakes, hcut, hrest⟩ := hcuts
      obtain ⟨events, t, hcall, hfollows, hevents⟩ := call_decodes h (hstale (by simp))
        (hroom [] piece pieces rfl [] s rfl) htakes
      obtain ⟨outputs, u, hfeed, hu, houtputs⟩ := ih hfollows (fun hne => hcut (by simpa using hne))
        (hroom.tail hcall) hrest
      refine ⟨events :: outputs, u, by rw [feed_cons_of_eq hcall, hfeed]; rfl, ?_, ?_⟩
      · rw [List.flatMap_cons, decode_append]
        exact hu
      · rw [List.flatMap_cons, decode_append, List.flatten_cons, visible_append, visible_append,
          hevents, houtputs]

/-! ## Room in the buffer -/

/-- A call keeps at most what it finds. -/
theorem drain_length_le {fuel : ℕ} {buffer : Buffer 2048} {left : ℤ} {events : List Event}
    {r : Buffer 2048 × ℤ} (h : Drains fuel buffer left events r) :
    r.1.bytes.length ≤ buffer.bytes.length := by
  have hremoved : ∀ {b b' : Buffer 2048} {n : ℕ}, b.removeFirst n = some b' →
      b'.bytes.length ≤ b.bytes.length := by
    intro b b' n hb
    rw [Buffer.bytes_removeFirst hb]
    exact (List.drop_sublist _ _).length_le
  induction h with
  | exhausted => exact Nat.le_refl _
  | answer _ _ hbehind _ ih => exact ih.trans (hremoved hbehind)
  | header _ _ hbehind _ ih =>
      exact ih.trans ((hremoved hbehind).trans (List.length_dropWhile_le _ _))

theorem call_length_le {s t : InData} {piece : Buffer 2048} {events : List Event}
    (h : call s piece = some (events, t)) :
    t.buffer.size ≤ s.buffer.size + piece.size := by
  have hle : (moved { s with main := piece }).bytes.length ≤
      s.buffer.bytes.length + piece.bytes.length := by
    by_cases hroom : s.buffer.size + piece.size ≤ 2048
    · rw [bytes_moved (s := { s with main := piece }) hroom, List.length_append]
    · have := (moved { s with main := piece }).size_le
      simp only [Buffer.size_eq] at hroom
      omega
  rw [call, update_eq] at h
  generalize moved { s with main := piece } = buffer at h hle
  split at h
  · obtain ⟨-, rfl⟩ := Prod.mk.inj (Option.some.inj h)
    exact hle
  · obtain ⟨r, hr, h⟩ := Option.map_eq_some_iff.mp h
    obtain ⟨-, rfl⟩ := Prod.mk.inj h
    exact (drain_length_le (drains_of_drain hr)).trans hle

/-- Never more is pending than was received as a whole. -/
theorem pendingLe_of_sum {n : ℕ} {pieces : List (Buffer 2048)}
    (h : (pieces.map Buffer.size).sum ≤ n) : PendingLe n boot pieces := by
  have hkept : ∀ (pre : List (Buffer 2048)) (s t : InData) (outputs : List (List Event)),
      feed call s pre = some (outputs, t) →
        t.buffer.size ≤ s.buffer.size + (pre.map Buffer.size).sum := by
    intro pre
    induction pre with
    | nil =>
        intro s t outputs hfeed
        obtain ⟨-, rfl⟩ := Prod.mk.inj (Option.some.inj hfeed)
        simp
    | cons piece pre ih =>
        intro s t outputs hfeed
        rw [feed_cons, Option.bind_eq_some_iff] at hfeed
        obtain ⟨⟨events, u⟩, hcall, hfeed⟩ := hfeed
        obtain ⟨⟨outputs', t'⟩, hrest, hfeed⟩ := Option.map_eq_some_iff.mp hfeed
        obtain ⟨-, rfl⟩ := Prod.mk.inj hfeed
        have hfirst := call_length_le hcall
        have hbehind := ih u t' outputs' hrest
        simp only [List.map_cons, List.sum_cons]
        omega
  rintro pre piece post rfl outputs t hfeed
  have := hkept pre boot t outputs hfeed
  have hboot : boot.buffer.size = 0 := rfl
  rw [List.map_append, List.map_cons, List.sum_append, List.sum_cons] at h
  omega

/-- A stream that fits the buffer as a whole never fills it. -/
theorem neverFull_of_sum {pieces : List (Buffer 2048)}
    (h : (pieces.map Buffer.size).sum ≤ 2048) : NeverFull boot pieces :=
  pendingLe_of_sum h

end USKD.InData
