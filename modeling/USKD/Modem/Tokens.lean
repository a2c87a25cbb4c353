import Mathlib.Data.List.Infix
import USKD.Modem.Scanner

/-!
# A stream without headers

Without a `+IPD` header the stream is text, and `tokenise` says what its tokens are: LF is
dropped, CR ends a token that is not empty, `>` ends a token and belongs to it.  It reads
every byte once and knows nothing of pieces.

The decoder of the stream is this tokeniser as long as no incomplete token is a header
(`Tokenises`), so that `call_decodes` gives the answers of every sequence of calls.  What
`SIM868::Update` receives is a C string: a token is cut at its first zero byte.
-/

namespace USKD.InData

open Decoder Transducer

/-- One byte, `token` being incomplete: the tokens it completes, and the incomplete one
behind it. -/
def tokenStep (token : List UInt8) (b : UInt8) : List (List UInt8) × List UInt8 :=
  if b = 0x0A then ([], token)
  else if b = 0x0D then (if token = [] then [] else [token], [])
  else if b = 0x3E then ([token ++ [b]], [])
  else ([], token ++ [b])

/-- The tokens of a stream, and the incomplete token at its end. -/
def tokenise (token : List UInt8) : List UInt8 → List (List UInt8) × List UInt8
  | [] => ([], token)
  | b :: bs =>
      ((tokenStep token b).1 ++ (tokenise (tokenStep token b).2 bs).1,
        (tokenise (tokenStep token b).2 bs).2)

/-- No incomplete token of the stream is a header. -/
def HeaderFree (token stream : List UInt8) : Prop :=
  ∀ pre, pre <+: stream → isHeader (tokenise token pre).2 = false

/-- The C strings of the tokens that are not empty. -/
def strings (tokens : List (List UInt8)) : List (List UInt8) :=
  (tokens.map beforeZero).filter (· ≠ [])

theorem HeaderFree.step {token bs : List UInt8} {b : UInt8} (h : HeaderFree token (b :: bs)) :
    isHeader (tokenStep token b).2 = false ∧ HeaderFree (tokenStep token b).2 bs := by
  constructor
  · exact h [b] ⟨bs, rfl⟩
  · rintro pre ⟨post, rfl⟩
    exact h (b :: pre) ⟨post, rfl⟩

/-- The decoder reads text, and its answer is the incomplete token. -/
structure Tokenises (token : List UInt8) (d : Decoder) : Prop where
  answer : d.answer = token
  left : d.left = 0
  stale : d.stale = false

variable {token : List UInt8} {d : Decoder} {b : UInt8}

theorem tokenises_fresh : Tokenises [] (fresh 0) := ⟨rfl, rfl, rfl⟩

/-- A byte that completes no header leaves the scanner in step, if its answer fits. -/
theorem Tokenises.takes (h : Tokenises token d) (hb : isHeader (tokenStep token b).2 = false)
    (hroom : d.answer.length + 2 ≤ 2048) : d.Takes b := by
  refine ⟨fun _ _ => hroom, fun _ hheader => ?_⟩
  -- the last byte of a header is text, so that the header would be the token
  obtain rfl := last_of_isHeader hheader
  rw [h.answer] at hheader
  rw [show (tokenStep token 0x3A).2 = token ++ [0x3A] from rfl, hheader] at hb
  exact absurd hb (by decide)

/-- **One byte**: the decoder reports the token that the tokeniser completes. -/
theorem Tokenises.step (h : Tokenises token d) (hb : isHeader (tokenStep token b).2 = false) :
    Tokenises (tokenStep token b).2 (d.step b).2 ∧
      (d.step b).1 = (tokenStep token b).1.map fun token => .update (beforeZero token) := by
  obtain ⟨rfl, hleft, hstale⟩ := h
  by_cases hlf : b = 0x0A
  · subst hlf
    rw [step_skip hleft (.inl rfl)]
    exact ⟨⟨rfl, hleft, hstale⟩, rfl⟩
  by_cases hcr : b = 0x0D
  · subst hcr
    by_cases hempty : d.answer = []
    · rw [step_skip hleft (.inr ⟨rfl, hempty⟩)]
      have htoken : tokenStep d.answer 0x0D = ([], []) := by
        rw [tokenStep, if_neg (by decide), if_pos rfl, if_pos hempty]
      rw [htoken]
      exact ⟨⟨hempty, hleft, hstale⟩, rfl⟩
    · rw [step_cr hleft hempty]
      unfold tokenStep
      rw [if_neg (by decide), if_pos rfl, if_neg hempty]
      exact ⟨tokenises_fresh, rfl⟩
  by_cases hprompt : b = 0x3E
  · subst hprompt
    rw [step_prompt hleft]
    exact ⟨tokenises_fresh, rfl⟩
  · have htoken : tokenStep d.answer b = ([], d.answer ++ [b]) := by
      rw [tokenStep, if_neg hlf, if_neg hcr, if_neg hprompt]
    rw [htoken] at hb ⊢
    rw [step_text hleft hlf hcr hprompt, if_neg (by rw [hb]; decide)]
    exact ⟨⟨rfl, hleft, hstale⟩, rfl⟩

theorem length_raw_step (d : Decoder) (b : UInt8) :
    (d.step b).2.raw.length ≤ d.raw.length + 1 := by
  unfold Decoder.step
  repeat' split
  all_goals
    first
    | exact Nat.zero_le _
    | exact (List.length_append).le

/-- **A stretch of the stream** that fits the buffer. -/
theorem Tokenises.decode {bs : List UInt8} (h : Tokenises token d) (hsettled : d.Settled)
    (hheader : HeaderFree token bs) (hroom : d.raw.length + bs.length ≤ 2047) :
    d.TakesAll bs ∧ Tokenises (tokenise token bs).2 (d.decode bs).2 ∧
      (d.decode bs).1 = (tokenise token bs).1.map fun token => .update (beforeZero token) := by
  induction bs generalizing token d with
  | nil => exact ⟨trivial, h, rfl⟩
  | cons b bs ih =>
      obtain ⟨hb, hrest⟩ := hheader.step
      rw [List.length_cons] at hroom
      have hlength := hsettled.length
      have htakes : d.Takes b := h.takes hb (by omega)
      obtain ⟨hstep, hevents⟩ := h.step hb
      have hraw := length_raw_step d b
      obtain ⟨htakesAll, htokens, hdecode⟩ :=
        ih hstep (hsettled.step htakes) hrest (by omega)
      refine ⟨⟨htakes, htakesAll⟩, htokens, ?_⟩
      rw [decode_cons, hevents, hdecode, tokenise, List.map_append]

theorem strings_append (tokens tokens' : List (List UInt8)) :
    strings (tokens ++ tokens') = strings tokens ++ strings tokens' := by
  unfold strings
  rw [List.map_append, List.filter_append]

/-- The answers among the events of tokens. -/
theorem answers_tokens (tokens : List (List UInt8)) :
    answers (visible (tokens.map fun token => .update (beforeZero token))) = strings tokens := by
  have hmap : (tokens.map fun token => Event.update (beforeZero token)) =
      (tokens.map beforeZero).map .update := by
    rw [List.map_map]
    rfl
  rw [hmap, answers_visible, answers_map_update]
  rfl

theorem tokenise_append (token bs cs : List UInt8) :
    tokenise token (bs ++ cs) =
      ((tokenise token bs).1 ++ (tokenise (tokenise token bs).2 cs).1,
        (tokenise (tokenise token bs).2 cs).2) := by
  induction bs generalizing token with
  | nil => rfl
  | cons b bs ih =>
      rw [List.cons_append, tokenise, ih, tokenise]
      simp only [List.append_assoc]

theorem HeaderFree.append {bs cs : List UInt8} (h : HeaderFree token (bs ++ cs)) :
    HeaderFree token bs ∧ HeaderFree (tokenise token bs).2 cs := by
  constructor
  · intro pre hpre
    exact h pre (hpre.trans (List.prefix_append bs cs))
  · intro pre hpre
    have hall := h (bs ++ pre) ((List.prefix_append_right_inj bs).mpr hpre)
    rwa [tokenise_append] at hall

/-- **The calls pass the tokens**, one call after the other. -/
theorem feed_call_tokens {s : InData} (pieces : List (Buffer 2048)) (h : Follows s d)
    (htoken : Tokenises token d) (hheader : HeaderFree token (pieces.flatMap Buffer.bytes))
    (hpending : PendingLe 2047 s pieces) :
    ∃ outputs t, feed call s pieces = some (outputs, t) ∧
      answers (visible outputs.flatten) =
        strings (tokenise token (pieces.flatMap Buffer.bytes)).1 := by
  induction pieces generalizing s d token with
  | nil => exact ⟨[], s, rfl, rfl⟩
  | cons piece pieces ih =>
      rw [List.flatMap_cons] at hheader ⊢
      obtain ⟨hfirst, hrest⟩ := hheader.append
      have hroom := hpending [] piece pieces rfl [] s rfl
      have hfits : d.raw.length + piece.bytes.length ≤ 2047 := by
        rw [← h.buffer]
        exact hroom
      obtain ⟨htakes, htoken', hdecode⟩ := htoken.decode h.settled hfirst hfits
      obtain ⟨events, t, hcall, hfollows, hevents⟩ :=
        call_decodes h htoken.stale (hroom.trans (by decide)) htakes
      obtain ⟨outputs, u, hfeed, hanswers⟩ := ih hfollows htoken' hrest (hpending.tail hcall)
      refine ⟨events :: outputs, u, ?_, ?_⟩
      · rw [feed_cons_of_eq hcall, hfeed]
        rfl
      · rw [List.flatten_cons, visible_append, answers_append, hevents, hdecode, answers_tokens,
          hanswers, tokenise_append, strings_append]

/-- **What `SIM868::Update` receives depends on the stream only**, and is its tokens, read as
C strings: for every way to cut a stream without headers into pieces, as long as less than
2048 bytes are pending. -/
theorem answers_eq_strings (pieces : List (Buffer 2048))
    (hheader : HeaderFree [] (pieces.flatMap Buffer.bytes))
    (hpending : PendingLe 2047 boot pieces) :
    ∃ outputs t, feed call boot pieces = some (outputs, t) ∧
      (answers outputs.flatten).filter (· ≠ []) =
        strings (tokenise [] (pieces.flatMap Buffer.bytes)).1 := by
  obtain ⟨outputs, t, hfeed, hanswers⟩ :=
    feed_call_tokens pieces follows_boot tokenises_fresh hheader hpending
  exact ⟨outputs, t, hfeed, by rw [← hanswers, answers_visible]⟩

/-- `OK` CR in two pieces. -/
theorem answers_eq_strings_ok :
    ∃ outputs t, feed call boot [⟨[0x4F], by decide⟩, ⟨[0x4B, 0x0D], by decide⟩] =
        some (outputs, t) ∧
      (answers outputs.flatten).filter (· ≠ []) =
        strings (tokenise [] [0x4F, 0x4B, 0x0D]).1 := by
  refine answers_eq_strings [⟨[0x4F], by decide⟩, ⟨[0x4B, 0x0D], by decide⟩] ?_
    (pendingLe_of_sum (by decide))
  have hall : ∀ pre ∈ List.inits [0x4F, 0x4B, 0x0D], isHeader (tokenise [] pre).2 = false := by
    decide
  exact fun pre hpre => hall pre ((List.mem_inits _ _).mpr hpre)

/-- **A zero byte cuts a token**: of `A`, zero, `B` only `A` is passed. -/
theorem not_answers_eq_tokens_zero :
    ∃ outputs t, feed call boot [⟨[0x41, 0, 0x42, 0x0D], by decide⟩] = some (outputs, t) ∧
      (answers outputs.flatten).filter (· ≠ []) ≠ (tokenise [] [0x41, 0, 0x42, 0x0D]).1 := by
  refine ⟨_, _, rfl, ?_⟩
  decide

end USKD.InData
