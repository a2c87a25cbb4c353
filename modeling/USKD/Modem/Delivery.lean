import Mathlib.Data.Bool.AllAny
import Mathlib.Data.List.Infix
import Mathlib.Tactic.FinCases
import USKD.Modem.Scanner

/-!
# Delivery of the packet bytes

The modem sends text lines and segments `+IPD,<n>:` with `n` packet bytes behind them
(`Item`).  `Delivered` is what the calls of `InData::Update` owe to the part of such a
stream they have received: the bytes handed to `PBD::AppendByte` are the packet bytes,
in order and once each, and the answers are read from the text alone.

`decode_items` says that the stream decoder does this for every part of a stream.
`delivered_of_undisturbed` is the same for the calls, as long as the cuts and the headers
leave the scanner undisturbed.
-/

namespace USKD.InData

open Decoder Transducer

/-! ## Text -/

/-- **The answers in a text**, read from `answer` on, and the text that is still open: LF
is dropped, CR ends an answer that is not empty, `>` ends an answer and belongs to it. -/
def readText : List UInt8 → List UInt8 → List (List UInt8) × List UInt8
  | answer, [] => ([], answer)
  | answer, b :: bs =>
      if b = 0x0A then readText answer bs
      else if b = 0x0D then
        if answer = [] then readText [] bs else (answer :: (readText [] bs).1, (readText [] bs).2)
      else if b = 0x3E then ((answer ++ [b]) :: (readText [] bs).1, (readText [] bs).2)
      else readText (answer ++ [b]) bs

theorem readText_append (answer bs cs : List UInt8) :
    readText answer (bs ++ cs) =
      ((readText answer bs).1 ++ (readText (readText answer bs).2 cs).1,
        (readText (readText answer bs).2 cs).2) := by
  induction bs generalizing answer with
  | nil => rfl
  | cons b bs ih =>
      rw [List.cons_append, readText, readText]
      by_cases hlf : b = 0x0A
      · simp only [if_pos hlf, ih]
      by_cases hcr : b = 0x0D
      · by_cases hempty : answer = []
        · simp only [if_neg hlf, if_pos hcr, if_pos hempty, ih]
        · simp only [if_neg hlf, if_pos hcr, if_neg hempty, ih, List.cons_append]
      by_cases hprompt : b = 0x3E
      · simp only [if_neg hlf, if_neg hcr, if_pos hprompt, ih, List.cons_append]
      · simp only [if_neg hlf, if_neg hcr, if_neg hprompt, ih]

/-- The text nowhere looks like a complete header. -/
def Plain (answer text : List UInt8) : Prop :=
  ∀ pre, pre <+: text → ¬ isHeader (readText answer pre).2

instance (answer text : List UInt8) : Decidable (Plain answer text) :=
  decidable_of_iff (∀ pre ∈ text.inits, ¬ isHeader (readText answer pre).2)
    (forall_congr' fun pre => by rw [List.mem_inits])

theorem Plain.mono {answer text pre : List UInt8} (h : Plain answer text)
    (hpre : pre <+: text) : Plain answer pre :=
  fun pre' hpre' => h pre' (hpre'.trans hpre)

theorem Plain.tail {answer bs : List UInt8} {b : UInt8} (h : Plain answer (b :: bs)) :
    Plain (readText answer [b]).2 bs := by
  intro pre hpre
  have hlong := h (b :: pre) (by simpa using hpre)
  rwa [← List.singleton_append, readText_append] at hlong

/-- **The decoder reads a plain text as text.** -/
theorem decode_text {text : List UInt8} {d : Decoder} (hleft : d.left = 0)
    (hplain : Plain d.answer text) :
    (d.decode text).1 = ((readText d.answer text).1.map beforeZero).map .update ∧
      (d.decode text).2.answer = (readText d.answer text).2 ∧ (d.decode text).2.left = 0 := by
  induction text generalizing d with
  | nil => exact ⟨rfl, rfl, hleft⟩
  | cons b bs ih =>
      have hone := hplain [b] (by simp)
      have hrest := hplain.tail
      by_cases hskip : b = 0x0A ∨ b = 0x0D ∧ d.answer = []
      · have hstay : ∀ bs, readText d.answer (b :: bs) = readText d.answer bs := fun bs => by
          rcases hskip with rfl | ⟨rfl, hempty⟩ <;> simp [readText, *]
        rw [hstay] at hrest
        obtain ⟨hevents, hanswer, hzero⟩ := @ih { d with raw := d.raw ++ [b] } hleft hrest
        rw [decode_cons, step_skip hleft hskip, hstay]
        exact ⟨hevents, hanswer, hzero⟩
      obtain ⟨hlf, hcr⟩ := not_or.mp hskip
      by_cases hb : b = 0x0D
      · subst hb
        have hne : d.answer ≠ [] := fun hempty => hcr ⟨rfl, hempty⟩
        simp only [readText, if_neg hlf, if_true, if_neg hne] at hrest ⊢
        obtain ⟨hevents, hanswer, hzero⟩ := @ih (fresh 0) rfl hrest
        rw [decode_cons, step_cr hleft hne]
        exact ⟨congrArg (_ :: ·) hevents, hanswer, hzero⟩
      by_cases hprompt : b = 0x3E
      · subst hprompt
        simp only [readText, if_neg hlf, if_neg hb, if_true] at hrest ⊢
        obtain ⟨hevents, hanswer, hzero⟩ := @ih (fresh 0) rfl hrest
        rw [decode_cons, step_prompt hleft]
        exact ⟨congrArg (_ :: ·) hevents, hanswer, hzero⟩
      · simp only [readText, if_neg hlf, if_neg hb, if_neg hprompt] at hone hrest ⊢
        have hstep := step_text hleft hlf hb hprompt
        rw [if_neg hone] at hstep
        obtain ⟨hevents, hanswer, hzero⟩ :=
          @ih { d with answer := d.answer ++ [b], raw := d.raw ++ [b] } hleft hrest
        rw [decode_cons, hstep]
        exact ⟨hevents, hanswer, hzero⟩

/-- Text that is plain, without `>`, leaves the scanner in step. -/
theorem takesAll_text {text : List UInt8} {d : Decoder} (hleft : d.left = 0)
    (hplain : Plain d.answer text) (hprompt : (0x3E : UInt8) ∉ text) : d.TakesAll text := by
  refine d.takesAll_iff.mpr ?_
  rintro pre b post rfl
  obtain ⟨-, hanswer, -⟩ := decode_text hleft (hplain.mono (List.prefix_append pre (b :: post)))
  refine ⟨fun _ hb => ?_, fun _ hheader => ?_⟩
  · exact absurd (by simp [hb]) hprompt
  · -- a header is complete at its colon, which is a character of the text
    obtain rfl := last_of_isHeader hheader
    refine absurd ?_ (hplain (pre ++ [0x3A]) ⟨post, by simp⟩)
    rw [readText_append]
    rw [hanswer] at hheader
    simpa [readText] using hheader

/-! ## Segments -/

/-- The header of a segment, without its colon. -/
def headerText (n : ℕ) : List UInt8 := ascii "+IPD," ++ decimal n

/-- The characters of a header are read as text. -/
theorem readText_headerText {n : ℕ} {pre : List UInt8} (h : pre <+: headerText n) :
    readText [] pre = ([], pre) ∧ (0x3A : UInt8) ∉ pre := by
  have hchars : ∀ b ∈ headerText n, b ≠ 0x0A ∧ b ≠ 0x0D ∧ b ≠ 0x3E ∧ b ≠ 0x3A := by
    intro b hb
    rcases List.mem_append.mp hb with hb | hb
    · have htext : ∀ b ∈ ascii "+IPD,", b ≠ 0x0A ∧ b ≠ 0x0D ∧ b ≠ 0x3E ∧ b ≠ 0x3A :=
        List.all_iff_forall_prop.mp (by decide)
      exact htext b hb
    · have hdigit := isDigit_of_mem_decimal hb
      refine ⟨?_, ?_, ?_, ?_⟩ <;> rintro rfl <;> exact absurd hdigit (by decide)
  have hread : ∀ bs answer, (∀ b ∈ bs, b ≠ 0x0A ∧ b ≠ 0x0D ∧ b ≠ 0x3E ∧ b ≠ 0x3A) →
      readText answer bs = ([], answer ++ bs) := by
    intro bs
    induction bs with
    | nil => intro answer _; simp [readText]
    | cons b bs ih =>
        intro answer hbs
        obtain ⟨hlf, hcr, hprompt, -⟩ := hbs b List.mem_cons_self
        rw [readText, if_neg hlf, if_neg hcr, if_neg hprompt,
          ih _ fun c hc => hbs c (List.mem_cons_of_mem _ hc)]
        simp
  have hpre : ∀ b ∈ pre, b ≠ 0x0A ∧ b ≠ 0x0D ∧ b ≠ 0x3E ∧ b ≠ 0x3A :=
    fun b hb => hchars b (h.subset hb)
  exact ⟨hread pre [] hpre, fun hmem => (hpre _ hmem).2.2.2 rfl⟩

theorem plain_headerText (n : ℕ) : Plain [] (headerText n) := by
  intro pre hpre hheader
  obtain ⟨hread, hcolon⟩ := readText_headerText hpre
  rw [hread] at hheader
  simp only [isHeader, Bool.and_eq_true, beq_iff_eq] at hheader
  exact hcolon (List.mem_of_getLast? hheader.1.2)

theorem isHeader_headerText (n : ℕ) : isHeader (headerText n ++ [0x3A]) := by
  have hfront : ascii "+IPD," = [0x2B, 0x49, 0x50, 0x44, 0x2C] := by decide
  have hname : ascii "+IPD" = [0x2B, 0x49, 0x50, 0x44] := by decide
  have hlast : (ascii "+IPD," ++ decimal n ++ [0x3A]).getLast? = some 0x3A := List.getLast?_concat
  rw [isHeader, headerText, hlast, hfront, hname]
  simp

theorem number_headerText (n : ℕ) : number (headerText n ++ [0x3A]) = decimal n := by
  have hfront : (headerText n ++ [0x3A]).drop 5 = decimal n ++ [0x3A] := by
    rw [headerText, List.append_assoc]
    exact List.drop_left' (by decide)
  rw [number, hfront, List.takeWhile_append_of_pos]
  · simp
  · intro b hb
    have hdigit := isDigit_of_mem_decimal hb
    simp only [ne_eq, decide_eq_true_eq]
    rintro rfl
    exact absurd hdigit (by decide)

/-- The colon of a header announces the packet bytes. -/
theorem step_headerText {n : ℕ} {d : Decoder} (hleft : d.left = 0)
    (hanswer : d.answer = headerText n) : d.step 0x3A = ([], fresh (min n ulongMax)) := by
  rw [step_text hleft (by decide) (by decide) (by decide), hanswer,
    if_pos (isHeader_headerText n), number_headerText, strtoul_decimal]

/-- A header that is still open reports nothing. -/
theorem decode_headerText {n : ℕ} {pre : List UInt8} {d : Decoder} (hleft : d.left = 0)
    (hanswer : d.answer = []) (hpre : pre <+: headerText n) :
    (d.decode pre).1 = [] ∧ (d.decode pre).2.answer = pre ∧ (d.decode pre).2.left = 0 := by
  obtain ⟨hevents, hans, hzero⟩ :=
    decode_text hleft (by rw [hanswer]; exact (plain_headerText n).mono hpre)
  rw [hanswer, (readText_headerText hpre).1] at hevents hans
  exact ⟨hevents, hans, hzero⟩

/-- A complete header. -/
theorem decode_header (n : ℕ) {d : Decoder} (hleft : d.left = 0) (hanswer : d.answer = []) :
    d.decode (headerText n ++ [0x3A]) = ([], fresh (min n ulongMax)) := by
  obtain ⟨hevents, hans, hzero⟩ := decode_headerText hleft hanswer (List.prefix_refl (headerText n))
  rw [decode_append, hevents, decode_cons, step_headerText hzero hans]
  rfl

/-- The scanner stays in step at a header only if the number fits an `int`. -/
theorem lt_of_takesAll_header {n : ℕ} {d : Decoder} (hleft : d.left = 0) (hanswer : d.answer = [])
    (htakes : d.TakesAll (headerText n ++ [0x3A])) : n < 2 ^ 31 := by
  obtain ⟨-, hans, hzero⟩ := decode_headerText hleft hanswer (List.prefix_refl (headerText n))
  obtain ⟨-, hcolon, -⟩ := (takesAll_append d _ _).mp htakes
  have hnumber := (hcolon.header hzero (by rw [hans]; exact isHeader_headerText n)).2.2
  rw [hans, number_headerText, strtoul_decimal, ulongMax] at hnumber
  omega

theorem decode_payload {payload : List UInt8} {d : Decoder} (h : payload.length ≤ d.left) :
    (d.decode payload).1 = payload.map .appendByte ∧ (d.decode payload).2.answer = d.answer ∧
      (d.decode payload).2.left = d.left - payload.length := by
  induction payload generalizing d with
  | nil => exact ⟨rfl, rfl, rfl⟩
  | cons b bs ih =>
      rw [List.length_cons] at h
      obtain ⟨hevents, hanswer, hleft⟩ :=
        @ih { d with left := d.left - 1, raw := d.raw ++ [b], stale := true } (by simp only; omega)
      rw [decode_cons, step_payload (by omega)]
      refine ⟨by simp only [hevents]; rfl, hanswer, ?_⟩
      simp only [hleft, List.length_cons]
      omega

/-! ## Streams -/

/-- What the modem sends: text, or a segment of packet bytes. -/
inductive Item
  | text (text : List UInt8)
  | segment (payload : List UInt8)

/-- The role of a byte in the stream. -/
inductive Role
  | text
  | header
  | payload
deriving DecidableEq

namespace Item

/-- **Well formed**: text is ended (by CR, or by `>`) and does not look like a header. -/
def WellFormed : Item → Prop
  | text t => Plain [] t ∧ (readText [] t).2 = []
  | segment _ => True

/-- The bytes of an item, each with its role. -/
def tagged : Item → List (Role × UInt8)
  | text t => t.map (Role.text, ·)
  | segment payload =>
      (headerText payload.length ++ [0x3A]).map (Role.header, ·) ++ payload.map (Role.payload, ·)

end Item

/-- The bytes with the given role. -/
def bytesOf (role : Role) (stream : List (Role × UInt8)) : List UInt8 :=
  stream.filterMap fun b => if b.1 = role then some b.2 else none

@[simp] theorem bytesOf_append (role : Role) (s t : List (Role × UInt8)) :
    bytesOf role (s ++ t) = bytesOf role s ++ bytesOf role t := List.filterMap_append

@[simp] theorem bytesOf_map (role role' : Role) (bs : List UInt8) :
    bytesOf role (bs.map (role', ·)) = if role' = role then bs else [] := by
  by_cases h : role' = role
  · simp [bytesOf, List.filterMap_map, h]
  · simp [bytesOf, List.filterMap_map, h]

/-- **What the calls owe to the part of a stream they have received.** -/
def Delivered (events : List Event) (received : List (Role × UInt8)) : Prop :=
  handed events = bytesOf .payload received ∧
    answers (visible events) =
      ((readText [] (bytesOf .text received)).1.map beforeZero).filter (· ≠ [])

/-- What the decoder reports before empty answers are left out. -/
def Reports (events : List Event) (received : List (Role × UInt8)) : Prop :=
  handed events = bytesOf .payload received ∧
    answers events = (readText [] (bytesOf .text received)).1.map beforeZero

theorem prefix_append_cases {α : Type} {s t u : List α} (h : s <+: t ++ u) :
    s <+: t ∨ ∃ s', s = t ++ s' ∧ s' <+: u := by
  rcases List.prefix_or_prefix_of_prefix h (List.prefix_append t u) with hs | ⟨s', rfl⟩
  · exact Or.inl hs
  · exact Or.inr ⟨s', rfl, (List.prefix_append_right_inj t).mp h⟩

/-- Between two items the decoder has no open text and expects no packet byte. -/
def AtRest (d : Decoder) : Prop := d.left = 0 ∧ d.answer = []

/-- A part of one item, from between two items. -/
theorem reports_item {item : Item} (hwf : item.WellFormed) {d : Decoder} (hrest : AtRest d)
    {received : List (Role × UInt8)} (hreceived : received <+: item.tagged)
    (htakes : d.TakesAll (received.map Prod.snd)) :
    Reports (d.decode (received.map Prod.snd)).1 received := by
  obtain ⟨hleft, hanswer⟩ := hrest
  cases item with
  | text t =>
      obtain ⟨pre, hpre, rfl⟩ := List.prefix_map_iff.mp hreceived
      obtain ⟨hevents, -, -⟩ :=
        decode_text hleft (by rw [hanswer]; exact hwf.1.mono hpre)
      rw [hanswer] at hevents
      have hmap : (pre.map (Role.text, ·)).map Prod.snd = pre := by simp [Function.comp_def]
      rw [hmap, hevents]
      refine ⟨?_, ?_⟩
      · rw [handed_map_update, bytesOf_map, if_neg (by decide)]
      · rw [answers_map_update, bytesOf_map, if_pos rfl]
  | segment payload =>
      -- either a part of the header, or the header and a part of the packet bytes
      rcases prefix_append_cases hreceived with hhead | ⟨pay, rfl, hpay⟩
      · obtain ⟨pre, hpre, rfl⟩ := List.prefix_map_iff.mp hhead
        have hmap : (pre.map (Role.header, ·)).map Prod.snd = pre := by simp [Function.comp_def]
        have hnone : (d.decode pre).1 = [] := by
          rcases List.prefix_concat_iff.mp hpre with rfl | hopen
          · rw [decode_header _ hleft hanswer]
          · exact (decode_headerText hleft hanswer hopen).1
        rw [hmap, hnone]
        refine ⟨?_, ?_⟩
        · rw [bytesOf_map, if_neg (by decide)]
          rfl
        · rw [bytesOf_map, if_neg (by decide)]
          rfl
      · obtain ⟨pre, hpre, rfl⟩ := List.prefix_map_iff.mp hpay
        have hmap : ((headerText payload.length ++ [0x3A]).map (Role.header, ·) ++
            pre.map (Role.payload, ·)).map Prod.snd = headerText payload.length ++ [0x3A] ++ pre := by
          simp [Function.comp_def]
        rw [hmap] at htakes ⊢
        have hint := lt_of_takesAll_header hleft hanswer ((takesAll_append d _ _).mp htakes).1
        have hlen : pre.length ≤ min payload.length ulongMax := by
          have := hpre.length_le
          rw [ulongMax]
          omega
        obtain ⟨hevents, -, -⟩ := @decode_payload pre (fresh (min payload.length ulongMax)) hlen
        rw [decode_append, decode_header _ hleft hanswer, hevents, List.nil_append]
        refine ⟨?_, ?_⟩
        · rw [handed_map_appendByte, bytesOf_append, bytesOf_map, bytesOf_map, if_neg (by decide),
            if_pos rfl, List.nil_append]
        · rw [answers_map_appendByte, bytesOf_append, bytesOf_map, bytesOf_map, if_neg (by decide),
            if_neg (by decide)]
          rfl

/-- A whole item leads from rest to rest, and its text ends its last answer. -/
theorem atRest_item {item : Item} (hwf : item.WellFormed) {d : Decoder} (hrest : AtRest d)
    (htakes : d.TakesAll (item.tagged.map Prod.snd)) :
    AtRest (d.decode (item.tagged.map Prod.snd)).2 ∧
      (readText [] (bytesOf .text item.tagged)).2 = [] := by
  obtain ⟨hleft, hanswer⟩ := hrest
  cases item with
  | text t =>
      obtain ⟨-, hans, hzero⟩ := decode_text hleft (by rw [hanswer]; exact hwf.1)
      rw [hanswer, hwf.2] at hans
      have hmap : (t.map (Role.text, ·)).map Prod.snd = t := by simp [Function.comp_def]
      rw [Item.tagged, hmap, bytesOf_map, if_pos rfl]
      exact ⟨⟨hzero, hans⟩, hwf.2⟩
  | segment payload =>
      have hmap : ((Item.segment payload).tagged).map Prod.snd =
          headerText payload.length ++ [0x3A] ++ payload := by simp [Item.tagged, Function.comp_def]
      rw [hmap] at htakes ⊢
      have hint := lt_of_takesAll_header hleft hanswer ((takesAll_append d _ _).mp htakes).1
      have hmin : min payload.length ulongMax = payload.length := by rw [ulongMax]; omega
      obtain ⟨-, hans, hleft'⟩ :=
        @decode_payload payload (fresh payload.length) (Nat.le_refl _)
      rw [decode_append, decode_header _ hleft hanswer, hmin, Item.tagged, bytesOf_append,
        bytesOf_map, bytesOf_map, if_neg (by decide), if_neg (by decide)]
      exact ⟨⟨by simpa [fresh] using hleft', hans⟩, rfl⟩

/-- **The decoder reports every part of a well-formed stream.** -/
theorem reports_items {items : List Item} (hwf : ∀ item ∈ items, item.WellFormed) {d : Decoder}
    (hrest : AtRest d) {received : List (Role × UInt8)}
    (hreceived : received <+: items.flatMap Item.tagged)
    (htakes : d.TakesAll (received.map Prod.snd)) :
    Reports (d.decode (received.map Prod.snd)).1 received := by
  induction items generalizing d received with
  | nil =>
      obtain rfl : received = [] := by simpa using hreceived
      exact ⟨rfl, rfl⟩
  | cons item items ih =>
      have hitem := hwf item List.mem_cons_self
      rcases prefix_append_cases hreceived with hfirst | ⟨more, rfl, hmore⟩
      · exact reports_item hitem hrest hfirst htakes
      · rw [List.map_append, takesAll_append] at htakes
        obtain ⟨hwhole, hbehind⟩ := htakes
        obtain ⟨hrest', hended⟩ := atRest_item hitem hrest hwhole
        obtain ⟨hhanded, hanswers⟩ := reports_item hitem hrest (List.prefix_refl _) hwhole
        obtain ⟨hhanded', hanswers'⟩ :=
          ih (fun i hi => hwf i (List.mem_cons_of_mem _ hi)) hrest' hmore hbehind
        rw [List.map_append, decode_append]
        refine ⟨?_, ?_⟩
        · rw [handed_append, bytesOf_append, hhanded, hhanded']
        · rw [answers_append, bytesOf_append, readText_append, List.map_append, hended, hanswers,
            hanswers']

/-- **When the packet bytes arrive.**  Let the calls of `InData::Update` receive a part of
a well-formed stream, cut in any way that never fills the buffer.  If no cut leaves packet
bytes in the buffer for a following call, and none but control bytes stand in the buffer
before a header, then the calls deliver what they owe. -/
theorem delivered_of_undisturbed (items : List Item) (hwf : ∀ item ∈ items, item.WellFormed)
    (received : List (Role × UInt8)) (hreceived : received <+: items.flatMap Item.tagged)
    (pieces : List (Buffer 2048)) (hcut : pieces.flatMap Buffer.bytes = received.map Prod.snd)
    (hroom : NeverFull boot pieces)
    (hundisturbed : (fresh 0).Undisturbed (pieces.map Buffer.bytes)) :
    ∃ outputs t, feed call boot pieces = some (outputs, t) ∧ Delivered outputs.flatten received := by
  obtain ⟨outputs, t, hfeed, -, hevents⟩ :=
    feed_calls_decodes follows_boot pieces (fun _ => rfl) hroom hundisturbed
  have htakes := hundisturbed.takesAll
  rw [← List.flatMap_def, hcut] at htakes
  obtain ⟨hhanded, hanswers⟩ := reports_items hwf ⟨rfl, rfl⟩ hreceived htakes
  rw [← hcut] at hhanded hanswers
  refine ⟨outputs, t, hfeed, ?_, ?_⟩
  · rw [← handed_visible, hevents, handed_visible, hhanded]
  · rw [hevents, answers_visible, hanswers]

/-- Bytes received together. -/
def together (bytes : List UInt8) : Buffer 2048 := (Buffer.clear.append bytes).1

/-- A reply, a segment of two packet bytes, and another reply. -/
def dialogue : List Item :=
  [.text (ascii "OK\r\n"), .segment [0xD0, 0x00], .text (ascii "\r\nSEND OK\r\n")]

theorem wellFormed_dialogue : ∀ item ∈ dialogue, item.WellFormed := by
  rintro item hitem
  fin_cases hitem
  · exact ⟨by decide, by decide⟩
  · trivial
  · exact ⟨by decide, by decide⟩

/-- The dialogue, cut behind the header. -/
def dialoguePieces : List (Buffer 2048) :=
  [together (ascii "OK\r\n+IPD,2:"), together ([0xD0, 0x00] ++ ascii "\r\nSEND OK\r\n")]

theorem delivered_dialogue : ∃ outputs t, feed call boot dialoguePieces = some (outputs, t) ∧
    Delivered outputs.flatten (dialogue.flatMap Item.tagged) :=
  delivered_of_undisturbed dialogue wellFormed_dialogue _ (List.prefix_refl _) dialoguePieces
    (by decide) (neverFull_of_sum (by decide)) (by decide)

/-- A segment of two packet bytes, cut between them. -/
def cutPieces : List (Buffer 2048) := [together (ascii "+IPD,2:a"), together (ascii "b")]

/-- **Not every cut delivers the packet bytes once**: behind a cut inside the segment the
first byte is handed on again, and the second one never is. -/
theorem not_delivered_cutPieces :
    ¬ ∀ (items : List Item) (received : List (Role × UInt8)) (pieces : List (Buffer 2048)),
        (∀ item ∈ items, item.WellFormed) → received <+: items.flatMap Item.tagged →
        pieces.flatMap Buffer.bytes = received.map Prod.snd → NeverFull boot pieces →
        ∃ outputs t, feed call boot pieces = some (outputs, t) ∧
          Delivered outputs.flatten received := by
  intro hall
  obtain ⟨outputs, t, hfeed, hhanded, -⟩ := hall [.segment (ascii "ab")] _ cutPieces
    (fun item hitem => by rw [List.mem_singleton.mp hitem]; trivial) (List.prefix_refl _)
    (by decide) (neverFull_of_sum (by decide))
  have hcode : (feed call boot cutPieces).map (fun r => handed r.1.flatten) = some (ascii "aa") := by
    decide
  rw [hfeed] at hcode
  have hsame : ascii "aa" = bytesOf .payload ([Item.segment (ascii "ab")].flatMap Item.tagged) :=
    (Option.some.inj hcode).symm.trans hhanded
  exact absurd hsame (by decide)

end USKD.InData
