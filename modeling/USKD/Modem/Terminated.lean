import USKD.Modem.Scanner

/-!
# The answers and their final zero

An answer is put together in a buffer as large as the one that is scanned.  Behind its text goes
a zero; the prompt, unlike the CR, also goes into the answer, and `Append` stores nothing where
there is no room.

* `turns` is what the passes of the loop find: answers, as they go to `SIM868::Update`, and
  headers.
* All answers are terminated unless a whole buffer of 2048 bytes is one answer, ended by the
  prompt (`terminated_iff`).
-/

namespace USKD.InData

variable {i count : ℕ} {answer ended : Buffer 2048} {left : ℤ} {rest : List UInt8} {pass : Pass}

/-- Where the loop goes on behind a pass. -/
def Pass.next (buffer : Buffer 2048) (pass : Pass) : Option (Buffer 2048 × ℤ) :=
  match pass.outcome with
  | .exhausted => none
  | .answer _ count => (buffer.removeFirst count).map fun behind => (behind, pass.left)
  | .header header => do
      let number ← headerNumber header.bytes
      let behind ← (strip buffer).removeFirst header.size
      pure (behind, number)

/-- **What the passes of the loop find**, one after the other; the list ends where the language
leaves the rest undefined. -/
def turns : ℕ → Buffer 2048 → ℤ → List Outcome
  | 0, _, _ => []
  | fuel + 1, buffer, left =>
      match scan 0 .clear left buffer.bytes with
      | none => []
      | some pass =>
          pass.outcome :: (pass.next buffer).elim [] fun r => turns fuel r.1 r.2

/-- The text that `SIM868::Update` is called with. -/
def Outcome.text : Outcome → Option (List UInt8)
  | .exhausted => some []
  | .answer answer _ => cString answer.bytes
  | .header _ => none

/-- The answers of a loop that ends are the texts of its turns. -/
theorem answers_drain {fuel : ℕ} {buffer : Buffer 2048} {events : List Event}
    {r : Buffer 2048 × ℤ} (h : Drains fuel buffer left events r) :
    answers events = (turns fuel buffer left).filterMap Outcome.text := by
  induction h with
  | exhausted hscan =>
      rw [turns, hscan, answers_append, answers_map_appendByte]
      rfl
  | @answer _ buffer _ answer _ left' handed text count events _ hscan htext hbehind _ ih =>
      have hhead : Outcome.text (.answer answer count) = some text := htext
      have hanswers : answers (.update text :: events) = text :: answers events := rfl
      rw [turns, hscan, answers_append, answers_map_appendByte, List.nil_append, hanswers, ih]
      simp only [List.filterMap_cons_some hhead, Pass.next, hbehind, Option.map_some,
        Option.elim_some]
  | header hscan hnumber hbehind _ ih =>
      rw [turns, hscan, answers_append, answers_map_appendByte, List.nil_append,
        List.filterMap_cons_none rfl, ih]
      simp only [Pass.next, hnumber, hbehind, Option.bind_eq_bind, Option.bind_some,
        Option.pure_def, Option.elim_some]

/-- **Every answer is terminated** inside its buffer. -/
def Terminated (buffer : Buffer 2048) (left : ℤ) : Prop :=
  ∀ answer count, .answer answer count ∈ turns (buffer.size + 1) buffer left → 0 ∈ answer.bytes

/-- A text with none of the bytes at which the scanner does something else than store them. -/
def Stored (text : List UInt8) : Prop :=
  ∀ b ∈ text, b ≠ 0 ∧ b ≠ 0x0A ∧ b ≠ 0x0D ∧ b ≠ 0x3E

/-- No header is complete inside `text`, read behind `answer`. -/
def Headerless (answer text : List UInt8) : Prop :=
  ∀ pre, pre <+: text → pre ≠ [] → isHeader (answer ++ pre) = false

/-- **One answer fills the buffer**, and ends with the prompt. -/
def Overfull (buffer : Buffer 2048) : Prop :=
  ∃ text, buffer.bytes = text ++ [0x3E] ∧ text.length = 2047 ∧ Stored text ∧ Headerless [] text

/-! ## One pass -/

theorem Headerless.cons {bs : List UInt8} {b : UInt8} {text : List UInt8}
    (hb : isHeader (bs ++ [b]) = false) (h : Headerless (bs ++ [b]) text) :
    Headerless bs (b :: text) := by
  rintro pre hpre hne
  rcases List.prefix_cons_iff.mp hpre with rfl | ⟨pre', rfl, hpre'⟩
  · exact absurd rfl hne
  · by_cases hnil : pre' = []
    · rw [hnil]
      exact hb
    · have hbehind := h pre' hpre' hnil
      rwa [List.append_assoc, List.singleton_append] at hbehind

theorem Headerless.head {bs : List UInt8} {b : UInt8} {text : List UInt8}
    (h : Headerless bs (b :: text)) : isHeader (bs ++ [b]) = false ∧
      Headerless (bs ++ [b]) text := by
  refine ⟨h [b] (by simp) (by simp), fun pre hpre _ => ?_⟩
  rw [List.append_assoc, List.singleton_append]
  exact h (b :: pre) (List.prefix_cons_iff.mpr (Or.inr ⟨pre, rfl, hpre⟩)) (by simp)

theorem prefix_push (b : Buffer 2048) (symbol : UInt8) : b.bytes <+: (b.push symbol).1.bytes := by
  unfold Buffer.push
  split
  · exact List.prefix_append _ _
  · exact List.prefix_refl _

/-- A pass that finds something removes something. -/
theorem pos_of_scan (h : Scans i answer left rest pass) :
    match pass.outcome with
    | .exhausted => True
    | .answer _ count => 0 < count
    | .header header => 0 < header.size := by
  induction h with
  | exhausted => trivial
  | handed _ _ ih => exact ih
  | skipped _ _ ih => exact ih
  | ended | prompted => exact Nat.succ_pos _
  | stored _ _ _ _ _ ih => exact ih
  | found hheader => exact Nat.zero_lt_of_lt (length_of_isHeader hheader)

/-- What is in the answer stays there. -/
theorem prefix_of_scan (h : Scans i answer left rest pass)
    (houtcome : pass.outcome = .answer ended count) : answer.bytes <+: ended.bytes := by
  induction h with
  | exhausted | found => exact absurd houtcome (by simp)
  | handed _ _ ih | skipped _ _ ih => exact ih houtcome
  | ended =>
      obtain ⟨rfl, -⟩ := Outcome.answer.inj houtcome
      exact prefix_push _ _
  | prompted =>
      obtain ⟨rfl, -⟩ := Outcome.answer.inj houtcome
      exact (prefix_push _ _).trans (prefix_push _ _)
  | stored _ _ _ _ _ ih => exact (prefix_push _ _).trans (ih houtcome)

/-- **The answer of a pass is terminated**, unless it takes all the room there is up to the prompt.
The answer and what is before the scanner fit one buffer. -/
theorem zero_mem_of_scan (h : Scans i answer left rest pass)
    (houtcome : pass.outcome = .answer ended count)
    (hroom : answer.bytes.length + rest.length ≤ 2048) :
    0 ∈ ended.bytes ∨ left = 0 ∧ ∃ text, rest = text ++ [0x3E] ∧
      answer.bytes.length + text.length = 2047 ∧ Stored text ∧ Headerless answer.bytes text := by
  induction h with
  | exhausted | found => exact absurd houtcome (by simp)
  | handed _ _ ih | skipped _ _ ih =>
      -- a byte that is not stored leaves room behind it
      rw [List.length_cons] at hroom
      rcases ih houtcome (by omega) with hmem | ⟨-, text, rfl, hfull, -⟩
      · exact Or.inl hmem
      · rw [List.length_append, List.length_singleton] at hroom
        omega
  | ended =>
      obtain ⟨rfl, -⟩ := Outcome.answer.inj houtcome
      rw [List.length_cons] at hroom
      rw [Buffer.push_of_lt (by omega)]
      exact Or.inl (by simp)
  | @prompted _ answer rest =>
      obtain ⟨rfl, -⟩ := Outcome.answer.inj houtcome
      rw [List.length_cons] at hroom
      have hpush : (answer.push 0x3E).1.bytes = answer.bytes ++ [0x3E] :=
        Buffer.push_of_lt (by omega)
      by_cases hfits : answer.bytes.length < 2047
      · rw [Buffer.push_of_lt (by rw [hpush, List.length_append, List.length_singleton]; omega)]
        exact Or.inl (by simp)
      · -- the prompt takes the last place
        have hnil : rest = [] := List.eq_nil_of_length_eq_zero (by omega)
        refine Or.inr ⟨rfl, [], by rw [hnil]; rfl, ?_, ?_, ?_⟩
        · rw [List.length_nil]
          omega
        · exact fun b hb => absurd hb List.not_mem_nil
        · exact fun pre hpre hne => absurd (List.prefix_nil.mp hpre) hne
  | @stored _ answer symbol rest _ hlf hcr hprompt hheader behind ih =>
      rw [List.length_cons] at hroom
      have hpush : (answer.push symbol).1.bytes = answer.bytes ++ [symbol] :=
        Buffer.push_of_lt (by omega)
      rcases ih houtcome (by rw [hpush, List.length_append, List.length_singleton]; omega) with
        hmem | ⟨hzero, text, rfl, hfull, hstored, hfree⟩
      · exact Or.inl hmem
      by_cases hsymbol : symbol = 0
      · have hmem : 0 ∈ (answer.push symbol).1.bytes := by
          rw [hpush, hsymbol]
          simp
        exact Or.inl ((prefix_of_scan behind houtcome).mem hmem)
      · rw [hpush] at hfull hfree hheader
        refine Or.inr ⟨hzero, symbol :: text, rfl, ?_, ?_, hfree.cons hheader⟩
        · rw [List.length_append, List.length_singleton] at hfull
          rw [List.length_cons]
          omega
        · rintro b hb
          rcases List.mem_cons.mp hb with rfl | hb
          · exact ⟨hsymbol, hlf, hcr, hprompt⟩
          · exact hstored b hb

/-! ## The loop -/

theorem length_removeFirst_lt {buffer behind : Buffer 2048} {n : ℕ} (hpos : 0 < n)
    (h : buffer.removeFirst n = some behind) : behind.bytes.length < buffer.bytes.length := by
  have hbytes := Buffer.bytes_removeFirst h
  unfold Buffer.removeFirst at h
  split at h
  · rename_i hle
    rw [hbytes, List.length_drop]
    omega
  · exact absurd h (by simp)

/-- The loop goes on with a shorter buffer. -/
theorem length_next_lt {buffer : Buffer 2048} {r : Buffer 2048 × ℤ}
    (hscan : scan 0 .clear left buffer.bytes = some pass) (hnext : pass.next buffer = some r) :
    r.1.bytes.length < buffer.bytes.length := by
  have hpos := pos_of_scan (scans_of_scan hscan)
  obtain ⟨handed, left', outcome⟩ := pass
  unfold Pass.next at hnext
  cases outcome with
  | exhausted => exact absurd hnext (by simp)
  | answer ended count =>
      obtain ⟨behind, hremove, rfl⟩ := Option.map_eq_some_iff.mp hnext
      exact length_removeFirst_lt hpos hremove
  | header header =>
      simp only [Option.bind_eq_bind, Option.bind_eq_some_iff] at hnext
      obtain ⟨number, -, behind, hremove, hnext⟩ := hnext
      obtain rfl := Option.some.inj hnext
      have hstrip : (strip buffer).bytes.length ≤ buffer.bytes.length :=
        List.length_dropWhile_le _ _
      exact (length_removeFirst_lt hpos hremove).trans_le hstrip

/-- **One turn**: what is found is found by its pass, or in a shorter buffer. -/
theorem turns_cases {fuel : ℕ} {buffer : Buffer 2048} {outcome : Outcome}
    (h : outcome ∈ turns (fuel + 1) buffer left) :
    (∃ pass, scan 0 .clear left buffer.bytes = some pass ∧ pass.outcome = outcome) ∨
      ∃ behind left', behind.bytes.length < buffer.bytes.length ∧
        outcome ∈ turns fuel behind left' := by
  rw [turns] at h
  cases hscan : scan 0 .clear left buffer.bytes with
  | none =>
      rw [hscan] at h
      exact absurd h List.not_mem_nil
  | some pass =>
      rw [hscan] at h
      rcases List.mem_cons.mp h with rfl | h
      · exact Or.inl ⟨pass, rfl, rfl⟩
      cases hnext : pass.next buffer with
      | none =>
          rw [hnext] at h
          exact absurd h List.not_mem_nil
      | some r =>
          rw [hnext] at h
          exact Or.inr ⟨r.1, r.2, length_next_lt hscan hnext, h⟩

/-- Whatever is found is found by a pass over a part of the buffer. -/
theorem scan_of_turns {fuel : ℕ} {buffer : Buffer 2048} {outcome : Outcome}
    (h : outcome ∈ turns fuel buffer left) :
    ∃ (part : Buffer 2048) (left' : ℤ) (pass : Pass), part.bytes.length ≤ buffer.bytes.length ∧
      scan 0 .clear left' part.bytes = some pass ∧ pass.outcome = outcome := by
  induction fuel generalizing buffer left with
  | zero => exact absurd h List.not_mem_nil
  | succ fuel ih =>
      rcases turns_cases h with ⟨pass, hscan, hout⟩ | ⟨behind, left', hless, hmem⟩
      · exact ⟨buffer, left, pass, Nat.le_refl _, hscan, hout⟩
      · obtain ⟨part, left'', pass, hle, hscan, hout⟩ := ih hmem
        exact ⟨part, left'', pass, hle.trans hless.le, hscan, hout⟩

/-- **A buffer that is not full gives only answers that are terminated.** -/
theorem zero_mem_of_turns {fuel : ℕ} {buffer : Buffer 2048} (hroom : buffer.bytes.length < 2048)
    (h : .answer answer count ∈ turns fuel buffer left) : 0 ∈ answer.bytes := by
  obtain ⟨part, left', pass, hle, hscan, houtcome⟩ := scan_of_turns h
  have hpart : part.bytes.length < 2048 := hle.trans_lt hroom
  rcases zero_mem_of_scan (scans_of_scan hscan) houtcome (by simpa using hpart.le) with
    hmem | ⟨-, text, htext, hfull, -⟩
  · exact hmem
  · rw [htext, List.length_append, List.length_singleton] at hpart
    rw [Buffer.bytes_clear, List.length_nil] at hfull
    omega

/-- The pass over a text that takes all the room there is up to the prompt. -/
theorem scan_stored {text : List UInt8} (hstored : Stored text)
    (hfree : Headerless answer.bytes text) (hfull : answer.bytes.length + text.length = 2047) :
    ∃ ended, scan i answer 0 (text ++ [0x3E]) = some ⟨[], 0, .answer ended (i + text.length + 1)⟩ ∧
      ended.bytes = answer.bytes ++ text ++ [0x3E] := by
  induction text generalizing i answer with
  | nil =>
      rw [List.length_nil] at hfull
      have hprompt : (answer.push 0x3E).1.bytes = answer.bytes ++ [0x3E] :=
        Buffer.push_of_lt (by omega)
      have hzero : ((answer.push 0x3E).1.push 0).1 = (answer.push 0x3E).1 := by
        rw [Buffer.push, dif_neg]
        rw [hprompt, List.length_append, List.length_singleton]
        omega
      refine ⟨((answer.push 0x3E).1.push 0).1, ?_, ?_⟩
      · rw [List.nil_append, scan, if_neg (not_not.mpr rfl), if_neg (by decide),
          if_neg (by decide), if_pos rfl]
        rfl
      · rw [hzero, hprompt, List.append_nil]
  | cons b text ih =>
      rw [List.length_cons] at hfull
      obtain ⟨hheader, hbehind⟩ := hfree.head
      obtain ⟨-, hlf, hcr, hprompt⟩ := hstored b List.mem_cons_self
      have hpush : (answer.push b).1.bytes = answer.bytes ++ [b] := Buffer.push_of_lt (by omega)
      rw [← hpush] at hheader hbehind
      obtain ⟨ended, hscan, hended⟩ := @ih (i + 1) (answer.push b).1
        (fun c hc => hstored c (List.mem_cons_of_mem _ hc)) hbehind (by
          rw [hpush, List.length_append, List.length_singleton]
          omega)
      refine ⟨ended, ?_, ?_⟩
      · rw [List.cons_append, scan, if_neg (not_not.mpr rfl), if_neg hlf, if_neg hcr,
          if_neg hprompt, if_neg (by simp [hheader]), hscan, List.length_cons]
        have hcount : i + 1 + text.length + 1 = i + (text.length + 1) + 1 := by omega
        rw [hcount]
      · rw [hended, hpush]
        simp

/-- The answer that fills the buffer is not terminated. -/
theorem not_terminated_of_overfull {buffer : Buffer 2048} (h : Overfull buffer) :
    ¬ Terminated buffer 0 := by
  obtain ⟨text, hbytes, hlength, hstored, hfree⟩ := h
  obtain ⟨ended, hscan, hended⟩ := @scan_stored 0 .clear text hstored hfree (by
    rw [Buffer.bytes_clear, List.length_nil]
    omega)
  intro hterminated
  have hmem : .answer ended (0 + text.length + 1) ∈ turns (buffer.size + 1) buffer 0 := by
    rw [turns, hbytes, hscan]
    exact List.mem_cons_self
  have hzero := hterminated ended _ hmem
  rw [hended, Buffer.bytes_clear, List.nil_append, List.mem_append] at hzero
  rcases hzero with hzero | hzero
  · exact (hstored 0 hzero).1 rfl
  · exact absurd hzero (by decide)

/-- **Every answer is terminated inside its buffer** if and only if not a whole buffer of 2048
bytes is one answer that ends with the prompt. -/
theorem terminated_iff (buffer : Buffer 2048) (left : ℤ) :
    Terminated buffer left ↔ ¬ (left = 0 ∧ Overfull buffer) := by
  constructor
  · rintro hterminated ⟨rfl, hover⟩
    exact not_terminated_of_overfull hover hterminated
  · intro hfits answer count hanswer
    rcases turns_cases hanswer with ⟨pass, hscan, houtcome⟩ | ⟨behind, left', hless, h⟩
    · rcases zero_mem_of_scan (scans_of_scan hscan) houtcome (by simpa using buffer.size_le) with
        hmem | ⟨hleft, text, htext, hfull, hstored, hfree⟩
      · exact hmem
      · rw [Buffer.bytes_clear, List.length_nil, Nat.zero_add] at hfull
        exact absurd ⟨hleft, text, htext, hfull, hstored, hfree⟩ hfits
    · exact zero_mem_of_turns (hless.trans_le buffer.size_le) h

/-- A line of 2047 letters, and the prompt. -/
def longPrompt : Buffer 2048 where
  bytes := List.replicate 2047 0x41 ++ [0x3E]
  size_le := by
    rw [List.length_append, List.length_replicate]
    exact Nat.le_refl _

/-- **The zero behind the prompt finds no room.** -/
theorem not_terminated_longPrompt : ¬ Terminated longPrompt 0 := by
  apply not_terminated_of_overfull
  refine ⟨List.replicate 2047 0x41, rfl, List.length_replicate, ?_, ?_⟩
  · intro b hb
    rw [List.eq_of_mem_replicate hb]
    decide
  · intro pre hpre hne
    -- no header ends with a letter
    obtain ⟨init, last, rfl⟩ := List.eq_nil_or_concat pre |>.resolve_left hne
    have hlast : last = 0x41 := List.eq_of_mem_replicate (hpre.mem (by simp))
    rw [List.nil_append, hlast]
    simp [isHeader]

end USKD.InData
