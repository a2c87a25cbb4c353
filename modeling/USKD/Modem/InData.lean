import USKD.Utils.Buffer
import USKD.Utils.Text

/-!
# `Modem::InData`: from received bytes to answers and packet bytes

The receive interrupt stores bytes in `main` (or in `addit` while `main` is locked).
`InData::Update` moves `main` to the end of `buffer` and scans `buffer`:

* a line ended by CR, or text ended by `>`, is an answer: it is handed to
  `SIM868::Update` and removed together with everything in front of it;
* a header `+IPD,<n>:` sets `binary_bytes_left` and is removed;
* while `binary_bytes_left` is not zero, the scanned byte goes to `PBD::AppendByte`
  **and stays in the buffer**.

One `scan` is one pass of the `for` loop up to a removal, `drain` is the `do`/`while` loop
over the passes.  A header restarts the `for` loop with an empty answer, which is what the
next turn of the `do` loop does.  `drain` has a fuel argument, as each pass but the last
removes a byte: one more than the size of the buffer is enough.

`none` stands for what the language leaves undefined: an answer that is not ended inside
its array, a byte count longer than `buf_number`, a counter below `INT_MIN`, and a
`RemoveFirst` of more than there is.  The callbacks are the events of the model.
-/

namespace USKD

/-- What `InData::Update` calls. -/
inductive InData.Event
  /-- `PBD::AppendByte` -/
  | appendByte (byte : UInt8)
  /-- `SIM868::Update` with a C string -/
  | update (answer : List UInt8)
deriving DecidableEq

/-- The static data of `namespace InData`; `busy` is the state of `main.mutex`. -/
structure InData where
  main : Buffer 2048
  addit : Buffer 2048
  buffer : Buffer 2048
  binaryBytesLeft : ℤ
  busy : Bool
deriving DecidableEq

namespace InData

/-- The state at boot. -/
def boot : InData := ⟨.clear, .clear, .clear, 0, false⟩

/-! ## One pass over the buffer -/

/-- The test for a complete header: `answer.Size() > 5`, the fourth symbol, the last symbol
and the first four. -/
def isHeader (answer : List UInt8) : Bool :=
  answer.length > 5 && answer.getD 3 0 == 0x44 && answer.getLast? == some 0x3A &&
    answer.take 4 == ascii "+IPD"

/-- A header ends with its colon. -/
theorem last_of_isHeader {answer : List UInt8} {b : UInt8} (h : isHeader (answer ++ [b]) = true) :
    b = 0x3A := by
  unfold isHeader at h
  rw [List.getLast?_concat] at h
  simp only [Bool.and_eq_true, beq_iff_eq, Option.some.injEq] at h
  exact h.1.2

theorem length_of_isHeader {answer : List UInt8} (h : isHeader answer = true) :
    5 < answer.length := by
  simp only [isHeader, Bool.and_eq_true, decide_eq_true_eq] at h
  exact h.1.1.1

/-- The number of a header, through `buf_number[32]`. -/
def headerNumber (answer : List UInt8) : Option ℤ :=
  let number := (answer.drop 5).takeWhile (· ≠ 0x3A)
  if number.length < 32 then some (toInt (strtoul number)) else none

/-- How the `for` loop stops: at the end of the buffer, at the end of an answer found at
position `count - 1`, or at a header. -/
inductive Outcome
  | exhausted
  | answer (answer : Buffer 2048) (count : ℕ)
  | header (answer : Buffer 2048)

/-- What a pass hands to `PBD::AppendByte`, the count it leaves, and how it stops. -/
structure Pass where
  handed : List UInt8
  left : ℤ
  outcome : Outcome

/-- Put a handed byte in front. -/
def Pass.hand (symbol : UInt8) (p : Pass) : Pass := { p with handed := symbol :: p.handed }

/-- The `for` loop from position `i` over the rest of the buffer. -/
def scan : ℕ → Buffer 2048 → ℤ → List UInt8 → Option Pass
  | _, _, left, [] => some ⟨[], left, .exhausted⟩
  | i, answer, left, symbol :: rest =>
      if left ≠ 0 then
        if left = -2 ^ 31 then none else (scan (i + 1) answer (left - 1) rest).map (Pass.hand symbol)
      else if symbol = 0x0A then scan (i + 1) answer left rest
      else if symbol = 0x0D then
        if answer.size = 0 then scan (i + 1) answer left rest
        else some ⟨[], left, .answer (answer.push 0).1 (i + 1)⟩
      -- the prompt ends an answer without a CR behind it
      else if symbol = 0x3E then
        some ⟨[], left, .answer ((answer.push symbol).1.push 0).1 (i + 1)⟩
      else if isHeader (answer.push symbol).1.bytes then
        some ⟨[], left, .header (answer.push symbol).1⟩
      else scan (i + 1) (answer.push symbol).1 left rest

/-- **What a pass can do**, byte by byte: the invariants of a pass are inductions on this. -/
inductive Scans : ℕ → Buffer 2048 → ℤ → List UInt8 → Pass → Prop
  | exhausted {i : ℕ} {answer : Buffer 2048} {left : ℤ} :
      Scans i answer left [] ⟨[], left, .exhausted⟩
  | handed {i : ℕ} {answer : Buffer 2048} {left : ℤ} {symbol : UInt8} {rest : List UInt8}
      {pass : Pass} (hleft : left ≠ 0) (behind : Scans (i + 1) answer (left - 1) rest pass) :
      Scans i answer left (symbol :: rest) (pass.hand symbol)
  | skipped {i : ℕ} {answer : Buffer 2048} {symbol : UInt8} {rest : List UInt8} {pass : Pass}
      (hskip : symbol = 0x0A ∨ symbol = 0x0D ∧ answer.size = 0)
      (behind : Scans (i + 1) answer 0 rest pass) : Scans i answer 0 (symbol :: rest) pass
  | ended {i : ℕ} {answer : Buffer 2048} {rest : List UInt8} (hsize : answer.size ≠ 0) :
      Scans i answer 0 (0x0D :: rest) ⟨[], 0, .answer (answer.push 0).1 (i + 1)⟩
  | prompted {i : ℕ} {answer : Buffer 2048} {rest : List UInt8} :
      Scans i answer 0 (0x3E :: rest)
        ⟨[], 0, .answer ((answer.push 0x3E).1.push 0).1 (i + 1)⟩
  | found {i : ℕ} {answer : Buffer 2048} {symbol : UInt8} {rest : List UInt8}
      (hheader : isHeader (answer.push symbol).1.bytes = true) :
      Scans i answer 0 (symbol :: rest) ⟨[], 0, .header (answer.push symbol).1⟩
  | stored {i : ℕ} {answer : Buffer 2048} {symbol : UInt8} {rest : List UInt8} {pass : Pass}
      (hlf : symbol ≠ 0x0A) (hcr : symbol ≠ 0x0D) (hprompt : symbol ≠ 0x3E)
      (hheader : isHeader (answer.push symbol).1.bytes = false)
      (behind : Scans (i + 1) (answer.push symbol).1 0 rest pass) :
      Scans i answer 0 (symbol :: rest) pass

/-- **What the loop does at one byte.** -/
theorem scan_cons_cases {i : ℕ} {answer : Buffer 2048} {left : ℤ} {symbol : UInt8}
    {rest : List UInt8} {pass : Pass} (h : scan i answer left (symbol :: rest) = some pass) :
    (left ≠ 0 ∧ left ≠ -2 ^ 31 ∧
        ∃ p, scan (i + 1) answer (left - 1) rest = some p ∧ p.hand symbol = pass) ∨
      left = 0 ∧
        ((symbol = 0x0A ∨ symbol = 0x0D ∧ answer.size = 0) ∧
            scan (i + 1) answer 0 rest = some pass ∨
          symbol = 0x0D ∧ answer.size ≠ 0 ∧ ⟨[], 0, .answer (answer.push 0).1 (i + 1)⟩ = pass ∨
          symbol = 0x3E ∧
            ⟨[], 0, .answer ((answer.push symbol).1.push 0).1 (i + 1)⟩ = pass ∨
          (symbol ≠ 0x0A ∧ symbol ≠ 0x0D ∧ symbol ≠ 0x3E) ∧
            (isHeader (answer.push symbol).1.bytes = true ∧
                ⟨[], 0, .header (answer.push symbol).1⟩ = pass ∨
              isHeader (answer.push symbol).1.bytes = false ∧
                scan (i + 1) (answer.push symbol).1 0 rest = some pass)) := by
  rw [scan] at h
  by_cases hleft : left = 0
  · subst hleft
    refine .inr ⟨rfl, ?_⟩
    rw [if_neg (not_not.mpr rfl)] at h
    by_cases hlf : symbol = 0x0A
    · rw [if_pos hlf] at h
      exact .inl ⟨.inl hlf, h⟩
    rw [if_neg hlf] at h
    by_cases hcr : symbol = 0x0D
    · rw [if_pos hcr] at h
      by_cases hsize : answer.size = 0
      · rw [if_pos hsize] at h
        exact .inl ⟨.inr ⟨hcr, hsize⟩, h⟩
      · rw [if_neg hsize] at h
        exact .inr (.inl ⟨hcr, hsize, Option.some.inj h⟩)
    rw [if_neg hcr] at h
    by_cases hprompt : symbol = 0x3E
    · rw [if_pos hprompt] at h
      exact .inr (.inr (.inl ⟨hprompt, Option.some.inj h⟩))
    rw [if_neg hprompt] at h
    refine .inr (.inr (.inr ⟨⟨hlf, hcr, hprompt⟩, ?_⟩))
    by_cases hheader : isHeader (answer.push symbol).1.bytes = true
    · rw [if_pos hheader] at h
      exact .inl ⟨hheader, Option.some.inj h⟩
    · rw [if_neg hheader] at h
      exact .inr ⟨Bool.eq_false_iff.mpr hheader, h⟩
  · rw [if_pos hleft] at h
    split at h
    · exact absurd h (by simp)
    · exact .inl ⟨hleft, ‹_›, Option.map_eq_some_iff.mp h⟩

theorem scans_of_scan {i : ℕ} {answer : Buffer 2048} {left : ℤ} {rest : List UInt8} {pass : Pass}
    (h : scan i answer left rest = some pass) : Scans i answer left rest pass := by
  induction rest generalizing i answer left pass with
  | nil =>
      obtain rfl := Option.some.inj h
      exact .exhausted
  | cons symbol rest ih =>
      rcases scan_cons_cases h with ⟨hleft, -, p, hp, rfl⟩ | ⟨rfl, ⟨hskip, hbehind⟩ |
        ⟨rfl, hsize, rfl⟩ | ⟨rfl, rfl⟩ | ⟨⟨hlf, hcr, hprompt⟩, ⟨hheader, rfl⟩ | ⟨hheader, hbehind⟩⟩⟩
      · exact .handed hleft (ih hp)
      · exact .skipped hskip (ih hbehind)
      · exact .ended hsize
      · exact .prompted
      · exact .found hheader
      · exact .stored hlf hcr hprompt hheader (ih hbehind)

/-- `while (buffer[0] < 0x20) buffer.RemoveFirst(1)`. -/
def strip (buffer : Buffer 2048) : Buffer 2048 where
  bytes := buffer.bytes.dropWhile (· < 0x20)
  size_le := (List.length_dropWhile_le _ _).trans buffer.size_le

@[simp] theorem bytes_strip (buffer : Buffer 2048) :
    (strip buffer).bytes = buffer.bytes.dropWhile (· < 0x20) := rfl

/-! ## The loop over the passes -/

/-- What is done with a pass, `next` being the following turn of the loop. -/
def finish (next : Buffer 2048 → ℤ → Option (List Event × Buffer 2048 × ℤ)) (buffer : Buffer 2048)
    (pass : Pass) : Option (List Event × Buffer 2048 × ℤ) :=
  let handed := pass.handed.map Event.appendByte
  match pass.outcome with
  | .exhausted => some (handed ++ [.update []], buffer, pass.left)
  | .answer answer count => do
      let text ← cString answer.bytes
      let buffer ← buffer.removeFirst count
      let (events, rest) ← next buffer pass.left
      pure (handed ++ .update text :: events, rest)
  | .header answer => do
      let left ← headerNumber answer.bytes
      let buffer ← (strip buffer).removeFirst answer.size
      let (events, rest) ← next buffer left
      pure (handed ++ events, rest)

/-- The `do`/`while` loop. -/
def drain : ℕ → Buffer 2048 → ℤ → Option (List Event × Buffer 2048 × ℤ)
  | 0, _, _ => none
  | fuel + 1, buffer, left =>
      (scan 0 .clear left buffer.bytes).bind (finish (drain fuel) buffer)

/-- **What a loop that ends has done**, turn by turn. -/
inductive Drains : ℕ → Buffer 2048 → ℤ → List Event → Buffer 2048 × ℤ → Prop
  | exhausted {fuel : ℕ} {buffer : Buffer 2048} {left left' : ℤ} {handed : List UInt8}
      (hscan : scan 0 .clear left buffer.bytes = some ⟨handed, left', .exhausted⟩) :
      Drains (fuel + 1) buffer left (handed.map .appendByte ++ [.update []]) (buffer, left')
  | answer {fuel : ℕ} {buffer behind answer : Buffer 2048} {left left' : ℤ}
      {handed text : List UInt8} {count : ℕ} {events : List Event} {r : Buffer 2048 × ℤ}
      (hscan : scan 0 .clear left buffer.bytes = some ⟨handed, left', .answer answer count⟩)
      (htext : cString answer.bytes = some text) (hbehind : buffer.removeFirst count = some behind)
      (hnext : Drains fuel behind left' events r) :
      Drains (fuel + 1) buffer left (handed.map .appendByte ++ .update text :: events) r
  | header {fuel : ℕ} {buffer behind header : Buffer 2048} {left left' number : ℤ}
      {handed : List UInt8} {events : List Event} {r : Buffer 2048 × ℤ}
      (hscan : scan 0 .clear left buffer.bytes = some ⟨handed, left', .header header⟩)
      (hnumber : headerNumber header.bytes = some number)
      (hbehind : (strip buffer).removeFirst header.size = some behind)
      (hnext : Drains fuel behind number events r) :
      Drains (fuel + 1) buffer left (handed.map .appendByte ++ events) r

theorem drains_of_drain {fuel : ℕ} {buffer : Buffer 2048} {left : ℤ} {events : List Event}
    {r : Buffer 2048 × ℤ} (h : drain fuel buffer left = some (events, r)) :
    Drains fuel buffer left events r := by
  induction fuel generalizing buffer left events r with
  | zero => exact absurd h (by simp [drain])
  | succ fuel ih =>
      rw [drain, Option.bind_eq_some_iff] at h
      obtain ⟨⟨handed, left', outcome⟩, hscan, h⟩ := h
      cases outcome with
      | exhausted =>
          obtain ⟨rfl, rfl⟩ := Prod.mk.inj (Option.some.inj h)
          exact .exhausted hscan
      | answer answer count =>
          simp only [finish, Option.bind_eq_bind, Option.bind_eq_some_iff] at h
          obtain ⟨text, htext, behind, hbehind, ⟨events', r'⟩, hnext, h⟩ := h
          obtain ⟨rfl, rfl⟩ := Prod.mk.inj (Option.some.inj h)
          exact .answer hscan htext hbehind (ih hnext)
      | header header =>
          simp only [finish, Option.bind_eq_bind, Option.bind_eq_some_iff] at h
          obtain ⟨number, hnumber, behind, hbehind, ⟨events', r'⟩, hnext, h⟩ := h
          obtain ⟨rfl, rfl⟩ := Prod.mk.inj (Option.some.inj h)
          exact .header hscan hnumber hbehind (ih hnext)

/-- The buffer once `main` has been moved to its end; it is cleared if there is no room. -/
def moved (s : InData) : Buffer 2048 :=
  if s.main.size ≠ 0 then .orClear (s.buffer.append s.main.bytes) else s.buffer

/-- `InData::Update`. -/
def update (s : InData) : Option (List Event × InData) :=
  let s := { s with main := .clear, buffer := s.moved, busy := false }
  if s.buffer.size = 0 then some ([.update []], s)
  else
    (drain (s.buffer.size + 1) s.buffer s.binaryBytesLeft).map fun r =>
      (r.1, { s with buffer := r.2.1, binaryBytesLeft := r.2.2 })

theorem update_eq (s : InData) :
    s.update =
      if s.moved.size = 0 then
        some ([.update []], { s with main := .clear, buffer := s.moved, busy := false })
      else
        (drain (s.moved.size + 1) s.moved s.binaryBytesLeft).map fun r =>
          (r.1, { s with
            main := .clear, busy := false, buffer := r.2.1, binaryBytesLeft := r.2.2 }) := rfl

/-- `main` is released when `InData::Update` returns, and everything in it is moved. -/
theorem main_update {s t : InData} {events : List Event} (h : s.update = some (events, t)) :
    t.main = .clear ∧ t.addit = s.addit ∧ t.busy = false := by
  rw [update_eq] at h
  split at h
  · obtain ⟨-, rfl⟩ := Prod.mk.inj (Option.some.inj h)
    exact ⟨rfl, rfl, rfl⟩
  · obtain ⟨r, -, h⟩ := Option.map_eq_some_iff.mp h
    obtain ⟨-, rfl⟩ := Prod.mk.inj h
    exact ⟨rfl, rfl, rfl⟩

theorem bytes_moved {s : InData} (h : s.buffer.size + s.main.size ≤ 2048) :
    s.moved.bytes = s.buffer.bytes ++ s.main.bytes := by
  rw [moved]
  by_cases hempty : s.main.size ≠ 0
  · rw [if_pos hempty, Buffer.orClear_append_of_le (by simpa using h)]
  · have hnil : s.main.bytes = [] := by simpa using hempty
    rw [if_neg hempty, hnil, List.append_nil]

theorem bytes_moved_of_not_le {s : InData} (h : ¬ s.buffer.size + s.main.size ≤ 2048) :
    s.moved.bytes = [] := by
  simp only [Buffer.size_eq] at h
  have hsize := s.buffer.size_le
  have hne : s.main.size ≠ 0 := by
    simp only [Buffer.size_eq]
    omega
  rw [moved, if_pos hne, Buffer.append, dif_neg h]
  rfl

/-- `Modem::CallbackOnReceive` on the device. -/
def callbackOnReceive (s : InData) (symbol : UInt8) : InData :=
  if s.busy then { s with addit := .orClear (s.addit.push symbol) }
  -- what came while `main` was locked goes in front
  else if s.addit.size ≠ 0 then
    { s with main := .orClear ((Buffer.orClear (s.main.append s.addit.bytes)).push symbol), addit := .clear }
  else { s with main := .orClear (s.main.push symbol) }

end InData

end USKD
