import USKD.Loader.Reading
import USKD.Loader.Verified
import USKD.Modem.Words

/-!
# The cursors of the reader

`AppendByte` stores at `pointer_command` and at `pointer_data` without a check.  What keeps the
cursors in their arrays is what the modem sends behind a request: lines that fit `buffer_command`,
and blocks of no more bytes than `buffer_data` holds.  `Bounded` says it of the symbols alone, a
line or a block at a time:

* a line has less than 32 symbols, CR apart, in front of its LF;
* a line `+FTPGET: 1,x` of the end of the file is not taken away, so that everything behind it
  counts with it;
* a line `+FTPGET: 2,n` opens a block that ends where `pointer_data` **equals** `n`, which is never
  where as many bytes are in `buffer_data` already.

`allInside_iff` says that the stores of a reader lie in their arrays if and only if the symbols are
bounded, and `cursors_inside` that in every run of the loader the next symbol is stored inside if
and only if what has come since the last request, with it, is bounded.
-/

namespace USKD

open Transducer

namespace ReaderFTP

variable {r : ReaderFTP} {symbol : UInt8} {commands : List Transmit}
  {line text rest behind symbols : List UInt8}

/-- The store of `AppendByte` lies in its array: in `buffer_data` while a block is read, in
`buffer_command` for a symbol of a line and for the zero at its end. -/
def StoresInside (r : ReaderFTP) (symbol : UInt8) : Prop :=
  if r.receivedCommand then r.pointerData < 64
  else symbol = 0x0D ∨ symbol = 0x0A ∧ r.command.bytes = [] ∨ r.command.bytes.length < 32

instance (r : ReaderFTP) (symbol : UInt8) : Decidable (r.StoresInside symbol) := by
  unfold StoresInside
  infer_instance

/-- **Every store lies in its array**, as long as the language says what the reader does. -/
def AllInside (r : ReaderFTP) : List UInt8 → Prop
  | [] => True
  | b :: bs =>
      r.StoresInside b ∧ ∀ commands r', r.appendByte b = some (commands, r') → AllInside r' bs

/-! ## The symbols behind a request -/

/-- What a complete line is to the reader. -/
inductive LineKind
  /-- The line is taken away. -/
  | dropped
  /-- The line stays, and is read again in the place of every line behind it. -/
  | kept
  /-- Bytes of the file follow. -/
  | offer (n : ℕ)
  /-- The number of bytes is no `int`. -/
  | unreadable
deriving DecidableEq

/-- The kind of a line. -/
def lineKind (text : List UInt8) : LineKind :=
  let line := beforeZero text
  if Parser.word line 1 = ascii "+FTPGET" then
    if (Parser.word line 2).head? = some 0x31 then
      if (Parser.word line 3).head? = some 0x31 then .dropped else .kept
    else if (Parser.word line 2).head? = some 0x32 then
      match atoi (Parser.word line 3) with
      | some n => if 0 < n then .offer n.toNat else .dropped
      | none => .unreadable
    else .kept
  else .dropped

/-- The symbols that a line is made of. -/
def lineText (symbols : List UInt8) : List UInt8 :=
  (symbols.takeWhile (· ≠ 0x0A)).filter (· ≠ 0x0D)

theorem length_behind_lt {b : UInt8} (h : symbols.dropWhile (· ≠ 0x0A) = b :: behind) :
    behind.length < symbols.length := by
  have hle : (symbols.dropWhile (· ≠ 0x0A)).length ≤ symbols.length := List.length_dropWhile_le _ _
  rw [h, List.length_cons] at hle
  exact hle

/-- **The symbols are bounded**, behind `taken` bytes of the file and a line that has been taken
away. -/
def Bounded (taken : ℕ) (symbols : List UInt8) : Prop :=
  match _hline : symbols.dropWhile (· ≠ 0x0A) with
  | [] => (lineText symbols).length ≤ 32
  | _ :: behind =>
      if lineText symbols = [] then Bounded taken behind
      else
        (lineText symbols).length < 32 ∧
          match lineKind (lineText symbols) with
          | .dropped => Bounded taken behind
          | .kept => (lineText symbols).length + 1 + weight behind ≤ 32
          | .offer n =>
              if taken < n ∧ n ≤ taken + behind.length then
                n ≤ 64 ∧ Bounded n (behind.drop (n - taken))
              else taken + behind.length ≤ 64
          | .unreadable => True
termination_by symbols.length
decreasing_by
  · exact length_behind_lt _hline
  · exact length_behind_lt _hline
  · exact (List.drop_sublist _ _).length_le.trans_lt (length_behind_lt _hline)

theorem bounded_of_unfinished {taken : ℕ} (hline : ∀ b ∈ line, b ≠ 0x0A) :
    Bounded taken line ↔ (line.filter (· ≠ 0x0D)).length ≤ 32 := by
  have hall : ∀ b ∈ line, decide (b ≠ 0x0A) = true := fun b hb => decide_eq_true (hline b hb)
  have hdrop : line.dropWhile (· ≠ 0x0A) = [] := List.dropWhile_eq_nil_iff.mpr hall
  have htake : line.takeWhile (· ≠ 0x0A) = line := List.takeWhile_eq_self_iff.mpr hall
  rw [Bounded, lineText, htake]
  split
  · rfl
  · next h => exact absurd (hdrop.symm.trans h) (List.cons_ne_nil _ _).symm

theorem bounded_of_line {taken : ℕ} (hline : ∀ b ∈ line, b ≠ 0x0A)
    (htext : line.filter (· ≠ 0x0D) = text) :
    Bounded taken (line ++ 0x0A :: behind) ↔
      if text = [] then Bounded taken behind
      else
        text.length < 32 ∧
          match lineKind text with
          | .dropped => Bounded taken behind
          | .kept => text.length + 1 + weight behind ≤ 32
          | .offer n =>
              if taken < n ∧ n ≤ taken + behind.length then
                n ≤ 64 ∧ Bounded n (behind.drop (n - taken))
              else taken + behind.length ≤ 64
          | .unreadable => True := by
  have hall : ∀ b ∈ line, decide (b ≠ 0x0A) = true := fun b hb => decide_eq_true (hline b hb)
  have hdrop : (line ++ 0x0A :: behind).dropWhile (· ≠ 0x0A) = 0x0A :: behind := by
    rw [List.dropWhile_append_of_pos hall]
    exact List.dropWhile_cons_of_neg (by decide)
  have htake : (line ++ 0x0A :: behind).takeWhile (· ≠ 0x0A) = line := by
    rw [List.takeWhile_append_of_pos hall, List.takeWhile_cons_of_neg (by decide), List.append_nil]
  rw [Bounded, lineText, htake, htext]
  split
  · next h => exact absurd (hdrop.symm.trans h) (List.cons_ne_nil _ _)
  · next h =>
      obtain ⟨-, rfl⟩ := List.cons.inj (hdrop.symm.trans h)
      rfl

/-! ## One symbol -/

/-- The step is defined only where its store lies in an array. -/
theorem storesInside_of_some {r' : ReaderFTP} (h : r.appendByte symbol = some (commands, r')) :
    r.StoresInside symbol := by
  unfold StoresInside
  split
  · rename_i hblock
    rw [appendByte, if_pos hblock, appendData] at h
    by_contra hfull
    rw [dif_neg hfull] at h
    exact absurd h (by simp)
  · rename_i hline
    by_contra hnone
    simp only [not_or, not_and] at hnone
    obtain ⟨hcr, hsome, hfull⟩ := hnone
    rw [appendByte, if_neg hline, if_neg hcr] at h
    split at h
    · rename_i hlf
      rw [if_neg (by simpa using hsome hlf), Buffer.store, if_neg hfull] at h
      exact absurd h (by simp)
    · rw [Buffer.store, if_neg hfull] at h
      exact absurd h (by simp)

theorem allInside_cons {r' : ReaderFTP} (h : r.appendByte symbol = some (commands, r')) :
    r.AllInside (symbol :: rest) ↔ r'.AllInside rest := by
  refine ⟨fun hall => hall.2 commands r' h, fun hall => ⟨storesInside_of_some h, ?_⟩⟩
  intro commands' r'' h'
  obtain ⟨-, rfl⟩ := Prod.mk.inj (Option.some.inj (h.symm.trans h'))
  exact hall

/-- A byte of a block. -/
theorem appendByte_of_block {b : UInt8} (hblock : r.receivedCommand = true)
    (hroom : r.pointerData < 64) :
    r.appendByte b = some ([],
      if ((r.pointerData + 1 : ℕ) : ℤ) = r.bytesFromFTP then
        { r with
          bufferData := r.bufferData.set r.pointerData b
          pointerData := r.pointerData + 1
          receivedCommand := false
          command := .clear
          requestedBytesReceived := true }
      else
        { r with
          bufferData := r.bufferData.set r.pointerData b
          pointerData := r.pointerData + 1 }) := by
  rw [appendByte, if_pos hblock, appendData, dif_pos hroom]
  simp only
  split <;> rfl

/-- In a full line, only a CR is not stored behind it. -/
theorem not_allInside_of_full (hreceived : r.receivedCommand = false) (hcr : symbol ≠ 0x0D)
    (hfull : ¬ r.command.bytes.length < 32) : ¬ r.AllInside (symbol :: rest) := by
  rintro ⟨hstore, -⟩
  rw [StoresInside, if_neg (by simp [hreceived])] at hstore
  rcases hstore with h | ⟨-, h⟩ | h
  · exact hcr h
  · rw [h] at hfull
    exact hfull (by decide)
  · exact hfull h

/-- The words of a line fit `BufferParser`. -/
theorem getWord_line (r : ReaderFTP) (num : ℕ) :
    Parser.getWord (beforeZero r.command.bytes) num =
      some (Parser.word (beforeZero r.command.bytes) num) := by
  have hline : (beforeZero r.command.bytes).length ≤ r.command.bytes.length :=
    (List.takeWhile_prefix _).length_le
  apply Parser.getWord_of_short
  exact (hline.trans r.command.size_le).trans_lt (by decide)

/-- **What the end of a line does**, by its kind. -/
theorem endOfLine_cases (hreceived : r.receivedCommand = false) :
    match lineKind r.command.bytes with
    | .dropped => ∃ commands r', r.endOfLine = some (commands, r') ∧ Waiting r' ∧
        r'.pointerData = r.pointerData
    | .kept => ∃ r', r.endOfLine = some ([], r') ∧ r'.receivedCommand = false ∧
        r'.command = r.command ∧ r'.pointerData = r.pointerData
    | .offer n => ∃ r', r.endOfLine = some ([], r') ∧ r'.receivedCommand = true ∧
        r'.bytesFromFTP = n ∧ r'.pointerData = r.pointerData
    | .unreadable => r.endOfLine = none := by
  simp only [lineKind, endOfLine, getWord_line, Option.bind_eq_bind, Option.bind_some]
  by_cases hget : Parser.word (beforeZero r.command.bytes) 1 = ascii "+FTPGET"
  · rw [if_pos hget, if_pos hget]
    by_cases hone : (Parser.word (beforeZero r.command.bytes) 2).head? = some 0x31
    · rw [if_pos hone, if_pos hone]
      by_cases hopen : (Parser.word (beforeZero r.command.bytes) 3).head? = some 0x31
      · rw [if_pos hopen, if_pos hopen]
        exact ⟨_, _, rfl, ⟨hreceived, rfl⟩, rfl⟩
      · rw [if_neg hopen, if_neg hopen]
        exact ⟨_, rfl, hreceived, rfl, rfl⟩
    · rw [if_neg hone, if_neg hone]
      by_cases htwo : (Parser.word (beforeZero r.command.bytes) 2).head? = some 0x32
      · rw [if_pos htwo, if_pos htwo]
        cases hn : atoi (Parser.word (beforeZero r.command.bytes) 3) with
        | none => rfl
        | some n =>
            rw [Option.bind_some]
            by_cases hpos : 0 < n
            · simp only [if_pos hpos]
              exact ⟨_, rfl, rfl, (Int.toNat_of_nonneg hpos.le).symm, rfl⟩
            · simp only [if_neg hpos]
              exact ⟨_, _, rfl, ⟨rfl, rfl⟩, rfl⟩
      · rw [if_neg htwo, if_neg htwo]
        exact ⟨_, rfl, hreceived, rfl, rfl⟩
  · rw [if_neg hget, if_neg hget]
    exact ⟨_, _, rfl, ⟨rfl, rfl⟩, rfl⟩

/-- The end of a line leaves the bytes of the file alone. -/
theorem pointerData_endOfLine (hreceived : r.receivedCommand = false) {r' : ReaderFTP}
    (h : r.endOfLine = some (commands, r')) : r'.pointerData = r.pointerData := by
  have hcases := endOfLine_cases hreceived
  cases hk : lineKind r.command.bytes with
  | dropped =>
      rw [hk] at hcases
      obtain ⟨_, r'', hend, -, hsame⟩ := hcases
      obtain ⟨-, rfl⟩ := Prod.mk.inj (Option.some.inj (hend.symm.trans h))
      exact hsame
  | kept =>
      rw [hk] at hcases
      obtain ⟨r'', hend, -, -, hsame⟩ := hcases
      obtain ⟨-, rfl⟩ := Prod.mk.inj (Option.some.inj (hend.symm.trans h))
      exact hsame
  | offer n =>
      rw [hk] at hcases
      obtain ⟨r'', hend, -, -, hsame⟩ := hcases
      obtain ⟨-, rfl⟩ := Prod.mk.inj (Option.some.inj (hend.symm.trans h))
      exact hsame
  | unreadable =>
      rw [hk] at hcases
      exact absurd (hcases.symm.trans h) (by simp)

/-- `pointer_data` stays in range. -/
theorem pointerData_appendByte (hdata : r.pointerData ≤ 64) {r' : ReaderFTP}
    (h : r.appendByte symbol = some (commands, r')) : r'.pointerData ≤ 64 := by
  by_cases hblock : r.receivedCommand = true
  · have hroom : r.pointerData < 64 := by
      have hstore := storesInside_of_some h
      rwa [StoresInside, if_pos hblock] at hstore
    rw [appendByte_of_block hblock hroom] at h
    obtain ⟨-, rfl⟩ := Prod.mk.inj (Option.some.inj h)
    split
    · exact hroom
    · exact hroom
  · rw [appendByte, if_neg hblock] at h
    split at h
    · obtain ⟨-, rfl⟩ := Prod.mk.inj (Option.some.inj h)
      exact hdata
    split at h
    · split at h
      · obtain ⟨-, rfl⟩ := Prod.mk.inj (Option.some.inj h)
        exact hdata
      · obtain ⟨command, -, hend⟩ := Option.bind_eq_some_iff.mp h
        have hsame := pointerData_endOfLine (r := { r with command }) (Bool.eq_false_iff.mpr hblock)
          hend
        exact hsame.trans_le hdata
    · obtain ⟨command, -, h⟩ := Option.map_eq_some_iff.mp h
      obtain ⟨-, rfl⟩ := Prod.mk.inj h
      exact hdata

/-- The zero behind a line does not change its kind. -/
theorem lineKind_append_zero (text : List UInt8) : lineKind (text ++ [0]) = lineKind text := by
  rw [lineKind, beforeZero_concat]
  rfl

theorem allInside_append {sent : List (List Transmit)} {r' : ReaderFTP}
    (h : feed ReaderFTP.appendByte r symbols = some (sent, r')) :
    r.AllInside (symbols ++ rest) ↔ r'.AllInside rest := by
  induction symbols generalizing r sent with
  | nil =>
      obtain ⟨-, rfl⟩ := Prod.mk.inj (Option.some.inj h)
      rfl
  | cons b symbols ih =>
      rw [feed_cons, Option.bind_eq_some_iff] at h
      obtain ⟨⟨commands, q⟩, hfirst, h⟩ := h
      obtain ⟨⟨sent', q'⟩, hrest, h⟩ := Option.map_eq_some_iff.mp h
      obtain ⟨-, rfl⟩ := Prod.mk.inj h
      rw [List.cons_append, allInside_cons hfirst, ih hrest]

theorem allInside_singleton : r.AllInside [symbol] ↔ r.StoresInside symbol :=
  ⟨fun h => h.1, fun h => ⟨h, fun _ _ _ => trivial⟩⟩

/-! ## Lines and blocks -/

/-- The symbols of a line are collected while there is room. -/
theorem allInside_text (hreceived : r.receivedCommand = false) (hline : ∀ b ∈ line, b ≠ 0x0A) :
    r.AllInside (line ++ rest) ↔
      ∃ h : (r.command.bytes ++ line.filter (· ≠ 0x0D)).length ≤ 32,
        (r.collecting _ h).AllInside rest := by
  induction line generalizing r with
  | nil =>
      simp only [List.nil_append, List.filter_nil, List.append_nil]
      exact ⟨fun h => ⟨r.command.size_le, h⟩, fun ⟨_, h⟩ => h⟩
  | cons b line ih =>
      have htail : ∀ c ∈ line, c ≠ 0x0A := fun c hc => hline c (List.mem_cons_of_mem b hc)
      rw [List.cons_append]
      by_cases hcr : b = 0x0D
      · subst hcr
        rw [allInside_cons (appendByte_cr hreceived), ih hreceived htail]
        rfl
      have hfilter : (b :: line).filter (· ≠ 0x0D) = b :: line.filter (· ≠ 0x0D) :=
        List.filter_cons_of_pos (decide_eq_true hcr)
      by_cases hless : r.command.bytes.length < 32
      · have hone : (r.command.bytes ++ [b]).length ≤ 32 := by
          rw [List.length_append, List.length_singleton]
          exact hless
        have hlf : b ≠ 0x0A := hline b List.mem_cons_self
        rw [allInside_cons (appendByte_symbol hreceived hcr hlf hone),
          ih (r := r.collecting _ hone) hreceived htail, hfilter]
        simp only [collecting, List.append_assoc, List.singleton_append]
      · refine iff_of_false (not_allInside_of_full hreceived hcr hless) ?_
        rintro ⟨hroom, -⟩
        rw [hfilter, List.length_append, List.length_cons] at hroom
        omega

/-- Behind a zero nothing is read. -/
theorem beforeZero_append {bytes more : List UInt8} (h : 0 ∈ bytes) :
    beforeZero (bytes ++ more) = beforeZero bytes := by
  induction bytes with
  | nil => exact absurd h List.not_mem_nil
  | cons b bytes ih =>
      by_cases hb : b = 0
      · simp [beforeZero, hb]
      · have hmem : 0 ∈ bytes := (List.mem_cons.mp h).resolve_left (Ne.symm hb)
        simpa [beforeZero, hb] using ih hmem

theorem weight_cons (hcr : symbol ≠ 0x0D) : weight (symbol :: rest) = weight rest + 1 := by
  have hfilter : (symbol :: rest).filter (· ≠ 0x0D) = symbol :: rest.filter (· ≠ 0x0D) :=
    List.filter_cons_of_pos (decide_eq_true hcr)
  rw [weight, hfilter, List.length_cons, weight]

/-- **Behind a line that is kept** everything counts. -/
theorem allInside_kept (hreceived : r.receivedCommand = false) (hzero : 0 ∈ r.command.bytes)
    (hkept : lineKind r.command.bytes = .kept) :
    r.AllInside rest ↔ r.command.bytes.length + weight rest ≤ 32 := by
  induction rest generalizing r with
  | nil => exact iff_of_true trivial r.command.size_le
  | cons b rest ih =>
      by_cases hcr : b = 0x0D
      · subst hcr
        rw [allInside_cons (appendByte_cr hreceived), ih hreceived hzero hkept]
        rfl
      rw [weight_cons hcr]
      by_cases hless : r.command.bytes.length < 32
      · -- one symbol more, or the zero of one line more
        have hmore : ∀ c, (r.command.bytes ++ [c]).length = r.command.bytes.length + 1 := by
          intro c
          rw [List.length_append, List.length_singleton]
        have hstill : ∀ c, lineKind (r.command.bytes ++ [c]) = .kept := by
          intro c
          rw [lineKind, beforeZero_append hzero]
          exact hkept
        have hgo : ∀ (c : UInt8) (r' : ReaderFTP), r'.receivedCommand = false →
            r'.command.bytes = r.command.bytes ++ [c] →
            (r'.AllInside rest ↔ r.command.bytes.length + (weight rest + 1) ≤ 32) := by
          intro c r' hreceived' hcommand
          rw [ih hreceived' (hcommand ▸ List.mem_append_left _ hzero) (hcommand ▸ hstill c),
            hcommand, hmore]
          omega
        by_cases hlf : b = 0x0A
        · subst hlf
          have hroom : (r.command.bytes ++ [0]).length ≤ 32 := (hmore 0).trans_le hless
          have hend := endOfLine_cases (r := r.collecting _ hroom) hreceived
          rw [collecting, hstill] at hend
          obtain ⟨r', hend, hreceived', hcommand, -⟩ := hend
          have hstep := appendByte_lf hreceived (List.ne_nil_of_mem hzero) hroom
          rw [allInside_cons (hstep.trans hend)]
          exact hgo 0 r' hreceived' (congrArg Buffer.bytes hcommand)
        · have hroom : (r.command.bytes ++ [b]).length ≤ 32 := (hmore b).trans_le hless
          rw [allInside_cons (appendByte_symbol hreceived hcr hlf hroom)]
          exact hgo b _ hreceived rfl
      · refine iff_of_false (not_allInside_of_full hreceived hcr hless) ?_
        omega

/-- **A block** ends where `pointer_data` meets its number, or not at all. -/
theorem allInside_block {n : ℕ} (hblock : r.receivedCommand = true) (hn : r.bytesFromFTP = n)
    (hdata : r.pointerData ≤ 64)
    (hnext : ∀ (r' : ReaderFTP) (behind : List UInt8), behind.length ≤ rest.length → Waiting r' →
      r'.pointerData ≤ 64 → (r'.AllInside behind ↔ Bounded r'.pointerData behind)) :
    r.AllInside rest ↔
      if r.pointerData < n ∧ n ≤ r.pointerData + rest.length then
        n ≤ 64 ∧ Bounded n (rest.drop (n - r.pointerData))
      else r.pointerData + rest.length ≤ 64 := by
  induction rest generalizing r with
  | nil =>
      rw [List.length_nil, Nat.add_zero, if_neg fun h => (h.1.trans_le h.2).ne rfl]
      exact iff_of_true trivial hdata
  | cons b rest ih =>
      rw [List.length_cons]
      by_cases hless : r.pointerData < 64
      · have hstep := appendByte_of_block (b := b) hblock hless
        by_cases hend : r.pointerData + 1 = n
        · -- the last byte of the block
          rw [if_pos (by rw [hn]; exact_mod_cast hend)] at hstep
          have hdrop : (b :: rest).drop (n - r.pointerData) = rest := by
            rw [← hend, Nat.add_sub_cancel_left, List.drop_one, List.tail_cons]
          rw [allInside_cons hstep, if_pos ⟨by omega, by omega⟩, hdrop, ← hend]
          exact (hnext _ rest (Nat.le_succ _) ⟨rfl, rfl⟩ (Nat.succ_le_of_lt hless)).trans
            (and_iff_right hless).symm
        · rw [if_neg (by rw [hn]; exact_mod_cast hend)] at hstep
          have hrest := ih (r := { r with
            bufferData := r.bufferData.set r.pointerData b
            pointerData := r.pointerData + 1 }) hblock hn (Nat.succ_le_of_lt hless)
            fun r' behind hle => hnext r' behind (hle.trans (Nat.le_succ _))
          rw [allInside_cons hstep]
          refine hrest.trans ?_
          simp only
          by_cases hahead : r.pointerData < n ∧ n ≤ r.pointerData + (rest.length + 1)
          · have hdrop : (b :: rest).drop (n - r.pointerData) =
                rest.drop (n - (r.pointerData + 1)) := by
              have hsucc : n - r.pointerData = n - (r.pointerData + 1) + 1 := by omega
              rw [hsucc, List.drop_succ_cons]
            rw [if_pos hahead, if_pos ⟨by omega, by omega⟩, hdrop]
          · rw [if_neg hahead, if_neg (by omega)]
            omega
      · have hfull : ¬ r.AllInside (b :: rest) := by
          rintro ⟨hstore, -⟩
          rw [StoresInside, if_pos hblock] at hstore
          exact hless hstore
        refine iff_of_false hfull ?_
        split
        · rintro ⟨hmax, -⟩
          omega
        · omega

/-- **When every store lies in its array**: if and only if the symbols are bounded, behind the bytes
that `buffer_data` holds already. -/
theorem allInside_iff (h : Waiting r) (hdata : r.pointerData ≤ 64) (symbols : List UInt8) :
    r.AllInside symbols ↔ Bounded r.pointerData symbols := by
  induction hsize : symbols.length using Nat.strongRecOn generalizing r symbols with
  | ind size ih =>
  have hsplit := List.takeWhile_append_dropWhile (p := (· ≠ 0x0A)) (l := symbols)
  have hline : ∀ b ∈ symbols.takeWhile (· ≠ 0x0A), b ≠ 0x0A := fun b hb => by
    simpa using List.mem_takeWhile_imp hb
  generalize symbols.takeWhile (· ≠ 0x0A) = line at hsplit hline
  cases hbehind : symbols.dropWhile (· ≠ 0x0A) with
  | nil =>
      -- the line has no end
      have hwhole := @allInside_text r line [] h.receivedCommand hline
      rw [hbehind, List.append_nil] at hsplit
      subst hsplit
      rw [List.append_nil, h.command, List.nil_append] at hwhole
      rw [hwhole, bounded_of_unfinished hline]
      exact ⟨fun ⟨hroom, _⟩ => hroom, fun hroom => ⟨hroom, trivial⟩⟩
  | cons b behind =>
      obtain rfl : b = 0x0A := by
        have hne : symbols.dropWhile (· ≠ 0x0A) ≠ [] := by
          rw [hbehind]
          exact List.cons_ne_nil _ _
        have hhead := List.head_dropWhile_not _ hne
        simp only [hbehind, List.head_cons] at hhead
        simpa using hhead
      rw [hbehind] at hsplit
      have hless : behind.length < size := hsize ▸ length_behind_lt hbehind
      have htext := @allInside_text r line (0x0A :: behind) h.receivedCommand hline
      rw [h.command, List.nil_append] at htext
      rw [← hsplit, htext, bounded_of_line hline rfl]
      generalize line.filter (· ≠ 0x0D) = text
      by_cases hempty : text = []
      · subst hempty
        have hrest := ih _ hless h hdata behind rfl
        have hsame : ∀ hroom, r.collecting [] hroom = r :=
          fun hroom => (eq_collecting rfl h.command hroom).symm
        rw [if_pos rfl, ← hrest]
        simp only [hsame, allInside_cons (appendByte_lf_nil h.receivedCommand h.command)]
        exact ⟨fun ⟨_, hall⟩ => hall, fun hall => ⟨Nat.zero_le 32, hall⟩⟩
      rw [if_neg hempty]
      by_cases hfull : text.length < 32
      · have hzero : (text ++ [0]).length ≤ 32 := by
          rw [List.length_append, List.length_singleton]
          exact hfull
        have hstep : (r.collecting text hfull.le).appendByte 0x0A =
            (r.collecting (text ++ [0]) hzero).endOfLine :=
          appendByte_lf (r := r.collecting text hfull.le) h.receivedCommand hempty hzero
        have hend := endOfLine_cases (r := r.collecting (text ++ [0]) hzero) h.receivedCommand
        have hkind : lineKind (r.collecting (text ++ [0]) hzero).command.bytes = lineKind text :=
          lineKind_append_zero text
        rw [hkind] at hend
        have hroom : (∃ hroom, (r.collecting text hroom).AllInside (0x0A :: behind)) ↔
            (r.collecting text hfull.le).AllInside (0x0A :: behind) :=
          ⟨fun ⟨_, hall⟩ => hall, fun hall => ⟨hfull.le, hall⟩⟩
        rw [hroom, and_iff_right hfull]
        rw [← hstep] at hend
        cases hk : lineKind text with
        | dropped =>
            rw [hk] at hend
            obtain ⟨commands, r', hend, hwaiting, hsame⟩ := hend
            rw [allInside_cons hend]
            exact hsame ▸ ih _ hless hwaiting (hsame.trans_le hdata) behind rfl
        | kept =>
            rw [hk] at hend
            obtain ⟨r', hend, hreceived, hcommand, -⟩ := hend
            have hbytes : r'.command.bytes = text ++ [0] := congrArg Buffer.bytes hcommand
            rw [allInside_cons hend, allInside_kept hreceived (by rw [hbytes]; simp)
              (by rw [hbytes, lineKind_append_zero, hk]), hbytes, List.length_append,
              List.length_singleton]
        | offer n =>
            rw [hk] at hend
            obtain ⟨r', hend, hblock, hn, hsame⟩ := hend
            have hdata' : r'.pointerData ≤ 64 := hsame.trans_le hdata
            rw [allInside_cons hend, allInside_block hblock hn hdata'
              fun q rest hle hq hmax => ih _ (hle.trans_lt hless) hq hmax rest rfl, hsame]
            rfl
        | unreadable =>
            rw [hk] at hend
            refine iff_of_true ⟨?_, fun commands r' hsome => ?_⟩ trivial
            · rw [StoresInside, if_neg (by simp [collecting, h.receivedCommand])]
              exact .inr (.inr hfull)
            · exact absurd (hend.symm.trans hsome) (by simp)
      · refine iff_of_false ?_ fun hall => hfull hall.1
        rintro ⟨hroom, hall⟩
        exact not_allInside_of_full (r := r.collecting text hroom) h.receivedCommand (by decide)
          hfull hall

end ReaderFTP

namespace Loader

open NorFlash ReaderFTP

variable {chip : Chip} {s t : Loader} {now : UInt32} {answer : List UInt8}
  {commands : List Transmit}

/-! ## Polls -/

/-- The reader is left alone, or a request starts it anew. -/
def KeepsReader (s t : Loader) (commands : List Transmit) : Prop :=
  (asked commands = [] ∧ t.reader = s.reader ∧
      (t.inModeReceiveDataFromFTP → s.inModeReceiveDataFromFTP)) ∨
    asked commands ≠ [] ∧ ReaderFTP.Waiting t.reader ∧ t.reader.pointerData = 0

theorem KeepsReader.same (hasked : asked commands = []) (hreader : t.reader = s.reader)
    (hstate : t.updater.state = s.updater.state) : KeepsReader s t commands := by
  refine Or.inl ⟨hasked, hreader, fun hmode => ?_⟩
  rwa [inModeReceiveDataFromFTP, ← hstate]

theorem KeepsReader.left (hasked : asked commands = []) (hreader : t.reader = s.reader)
    (hmode : t.inModeReceiveDataFromFTP = false) : KeepsReader s t commands :=
  Or.inl ⟨hasked, hreader, fun h => absurd (hmode.symm.trans h) Bool.false_ne_true⟩

theorem KeepsReader.fresh (hasked : asked commands ≠ []) (hline : t.reader.receivedCommand = false)
    (hcommand : t.reader.command.bytes = []) (hdata : t.reader.pointerData = 0) :
    KeepsReader s t commands :=
  Or.inr ⟨hasked, ⟨hline, hcommand⟩, hdata⟩

theorem KeepsReader.trans {u : Loader} (hfirst : KeepsReader s u [])
    (hsecond : KeepsReader u t commands) : KeepsReader s t commands := by
  rcases hfirst with ⟨-, hreader, hmode⟩ | ⟨hasked, -⟩
  · rcases hsecond with ⟨hasked, hreader', hmode'⟩ | hfresh
    · exact Or.inl ⟨hasked, hreader'.trans hreader, fun h => hmode (hmode' h)⟩
    · exact Or.inr hfresh
  · exact absurd rfl hasked

theorem keepsReader_reset (s : Loader) : KeepsReader s s.reset [] := .left rfl rfl rfl

theorem keepsReader_waitOK {time : UInt32} {next : Updater.State} {command : String}
    (hnext : (s.setState now next).inModeReceiveDataFromFTP = false)
    (h : s.waitOK now time answer next command = some (commands, t)) :
    KeepsReader s t commands := by
  rcases meterIsRunning_cases h with h | ⟨-, h⟩
  · obtain ⟨rfl, rfl⟩ := Prod.mk.inj h
    exact keepsReader_reset s
  · split at h
    · obtain ⟨rfl, rfl⟩ := Prod.mk.inj (Option.some.inj h)
      exact .left rfl rfl hnext
    · obtain ⟨rfl, rfl⟩ := Prod.mk.inj (Option.some.inj h)
      exact .same rfl rfl rfl

theorem keepsReader_waitConnect (h : s.waitConnect now answer = some (commands, t)) :
    KeepsReader s t commands := by
  rcases meterIsRunning_cases h with h | ⟨-, h⟩
  · obtain ⟨rfl, rfl⟩ := Prod.mk.inj h
    exact keepsReader_reset s
  simp only [Option.bind_eq_bind, Option.bind_eq_some_iff] at h
  obtain ⟨word, -, h⟩ := h
  split at h
  · split at h
    · obtain ⟨rfl, rfl⟩ := Prod.mk.inj (Option.some.inj h)
      exact .fresh (List.cons_ne_nil _ _) rfl rfl rfl
    split at h
    · obtain ⟨rfl, rfl⟩ := Prod.mk.inj (Option.some.inj h)
      exact .left rfl rfl rfl
    · obtain ⟨rfl, rfl⟩ := Prod.mk.inj (Option.some.inj h)
      exact .same rfl rfl rfl
  · obtain ⟨rfl, rfl⟩ := Prod.mk.inj (Option.some.inj h)
    exact .same rfl rfl rfl

theorem keepsReader_getBytesVer (h : s.getBytesVer now = some (commands, t)) :
    KeepsReader s t commands := by
  rcases meterIsRunning_cases h with h | ⟨-, h⟩
  · obtain ⟨rfl, rfl⟩ := Prod.mk.inj h
    exact keepsReader_reset s
  simp only at h
  split at h
  · obtain ⟨rfl, rfl⟩ := Prod.mk.inj (Option.some.inj h)
    exact .fresh (List.cons_ne_nil _ _) rfl rfl rfl
  · obtain ⟨rfl, rfl⟩ := Prod.mk.inj (Option.some.inj h)
    exact .same rfl rfl rfl

theorem keepsReader_getBytesCrc (h : s.getBytesCrc now = some (commands, t)) :
    KeepsReader s t commands := by
  rcases meterIsRunning_cases h with h | ⟨-, h⟩
  · obtain ⟨rfl, rfl⟩ := Prod.mk.inj h
    exact keepsReader_reset s
  simp only at h
  split at h
  · obtain ⟨rfl, rfl⟩ := Prod.mk.inj (Option.some.inj h)
    exact .fresh (List.cons_ne_nil _ _) rfl rfl rfl
  · obtain ⟨rfl, rfl⟩ := Prod.mk.inj (Option.some.inj h)
    exact .same rfl rfl rfl

theorem keepsReader_getBytesFirmware (h : s.getBytesFirmware chip now = some (commands, t)) :
    KeepsReader s t commands := by
  rcases meterIsRunning_cases h with h | ⟨-, h⟩
  · obtain ⟨rfl, rfl⟩ := Prod.mk.inj h
    exact keepsReader_reset s
  simp only at h
  split at h
  · simp only [endOfFile, Option.bind_eq_bind, Option.bind_eq_some_iff] at h
    obtain ⟨p, -, q, -, h⟩ := h
    split at h
    · obtain ⟨rfl, rfl⟩ := Prod.mk.inj (Option.some.inj h)
      exact .same rfl rfl rfl
    · obtain ⟨rfl, rfl⟩ := Prod.mk.inj (Option.some.inj h)
      exact .left rfl rfl rfl
  split at h
  · obtain ⟨p, -, h⟩ := Option.map_eq_some_iff.mp h
    obtain ⟨rfl, rfl⟩ := Prod.mk.inj h
    exact .fresh (List.cons_ne_nil _ _) rfl rfl rfl
  · obtain ⟨rfl, rfl⟩ := Prod.mk.inj (Option.some.inj h)
    exact .same rfl rfl rfl

theorem keepsReader_updateUpdater (h : s.updateUpdater chip now answer = some (commands, t)) :
    KeepsReader s t commands := by
  rw [updateUpdater] at h
  split at h
  case h_1 =>
    obtain ⟨rfl, rfl⟩ := Prod.mk.inj (Option.some.inj h)
    exact .left rfl rfl rfl
  case h_2 =>
    obtain ⟨rfl, rfl⟩ := Prod.mk.inj (Option.some.inj h)
    exact .left rfl rfl rfl
  case h_14 => exact keepsReader_waitConnect h
  case h_15 => exact keepsReader_getBytesVer h
  case h_16 => exact keepsReader_getBytesCrc h
  case h_17 => exact keepsReader_getBytesFirmware h
  case h_18 =>
    obtain ⟨rfl, rfl⟩ := Prod.mk.inj (Option.some.inj h)
    exact .same rfl rfl rfl
  -- what is left are the states that wait for `OK`
  all_goals exact keepsReader_waitOK rfl h

/-! ## `SIM868` has no hand in the reader -/

theorem keepsReader_processUnsolicited {processed : Bool}
    (h : s.processUnsolicited answer = some (processed, t)) : KeepsReader s t [] := by
  simp only [processUnsolicited, Option.bind_eq_bind, Option.bind_eq_some_iff] at h
  obtain ⟨word, -, h⟩ := h
  split at h
  · obtain ⟨-, rfl⟩ := Prod.mk.inj (Option.some.inj h)
    exact keepsReader_reset s
  split at h
  · obtain ⟨level, -, h⟩ := Option.bind_eq_some_iff.mp h
    split at h
    · obtain ⟨-, rfl⟩ := Prod.mk.inj (Option.some.inj h)
      exact .same rfl rfl rfl
    · exact absurd h (by simp)
  split at h
  · obtain ⟨-, rfl⟩ := Prod.mk.inj (Option.some.inj h)
    exact keepsReader_reset s
  split at h
  · obtain ⟨-, rfl⟩ := Prod.mk.inj (Option.some.inj h)
    exact .same rfl rfl rfl
  · obtain ⟨-, rfl⟩ := Prod.mk.inj (Option.some.inj h)
    exact .same rfl rfl rfl

theorem keepsReader_waitAnswer {expected : String} {next : SIM868.State} {sent : List Transmit}
    (hsent : asked sent = [])
    (h : s.waitAnswer now answer expected next sent = some (commands, t)) :
    KeepsReader s t commands := by
  rcases meterIsRunningSIM868_cases h with h | h
  · obtain ⟨rfl, rfl⟩ := Prod.mk.inj h
    exact keepsReader_reset s
  · split at h
    · obtain ⟨rfl, rfl⟩ := Prod.mk.inj (Option.some.inj h)
      exact .same hsent rfl rfl
    · obtain ⟨rfl, rfl⟩ := Prod.mk.inj (Option.some.inj h)
      exact .same rfl rfl rfl

theorem keepsReader_dispatch (h : s.dispatch chip now answer = some (commands, t)) :
    KeepsReader s t commands := by
  rw [dispatch] at h
  split at h
  · obtain ⟨rfl, rfl⟩ := Prod.mk.inj (Option.some.inj h)
    exact .same rfl rfl rfl
  · exact keepsReader_waitAnswer rfl h
  · exact keepsReader_waitAnswer rfl h
  · exact keepsReader_waitAnswer rfl h
  · exact keepsReader_waitAnswer rfl h
  · rcases meterIsRunningSIM868_cases h with h | h
    · obtain ⟨rfl, rfl⟩ := Prod.mk.inj h
      exact keepsReader_reset s
    simp only [Option.bind_eq_bind, Option.bind_eq_some_iff] at h
    obtain ⟨word, -, h⟩ := h
    split at h
    · obtain ⟨stat, -, h⟩ := Option.bind_eq_some_iff.mp h
      split at h
      · obtain ⟨rfl, rfl⟩ := Prod.mk.inj (Option.some.inj h)
        exact .same rfl rfl rfl
      · obtain ⟨rfl, rfl⟩ := Prod.mk.inj (Option.some.inj h)
        exact .same rfl rfl rfl
    · obtain ⟨rfl, rfl⟩ := Prod.mk.inj (Option.some.inj h)
      exact .same rfl rfl rfl
  · rcases meterIsRunningSIM868_cases h with h | h
    · obtain ⟨rfl, rfl⟩ := Prod.mk.inj h
      exact keepsReader_reset s
    simp only [Option.bind_eq_bind, Option.bind_eq_some_iff] at h
    obtain ⟨word, -, h⟩ := h
    split at h
    · obtain ⟨rfl, rfl⟩ := Prod.mk.inj (Option.some.inj h)
      exact .same rfl rfl rfl
    · obtain ⟨rfl, rfl⟩ := Prod.mk.inj (Option.some.inj h)
      exact .same rfl rfl rfl
  · exact keepsReader_updateUpdater h

theorem keepsReader_updateSIM868 (h : s.updateSIM868 chip now answer = some (commands, t)) :
    KeepsReader s t commands := by
  simp only [updateSIM868, Option.bind_eq_bind, Option.bind_eq_some_iff] at h
  obtain ⟨⟨processed, u⟩, hanswer, h⟩ := h
  have hkept := keepsReader_processUnsolicited hanswer
  split at h
  · obtain ⟨rfl, rfl⟩ := Prod.mk.inj (Option.some.inj h)
    exact hkept
  · exact hkept.trans (keepsReader_dispatch h)

/-! ## Runs -/

/-- The loader, and the symbols that have come for the reader since the last request. -/
structure Hearing where
  loader : Loader
  since : List UInt8

/-- A step, and what is heard in it. -/
def hear (chip : Chip) (h : Hearing) (op : Op) : Option Hearing :=
  (h.loader.step chip op).map fun (commands, loader) =>
    { loader
      since := match op with
        | .receive symbol =>
            if h.loader.inModeReceiveDataFromFTP then h.since ++ [symbol] else h.since
        | .answer .. => if asked commands = [] then h.since else []
        | .modem _ | .copy => h.since }

/-- Every run of the loader can be listened to. -/
theorem exists_hear {ops : List Op} (hrun : LTS.Run (LTS.stepOf (next chip)) s ops t)
    (since : List UInt8) :
    ∃ since', LTS.Run (LTS.stepOf (hear chip)) ⟨s, since⟩ ops ⟨t, since'⟩ := by
  induction hrun with
  | nil => exact ⟨since, LTS.Run.nil⟩
  | @snoc _ v w op _ hnext ih =>
      obtain ⟨since', hheard⟩ := ih
      have hsame : (hear chip ⟨v, since'⟩ op).map Hearing.loader = some w := by
        rw [hear, Option.map_map]
        exact hnext
      obtain ⟨⟨_, since''⟩, hhear, rfl⟩ := Option.map_eq_some_iff.mp hsame
      exact ⟨since'', hheard.exec hhear⟩

/-- **What the reader has made of what was heard**: it was asked for bytes, and then it was given
these symbols. -/
structure Heard (h : Hearing) : Prop where
  data : h.loader.reader.pointerData ≤ 64
  since : h.loader.inModeReceiveDataFromFTP → ∃ r sent, ReaderFTP.Waiting r ∧ r.pointerData = 0 ∧
    Transducer.feed ReaderFTP.appendByte r h.since = some (sent, h.loader.reader)

/-- A step in which nothing is heard. -/
theorem Heard.kept {h : Hearing} {commands : List Transmit} (hh : Heard h)
    (hkept : KeepsReader h.loader t commands) :
    Heard ⟨t, if asked commands = [] then h.since else []⟩ := by
  rcases hkept with ⟨hasked, hreader, hmode⟩ | ⟨hasked, hwaiting, hdata⟩
  · rw [if_pos hasked]
    refine ⟨?_, fun h => ?_⟩
    · rw [hreader]
      exact hh.data
    · rw [hreader]
      exact hh.since (hmode h)
  · rw [if_neg hasked]
    exact ⟨hdata.trans_le (Nat.zero_le 64), fun _ => ⟨t.reader, [], hwaiting, hdata, rfl⟩⟩

/-- **Step lemma.** -/
theorem Heard.step {h h' : Hearing} {op : Op} (hh : Heard h) (hstep : hear chip h op = some h') :
    Heard h' := by
  rw [hear, Option.map_eq_some_iff] at hstep
  obtain ⟨⟨commands, u⟩, hstep, rfl⟩ := hstep
  cases op with
  | receive symbol =>
      rw [Loader.step, receive] at hstep
      split at hstep
      · rename_i hmode
        obtain ⟨⟨sent, r⟩, happend, hstep⟩ := Option.map_eq_some_iff.mp hstep
        obtain ⟨-, rfl⟩ := Prod.mk.inj hstep
        obtain ⟨r₀, before, hwaiting, hdata, hfeed⟩ := hh.since hmode
        refine ⟨pointerData_appendByte hh.data happend, fun _ => ?_⟩
        refine ⟨r₀, before ++ [sent], hwaiting, hdata, ?_⟩
        simp only [if_pos hmode]
        rw [feed_append_of_eq hfeed, feed_cons_of_eq happend]
        rfl
      · rename_i hmode
        obtain ⟨-, rfl⟩ := Prod.mk.inj (Option.some.inj hstep)
        simp only [if_neg hmode]
        exact hh
  | modem env =>
      rw [Loader.step] at hstep
      split at hstep
      · obtain ⟨rfl, rfl⟩ := Prod.mk.inj (Option.some.inj hstep)
        have hkept : KeepsReader h.loader (h.loader.updateModem env) [] := by
          rw [updateModem]
          cases (h.loader.modem.update env).2 <;> exact .same rfl rfl rfl
        exact hh.kept hkept
      · exact absurd hstep (by simp)
  | answer now answer =>
      rw [Loader.step] at hstep
      split at hstep
      · exact hh.kept (keepsReader_updateSIM868 hstep)
      · exact absurd hstep (by simp)
  | copy =>
      rw [Loader.step, Option.bind_eq_some_iff] at hstep
      obtain ⟨n, -, hstep⟩ := hstep
      obtain ⟨v, hround, hstep⟩ := Option.map_eq_some_iff.mp hstep
      obtain ⟨rfl, rfl⟩ := Prod.mk.inj hstep
      obtain ⟨p, -, hround⟩ := Option.map_eq_some_iff.mp hround
      have hkept : KeepsReader h.loader v [] := by
        split at hround
        · rw [← hround]
          exact .left rfl rfl rfl
        · rw [← hround]
          exact .same rfl rfl rfl
      exact hh.kept hkept

theorem heard_boot (cells : Memory) : Heard ⟨boot cells, []⟩ where
  data := Nat.zero_le 64
  since h := absurd h Bool.false_ne_true

/-- **When a store lies in its array.**  In every run from boot, with polls and everything else in
between: both cursors are in range, and the next symbol that comes in the mode is stored inside of
its array if and only if the symbols since the last request, with it, are bounded. -/
theorem cursors_inside (chip : Chip) {cells : Memory} {ops : List Op} {h : Hearing}
    (hrun : LTS.Run (LTS.stepOf (hear chip)) ⟨boot cells, []⟩ ops h) :
    h.loader.reader.command.bytes.length ≤ 32 ∧ h.loader.reader.pointerData ≤ 64 ∧
      (h.loader.inModeReceiveDataFromFTP → ∀ symbol,
        (h.loader.reader.StoresInside symbol ↔ ReaderFTP.Bounded 0 (h.since ++ [symbol]))) := by
  have hheard : Heard h := hrun.invariant (heard_boot cells) fun _ _ _ hh hstep => hh.step hstep
  refine ⟨h.loader.reader.command.size_le, hheard.data, fun hmode symbol => ?_⟩
  obtain ⟨r, sent, hwaiting, hdata, hfeed⟩ := hheard.since hmode
  rw [← hdata, ← allInside_iff hwaiting (hdata.trans_le (Nat.zero_le 64)), allInside_append hfeed,
    allInside_singleton]

/-- The symbols that the reader is given are heard. -/
theorem hear_symbols (chip : Chip) {s : Loader} (hmode : s.inModeReceiveDataFromFTP)
    {bytes : List UInt8} {sent : List (List Transmit)} {reader : ReaderFTP} (since : List UInt8)
    (hfeed : feed ReaderFTP.appendByte s.reader bytes = some (sent, reader)) :
    LTS.Run (LTS.stepOf (hear chip)) ⟨s, since⟩ (symbols bytes)
      ⟨{ s with reader }, since ++ bytes⟩ := by
  induction bytes generalizing s since sent with
  | nil =>
      obtain ⟨-, rfl⟩ := Prod.mk.inj (Option.some.inj hfeed)
      rw [List.append_nil]
      exact LTS.Run.nil
  | cons b bytes ih =>
      rw [Transducer.feed_cons, Option.bind_eq_some_iff] at hfeed
      obtain ⟨⟨commands, r⟩, hfirst, hfeed⟩ := hfeed
      obtain ⟨⟨sent', r'⟩, hrest, hfeed⟩ := Option.map_eq_some_iff.mp hfeed
      obtain ⟨-, rfl⟩ := Prod.mk.inj hfeed
      have hstep : hear chip ⟨s, since⟩ (.receive b) =
          some ⟨{ s with reader := r }, since ++ [b]⟩ := by
        rw [hear, Loader.step, receive, if_pos hmode, hfirst]
        simp only [if_pos hmode]
        rfl
      have hbehind := ih (s := { s with reader := r }) hmode (since ++ [b]) hrest
      rw [List.append_assoc, List.singleton_append] at hbehind
      exact (LTS.Run.single hstep).append hbehind

/-- A line of 31 letters, and a block of 64 bytes but for its last one. -/
def nearBounds : List UInt8 :=
  List.replicate 31 0x41 ++ [0x0D, 0x0A] ++ ascii "+FTPGET: 2,64" ++ [0x0D, 0x0A] ++
    List.replicate 63 0

set_option maxRecDepth 20000 in
theorem bounded_nearBounds (symbol : UInt8) : ReaderFTP.Bounded 0 (nearBounds ++ [symbol]) := by
  have hsplit : nearBounds ++ [symbol] = (List.replicate 31 0x41 ++ [0x0D]) ++ 0x0A ::
      ((ascii "+FTPGET: 2,64" ++ [0x0D]) ++ 0x0A :: (List.replicate 63 0 ++ [symbol])) := rfl
  have hletters : lineKind (List.replicate 31 0x41) = .dropped := by decide
  have hoffer : lineKind (ascii "+FTPGET: 2,64") = .offer 64 := by decide
  have hfirst : (List.replicate 31 (0x41 : UInt8) ++ [0x0D]).filter (· ≠ 0x0D) =
      List.replicate 31 0x41 := by decide
  have hsecond : (ascii "+FTPGET: 2,64" ++ [0x0D]).filter (· ≠ 0x0D) = ascii "+FTPGET: 2,64" := by
    decide
  rw [hsplit, bounded_of_line (by decide) hfirst, if_neg (by decide), hletters]
  refine ⟨by decide, ?_⟩
  rw [bounded_of_line (by decide) hsecond, if_neg (by decide), hoffer]
  refine ⟨by decide, ?_⟩
  have hlength : (List.replicate 63 0 ++ [symbol]).length = 64 := rfl
  have hbehind : (List.replicate 63 0 ++ [symbol]).drop (64 - 0) = [] :=
    List.drop_eq_nil_of_le hlength.le
  simp only [hlength]
  rw [if_pos ⟨by decide, le_rfl⟩, hbehind]
  exact ⟨le_rfl, (bounded_of_unfinished fun b hb => absurd hb List.not_mem_nil).mpr (by decide)⟩

/-- The staging area is prepared. -/
def blankArea : Programmer := (Programmer.idle fun _ => 0xFF).prepare HAL_ROM.ADDR_STORAGE

/-- The reader in front of the last byte of the block. -/
def nearlyFull : ReaderFTP :=
  { asking 64 64 with
    bufferData := Vector.replicate 64 0
    pointerData := 63
    command := ⟨ascii "+FTPGET: 2,64" ++ [0], by decide⟩
    receivedCommand := true }

set_option maxRecDepth 20000 in
theorem feed_nearBounds : feed ReaderFTP.appendByte (asking 64 4) nearBounds =
    some (List.replicate 111 [], nearlyFull) := by
  decide

/-- Both bounds are reached: the line fills `buffer_command` with its zero, and the next byte is the
64th of its block. -/
theorem cursors_inside_nearBounds : ∃ h,
    LTS.Run (LTS.stepOf (hear andChip)) ⟨boot fun _ => 0xFF, []⟩
        (connecting ++ header ++ symbols nearBounds) h ∧
      h.since = nearBounds ∧ h.loader.inModeReceiveDataFromFTP ∧
      h.loader.reader.receivedCommand ∧ h.loader.reader.pointerData = 63 ∧
      ∀ symbol, h.loader.reader.StoresInside symbol := by
  have hasked := ((run_connecting andChip).append (run_checksum andChip (Or.inl rfl))).mono
    fun _ _ _ hstep => hstep.step
  obtain ⟨since, hheard⟩ := exists_hear hasked []
  have hrequest : hear andChip ⟨during .GET_BYTES_CRC (answered 4) (.idle fun _ => 0xFF), since⟩
      (.answer 0 (ascii "")) =
        some ⟨during .GET_BYTES_FIRMWARE (asking 64 4) blankArea, []⟩ := by
    have hstep : Loader.step andChip
        (during .GET_BYTES_CRC (answered 4) (.idle fun _ => 0xFF)) (.answer 0 (ascii "")) =
          some ([.ftpGet 64], during .GET_BYTES_FIRMWARE (asking 64 4) blankArea) := rfl
    rw [hear, hstep]
    rfl
  have hsymbols := hear_symbols andChip
    (s := during .GET_BYTES_FIRMWARE (asking 64 4) blankArea) rfl [] feed_nearBounds
  have hrun := (hheard.exec hrequest).append hsymbols
  rw [List.append_assoc connecting] at hrun
  refine ⟨_, hrun, rfl, rfl, rfl, rfl, fun symbol => ?_⟩
  exact ((cursors_inside andChip hrun).2.2 rfl symbol).mpr (bounded_nearBounds symbol)

/-- The reader with 32 letters of a line. -/
def crowded : ReaderFTP := (asking 4 0).collecting (List.replicate 32 0x41) (by decide)

/-- **A line of 33 letters.**  The last one is stored behind `buffer_command`. -/
theorem overrun_of_long_line :
    ∃ ops s, LTS.Run (LTS.stepOf (next andChip)) (boot fun _ => 0xFF) ops s ∧
      s.inModeReceiveDataFromFTP ∧ ¬ s.reader.StoresInside 0x41 ∧ s.receive 0x41 = none := by
  have hfeed : Transducer.feed ReaderFTP.appendByte (asking 4 0) (List.replicate 32 0x41) =
      some (List.replicate 32 [], crowded) := by decide
  have hletters := run_symbols andChip
    (s := during .GET_BYTES_VER (asking 4 0) ⟨0, 0, [], [], ⟨fun _ => 0xFF, []⟩⟩) rfl hfeed
  have hrun := ((run_connecting andChip).append hletters).mono fun _ _ _ hstep => hstep.step
  have hbehind : ¬ crowded.StoresInside 0x41 := by decide
  exact ⟨_, _, hrun, rfl, hbehind, rfl⟩

end Loader

end USKD
