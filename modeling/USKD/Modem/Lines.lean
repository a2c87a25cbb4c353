import USKD.Modem.Coordinates
import USKD.Modem.Terminated

/-!
# The copies of a line

A line of the modem is text, and parts of it are copied to arrays of fixed size on the way: its
words to a `BufferParser`, the second word of `+CSQ` to `levelSignal`, two fields of `+UGNSINF` and
the number of `+IPD` to buffers on the stack.  Nothing compares the size of what is copied.

* `lineCopies` are the copies, `updateCopies` those of `SIM868::Update`.  The copies of words are
  those that `SIM868.update` looks at (`isSome_update_iff`), and the copies of fields those that
  `coordinates` does (`isSome_coordinates_iff`).
* A line has a header or goes to `SIM868::Update` as `InData::Update` has it
  (`sorted_of_turns`).
* All copies stay inside their arrays exactly if the parts that the state looks at are short
  (`inside_iff`).
-/

namespace USKD

namespace SIM868

open USKD.Parser

/-- **A copy** of a text, and of a zero behind it, to an array. -/
structure Copy where
  room : ℕ
  text : List UInt8

/-- The copy stays inside its array. -/
def Copy.Inside (c : Copy) : Prop := c.text.length < c.room

/-- `GetWord` copies a word, if only an empty one. -/
def copyWord (answer : List UInt8) (num : ℕ) : Copy := ⟨bufferSize, word answer num⟩

/-- `SymbolsToFloat` for the field behind the comma `num`, if it has more than one character. -/
def copyField (answer : List UInt8) (num : ℤ) : List Copy :=
  let position1 := positionSymbol answer 0x2C num + 1
  let position2 := positionSymbol answer 0x2C (num + 1)
  if position2 - position1 > 1 then [⟨32, symbols answer position1 position2⟩] else []

/-- The copies of `ProcessUnsolicited`. -/
def unsolicitedCopies (answer : List UInt8) : List Copy :=
  if answer = [] then []
  else
    copyWord answer 1 ::
      if answer = ascii "ERROR" then []
      else if answer = ascii "CLOSED" then []
      else if answer = ascii "SEND FAIL" then []
      else if word answer 1 = ascii "+CSQ" then
        -- `strcpy` to `levelSignal`
        [copyWord answer 2, ⟨16, word answer 2⟩]
      else if word answer 1 = ascii "+UGNSINF" then
        if numberSymbols answer 0x2C > 4 then copyField answer 3 ++ copyField answer 4 else []
      else []

/-- The copies of the `switch` of `SIM868::Update`, in `START` the one to `levelSignal`; a state
makes none when its time is over. -/
def dialogueCopies (s : SIM868) (now : UInt32) (answer : List UInt8) : List Copy :=
  let waiting (time : UInt32) (copies : List Copy) : List Copy :=
    if s.stateMeter.elapsedTime now ≤ time then copies else []
  match s.state with
  | .START => [⟨16, ascii "0"⟩]
  | .WAIT_REGISTRATION =>
      waiting 60000
        (copyWord answer 1 ::
          if word answer 1 = ascii "+CREG" then [copyWord answer 2] else [])
  | .WAIT_IP_INITIAL | .WAIT_IP_START | .WAIT_IP_GPRSACT | .WAIT_IP_STATUS =>
      waiting defaultTime [copyWord answer 3]
  | .WAIT_CSTT | .WAIT_CIICR | .WAIT_CIFSR => waiting defaultTime [copyWord answer 1]
  | .WAIT_TCP_CONNECT =>
      waiting 160000
        (copyWord answer 1 ::
          if word answer 1 = ascii "ALREADY" then []
          else
            copyWord answer 2 :: if word answer 2 = ascii "OK" then [] else [copyWord answer 2])
  | _ => []

/-- The copies of `SIM868::Update`. -/
def updateCopies (s : SIM868) (now : UInt32) (answer : List UInt8) : List Copy :=
  unsolicitedCopies answer ++
    if processUnsolicited answer = some .passed then s.dialogueCopies now answer else []

/-- **The copies that are made of a line**: of a header by `InData::Update`, of any other line by
`SIM868::Update`. -/
def lineCopies (s : SIM868) (now : UInt32) (line : List UInt8) : List Copy :=
  if InData.isHeader line then [⟨32, InData.Decoder.number line⟩] else s.updateCopies now line

/-! ## The copies of the model -/

variable {s : SIM868} {now : UInt32} {answer : List UInt8} {homeVersion : Bool} {num : ℕ}

/-- The copies of words stay inside. -/
def WordsInside (copies : List Copy) : Prop := ∀ c ∈ copies, c.room = bufferSize → c.Inside

theorem wordsInside_nil : WordsInside [] := fun _ hc => absurd hc List.not_mem_nil

theorem wordsInside_cons {copies : List Copy} :
    WordsInside (copyWord answer num :: copies) ↔
      (copyWord answer num).Inside ∧ WordsInside copies := by
  unfold WordsInside
  rw [List.forall_mem_cons]
  exact and_congr_left' ⟨fun h => h rfl, fun h _ => h⟩

theorem wordsInside_singleton : WordsInside [copyWord answer num] ↔ (copyWord answer num).Inside := by
  rw [wordsInside_cons]
  exact and_iff_left wordsInside_nil

/-- A copy to another array is not looked at. -/
theorem wordsInside_other {room : ℕ} (hroom : room ≠ bufferSize) (text : List UInt8) :
    WordsInside [⟨room, text⟩] := by
  intro c hc hword
  rw [List.mem_singleton.mp hc] at hword
  exact absurd hword hroom

theorem wordsInside_append {copies copies' : List Copy} :
    WordsInside (copies ++ copies') ↔ WordsInside copies ∧ WordsInside copies' :=
  List.forall_mem_append

theorem getWord_of_inside (h : (copyWord answer num).Inside) :
    getWord answer num = some (word answer num) :=
  getWord_of_lt h

theorem getWord_of_not_inside (h : ¬ (copyWord answer num).Inside) : getWord answer num = none := by
  rw [getWord_eq]
  exact if_neg h

theorem isSome_getWord_iff : (getWord answer num).isSome ↔ (copyWord answer num).Inside :=
  isSome_getWord

theorem isSome_isWord_iff {text : List UInt8} :
    (isWord answer num text).isSome ↔ WordsInside [copyWord answer num] := by
  unfold isWord
  rw [Option.isSome_map, wordsInside_singleton]
  exact isSome_getWord

/-- No copy of a field is one of a word. -/
theorem wordsInside_copyField (num : ℤ) : WordsInside (copyField answer num) := by
  unfold copyField
  simp only
  split
  · exact wordsInside_other (by decide) _
  · exact wordsInside_nil

theorem isSome_processUnsolicited_iff :
    (processUnsolicited answer).isSome ↔ WordsInside (unsolicitedCopies answer) := by
  unfold processUnsolicited unsolicitedCopies
  by_cases hnil : answer = []
  · rw [if_pos hnil, if_pos hnil]
    exact iff_of_true rfl wordsInside_nil
  rw [if_neg hnil, if_neg hnil, wordsInside_cons]
  by_cases hfirst : (copyWord answer 1).Inside
  · rw [getWord_of_inside hfirst]
    simp only [Option.bind_eq_bind, Option.bind_some, Option.pure_def, hfirst, true_and]
    split
    · exact iff_of_true rfl wordsInside_nil
    split
    · exact iff_of_true rfl wordsInside_nil
    split
    · exact iff_of_true rfl wordsInside_nil
    split
    · rw [wordsInside_cons]
      by_cases hsecond : (copyWord answer 2).Inside
      · rw [getWord_of_inside hsecond]
        exact iff_of_true rfl ⟨hsecond, wordsInside_other (by decide) _⟩
      · rw [getWord_of_not_inside hsecond]
        exact iff_of_false (by simp) fun h => hsecond h.1
    split
    · refine iff_of_true rfl ?_
      split
      · rw [wordsInside_append]
        exact ⟨wordsInside_copyField 3, wordsInside_copyField 4⟩
      · exact wordsInside_nil
    split <;> exact iff_of_true rfl wordsInside_nil
  · rw [getWord_of_not_inside hfirst]
    exact iff_of_false (by simp) fun h => hfirst h.1

theorem isSome_await_iff {time : UInt32} {found : Option Bool} {next : State}
    {command : Option (List UInt8)} {copies : List Copy} (h : found.isSome ↔ WordsInside copies) :
    (s.await now time found next command).isSome ↔
      WordsInside (if s.stateMeter.elapsedTime now ≤ time then copies else []) := by
  unfold SIM868.await
  split
  · rw [Option.isSome_map]
    exact h
  · exact iff_of_true rfl wordsInside_nil

theorem isSome_isRegistration_iff :
    (isRegistration answer).isSome ↔ WordsInside (copyWord answer 1 ::
      if word answer 1 = ascii "+CREG" then [copyWord answer 2] else []) := by
  unfold isRegistration isWord
  rw [wordsInside_cons]
  by_cases hfirst : (copyWord answer 1).Inside
  · rw [getWord_of_inside hfirst]
    simp only [Option.map_some, Option.bind_eq_bind, Option.bind_some, Option.pure_def, hfirst,
      true_and, decide_eq_true_eq]
    split
    · rw [wordsInside_singleton, ← isSome_getWord_iff]
      cases getWord answer 2 <;> simp
    · exact iff_of_true rfl wordsInside_nil
  · rw [getWord_of_not_inside hfirst]
    exact iff_of_false (by simp) fun h => hfirst h.1

theorem isSome_isConnected_iff :
    ((isConnected answer).bind fun connected =>
        if connected then some true else isWord answer 2 (ascii "FAIL")).isSome ↔
      WordsInside (copyWord answer 1 ::
        if word answer 1 = ascii "ALREADY" then []
        else
          copyWord answer 2 :: if word answer 2 = ascii "OK" then [] else [copyWord answer 2]) := by
  unfold isConnected isWord
  rw [wordsInside_cons]
  by_cases hfirst : (copyWord answer 1).Inside
  · rw [getWord_of_inside hfirst]
    simp only [Option.map_some, Option.bind_eq_bind, Option.bind_some, Option.pure_def, hfirst,
      true_and, decide_eq_true_eq]
    split
    · exact iff_of_true rfl wordsInside_nil
    · rw [wordsInside_cons]
      by_cases hsecond : (copyWord answer 2).Inside
      · rw [getWord_of_inside hsecond]
        refine iff_of_true ?_ ⟨hsecond, ?_⟩
        · simp only [Option.map_some, Option.bind_some]
          split <;> rfl
        · split
          · exact wordsInside_nil
          · exact wordsInside_singleton.mpr hsecond
      · rw [getWord_of_not_inside hsecond]
        exact iff_of_false (by simp) fun h => hsecond h.1
  · rw [getWord_of_not_inside hfirst]
    exact iff_of_false (by simp) fun h => hfirst h.1

theorem isSome_dialogue_iff :
    (s.dialogue homeVersion now answer).isSome ↔ WordsInside (s.dialogueCopies now answer) := by
  unfold dialogue dialogueCopies
  cases hstate : s.state with
  | START => exact iff_of_true rfl (wordsInside_other (by decide) _)
  | RUNNING_MQTT => exact iff_of_true rfl wordsInside_nil
  | WAIT_REGISTRATION => exact isSome_await_iff isSome_isRegistration_iff
  | WAIT_IP_INITIAL | WAIT_IP_START | WAIT_IP_GPRSACT | WAIT_IP_STATUS | WAIT_CSTT | WAIT_CIICR =>
      exact isSome_await_iff isSome_isWord_iff
  | WAIT_CIFSR =>
      refine isSome_await_iff ?_
      rw [Option.isSome_map]
      exact isSome_isWord_iff
  | WAIT_TCP_CONNECT =>
      simp only
      split
      · rw [← isSome_isConnected_iff]
        cases isConnected answer with
        | none => rfl
        | some connected =>
            cases connected with
            | true => rfl
            | false =>
                show ((isWord answer 2 (ascii "FAIL")).bind _).isSome ↔ _
                cases isWord answer 2 (ascii "FAIL") <;> rfl
      · exact iff_of_true rfl wordsInside_nil
  | _ =>
      -- the whole answer is compared
      refine iff_of_true ?_ wordsInside_nil
      simp only [SIM868.await]
      split <;> rfl

/-- **The model fails exactly where a word is copied behind its array.** -/
theorem isSome_update_iff :
    (s.update homeVersion now answer).isSome ↔ WordsInside (s.updateCopies now answer) := by
  unfold update updateCopies
  rw [wordsInside_append, ← isSome_processUnsolicited_iff]
  cases processUnsolicited answer with
  | none => exact iff_of_false (by simp) fun h => absurd h.1 (by simp)
  | some unsolicited =>
      cases unsolicited with
      | handled | reset => exact iff_of_true rfl ⟨rfl, wordsInside_nil⟩
      | passed =>
          show (s.dialogue homeVersion now answer).isSome ↔ _
          rw [isSome_dialogue_iff, if_pos rfl]
          exact ⟨fun h => ⟨rfl, h⟩, fun h => h.2⟩

section

variable {F : Type} [Zero F] {atof : List UInt8 → F}

/-- A field is read where its copy stays inside. -/
theorem isSome_coordinate_iff {num next : ℤ} (hnext : next = num + 1) :
    (coordinate atof answer (positionSymbol answer 0x2C num + 1)
        (positionSymbol answer 0x2C next)).isSome ↔ ∀ c ∈ copyField answer num, c.Inside := by
  subst hnext
  unfold coordinate copyField symbolsToFloat
  simp only
  split
  · rw [List.forall_mem_singleton, Copy.Inside]
    split
    · rename_i hroom
      exact iff_of_true rfl hroom
    · rename_i hroom
      exact iff_of_false (by simp) hroom
  · exact iff_of_true rfl fun _ hc => absurd hc List.not_mem_nil

/-- The copies other than the one to `levelSignal` stay inside. -/
def OthersInside (copies : List Copy) : Prop := ∀ c ∈ copies, c.room ≠ 16 → c.Inside

theorem othersInside_nil : OthersInside [] := fun _ hc => absurd hc List.not_mem_nil

theorem othersInside_cons {copies : List Copy} :
    OthersInside (copyWord answer num :: copies) ↔
      (copyWord answer num).Inside ∧ OthersInside copies := by
  unfold OthersInside
  rw [List.forall_mem_cons]
  have hroom : (copyWord answer num).room ≠ 16 := show (128 : ℕ) ≠ 16 by decide
  exact and_congr_left' ⟨fun h => h hroom, fun h _ => h⟩

theorem othersInside_copyField {num : ℤ} :
    OthersInside (copyField answer num) ↔ ∀ c ∈ copyField answer num, c.Inside := by
  refine forall₂_congr fun c hc => ⟨fun h => h ?_, fun h _ => h⟩
  unfold copyField at hc
  simp only at hc
  split at hc
  · rw [List.mem_singleton.mp hc]
    exact show (32 : ℕ) ≠ 16 by decide
  · exact absurd hc List.not_mem_nil

/-- **The coordinates are read exactly where neither a word nor a field is copied behind its
array.** -/
theorem isSome_coordinates_iff :
    (coordinates atof answer).isSome ↔ OthersInside (unsolicitedCopies answer) := by
  unfold coordinates unsolicitedCopies
  by_cases hnil : answer = []
  · rw [if_pos hnil, if_pos hnil]
    exact iff_of_true rfl othersInside_nil
  rw [if_neg hnil, if_neg hnil, othersInside_cons]
  by_cases hfirst : (copyWord answer 1).Inside
  · rw [getWord_of_inside hfirst]
    simp only [Option.bind_eq_bind, Option.bind_some, Option.pure_def, hfirst, true_and]
    split
    · exact iff_of_true rfl othersInside_nil
    split
    · exact iff_of_true rfl othersInside_nil
    split
    · exact iff_of_true rfl othersInside_nil
    split
    · rw [othersInside_cons]
      by_cases hsecond : (copyWord answer 2).Inside
      · rw [getWord_of_inside hsecond]
        refine iff_of_true rfl ⟨hsecond, fun c hc hroom => ?_⟩
        rw [List.mem_singleton.mp hc] at hroom
        exact absurd rfl hroom
      · rw [getWord_of_not_inside hsecond]
        exact iff_of_false (by simp) fun h => hsecond h.1
    split
    · split
      · have hlatitude := @isSome_coordinate_iff answer F _ atof 3 4 (by decide)
        have hlongitude := @isSome_coordinate_iff answer F _ atof 4 5 (by decide)
        have hboth : OthersInside (copyField answer 3 ++ copyField answer 4) ↔
            OthersInside (copyField answer 3) ∧ OthersInside (copyField answer 4) :=
          List.forall_mem_append
        rw [hboth, othersInside_copyField, othersInside_copyField, ← hlatitude, ← hlongitude]
        generalize coordinate atof answer _ _ = latitude
        generalize coordinate atof answer _ _ = longitude
        cases latitude <;> cases longitude <;> simp
      · exact iff_of_true rfl othersInside_nil
    · exact iff_of_true rfl othersInside_nil
  · rw [getWord_of_not_inside hfirst]
    exact iff_of_false (by simp) fun h => hfirst h.1

end

/-! ## Which lines are copied inside the arrays -/

/-- **The parts of a line that are looked at are short.**  `words` are cut at blanks, commas,
colons and equals signs, `fields` at commas. -/
structure Fits (s : SIM868) (now : UInt32) (line : List UInt8) : Prop where
  first : ((words line).getD 0 []).length ≤ 127
  level : (words line).getD 0 [] = ascii "+CSQ" → ((words line).getD 1 []).length ≤ 15
  coordinates : (words line).getD 0 [] = ascii "+UGNSINF" → 6 ≤ (fields line).length →
    ((fields line).getD 3 []).length ≤ 31 ∧ ((fields line).getD 4 []).length ≤ 31
  registration : (words line).getD 0 [] = ascii "+CREG" → s.state = .WAIT_REGISTRATION →
    s.stateMeter.elapsedTime now ≤ 60000 → ((words line).getD 1 []).length ≤ 127
  status : (words line).getD 0 [] ≠ ascii "+CSQ" →
    s.state ∈ [State.WAIT_IP_INITIAL, .WAIT_IP_START, .WAIT_IP_GPRSACT, .WAIT_IP_STATUS] →
      s.stateMeter.elapsedTime now ≤ defaultTime → ((words line).getD 2 []).length ≤ 127
  connect : (words line).getD 0 [] ≠ ascii "+CSQ" → (words line).getD 0 [] ≠ ascii "ALREADY" →
    s.state = .WAIT_TCP_CONNECT → s.stateMeter.elapsedTime now ≤ 160000 →
      ((words line).getD 1 []).length ≤ 127

theorem copyWord_inside_iff : (copyWord answer num).Inside ↔ (word answer num).length ≤ 127 :=
  Nat.lt_succ_iff

theorem inside_nil : ∀ c ∈ ([] : List Copy), c.Inside := fun _ hc => absurd hc List.not_mem_nil

/-- Copies that are made on a condition. -/
theorem inside_ite {p : Prop} [Decidable p] {copies : List Copy} :
    (∀ c ∈ (if p then copies else []), c.Inside) ↔ (p → ∀ c ∈ copies, c.Inside) := by
  split
  · rename_i h
    exact ⟨fun hinside _ => hinside, fun hinside => hinside h⟩
  · rename_i h
    exact iff_of_true inside_nil fun hp => absurd hp h

/-- A line that is shorter than the buffer has short words. -/
theorem copyWord_inside_of_short (h : answer.length < bufferSize) (num : ℕ) :
    (copyWord answer num).Inside :=
  (length_word_le answer num).trans_lt h

theorem copyField_inside_iff {k : ℕ} {num : ℤ} (hnum : num = k + 1)
    (hk : k + 2 < (fields answer).length) :
    (∀ c ∈ copyField answer num, c.Inside) ↔ ((fields answer).getD (k + 1) []).length ≤ 31 := by
  obtain ⟨hsymbols, hlength⟩ := symbols_eq hk
  unfold copyField
  simp only [hnum, hsymbols, hlength]
  split
  · rw [List.forall_mem_singleton]
    exact Nat.lt_succ_iff
  · rename_i hshort
    refine iff_of_true inside_nil ?_
    omega

/-- **What `ProcessUnsolicited` copies.** -/
theorem unsolicited_inside_iff :
    (∀ c ∈ unsolicitedCopies answer, c.Inside) ↔
      (word answer 1).length ≤ 127 ∧
        (word answer 1 = ascii "+CSQ" → (word answer 2).length ≤ 15) ∧
        (word answer 1 = ascii "+UGNSINF" → 6 ≤ (fields answer).length →
          ((fields answer).getD 3 []).length ≤ 31 ∧ ((fields answer).getD 4 []).length ≤ 31) := by
  unfold unsolicitedCopies
  by_cases hnil : answer = []
  · rw [if_pos hnil, hnil]
    exact iff_of_true inside_nil (by decide)
  rw [if_neg hnil, List.forall_mem_cons, copyWord_inside_iff]
  apply and_congr_right'
  split
  · rename_i hanswer
    rw [hanswer]
    exact iff_of_true inside_nil (by decide)
  split
  · rename_i hanswer
    rw [hanswer]
    exact iff_of_true inside_nil (by decide)
  split
  · rename_i hanswer
    rw [hanswer]
    exact iff_of_true inside_nil (by decide)
  split
  · rename_i hcsq
    have hne : word answer 1 ≠ ascii "+UGNSINF" := by
      rw [hcsq]
      decide
    rw [List.forall_mem_cons, List.forall_mem_singleton, copyWord_inside_iff]
    constructor
    · intro hinside
      exact ⟨fun _ => Nat.lt_succ_iff.mp hinside.2, fun h => absurd h hne⟩
    · intro hfits
      have hlevel := hfits.1 hcsq
      exact ⟨by omega, Nat.lt_succ_iff.mpr hlevel⟩
  rename_i hcsq
  split
  · rename_i hinf
    have hcommas := length_fields answer
    split
    · rename_i hmore
      have hmany : 6 ≤ (fields answer).length := by omega
      rw [List.forall_mem_append, @copyField_inside_iff answer 2 3 (by decide) (by omega),
        @copyField_inside_iff answer 3 4 (by decide) (by omega)]
      exact ⟨fun h => ⟨fun hc => absurd hc hcsq, fun _ _ => h⟩, fun h => h.2 hinf hmany⟩
    · rename_i hfew
      refine iff_of_true inside_nil ⟨fun hc => absurd hc hcsq, ?_⟩
      intro _ hmany
      omega
  · rename_i hinf
    exact iff_of_true inside_nil ⟨fun hc => absurd hc hcsq, fun hc => absurd hc hinf⟩

/-- **What the dialogue copies**, the first word being short. -/
theorem dialogue_inside_iff (hfirst : (word answer 1).length ≤ 127) :
    (∀ c ∈ s.dialogueCopies now answer, c.Inside) ↔
      (word answer 1 = ascii "+CREG" → s.state = .WAIT_REGISTRATION →
        s.stateMeter.elapsedTime now ≤ 60000 → (word answer 2).length ≤ 127) ∧
      (s.state ∈ [State.WAIT_IP_INITIAL, .WAIT_IP_START, .WAIT_IP_GPRSACT, .WAIT_IP_STATUS] →
        s.stateMeter.elapsedTime now ≤ defaultTime → (word answer 3).length ≤ 127) ∧
      (word answer 1 ≠ ascii "ALREADY" → s.state = .WAIT_TCP_CONNECT →
        s.stateMeter.elapsedTime now ≤ 160000 → (word answer 2).length ≤ 127) := by
  have hword : (copyWord answer 1).Inside := copyWord_inside_iff.mpr hfirst
  unfold dialogueCopies
  cases hstate : s.state with
  | START =>
      have hzero : (Copy.mk 16 (ascii "0")).Inside := by
        unfold Copy.Inside
        decide
      simp [hzero]
  | WAIT_REGISTRATION =>
      simp only
      rw [inside_ite]
      by_cases hcreg : word answer 1 = ascii "+CREG"
      · simp [hcreg, hword, copyWord_inside_iff]
      · simp [hcreg, hword]
  | WAIT_TCP_CONNECT =>
      simp only
      rw [inside_ite]
      by_cases hready : word answer 1 = ascii "ALREADY"
      · simp [hready, hword]
      · by_cases hok : word answer 2 = ascii "OK"
        · simp [hready, hok, hword, copyWord_inside_iff]
        · simp [hready, hok, hword, copyWord_inside_iff]
  | WAIT_IP_INITIAL | WAIT_IP_START | WAIT_IP_GPRSACT | WAIT_IP_STATUS =>
      simp only
      rw [inside_ite]
      simp [copyWord_inside_iff]
  | WAIT_CSTT | WAIT_CIICR | WAIT_CIFSR =>
      simp only
      rw [inside_ite]
      simp [hword]
  | _ => simp

theorem ne_csq_of_passed (h : processUnsolicited answer = some .passed) :
    word answer 1 ≠ ascii "+CSQ" := by
  intro hcsq
  unfold processUnsolicited at h
  by_cases hnil : answer = []
  · rw [hnil] at hcsq
    exact absurd hcsq (by decide)
  have hfirst : getWord answer 1 = some (word answer 1) := by
    apply getWord_of_lt
    rw [hcsq]
    decide
  rw [if_neg hnil, hfirst] at h
  simp only [Option.bind_eq_bind, Option.bind_some, Option.pure_def, hcsq, if_true] at h
  split at h
  · exact absurd h (by decide)
  split at h
  · exact absurd h (by decide)
  split at h
  · exact absurd h (by decide)
  · cases hsecond : getWord answer 2 with
    | none =>
        rw [hsecond] at h
        exact absurd h (by decide)
    | some level =>
        rw [hsecond] at h
        exact absurd (Option.some.inj h) (by decide)

/-- An answer that is too long for the texts of `ProcessUnsolicited` goes to the dialogue. -/
theorem passed_of_long (hlong : bufferSize ≤ answer.length) (hfirst : (copyWord answer 1).Inside)
    (hcsq : word answer 1 ≠ ascii "+CSQ") : processUnsolicited answer = some .passed := by
  have hne : ∀ text : List UInt8, text.length < bufferSize → answer ≠ text := by
    rintro text hshort rfl
    omega
  unfold processUnsolicited
  rw [if_neg (hne [] (by decide)), getWord_of_inside hfirst]
  simp only [Option.bind_eq_bind, Option.bind_some, Option.pure_def,
    if_neg (hne (ascii "ERROR") (by decide)), if_neg (hne (ascii "CLOSED") (by decide)),
    if_neg (hne (ascii "SEND FAIL") (by decide)), if_neg (hne (ascii "SEND OK") (by decide)),
    if_neg hcsq]
  split <;> rfl

/-- Whether the dialogue is reached matters only for `+CSQ`: the other answers that do not reach it
are short. -/
theorem dialogue_iff_passed (hfirst : (copyWord answer 1).Inside) :
    (processUnsolicited answer = some .passed → ∀ c ∈ s.dialogueCopies now answer, c.Inside) ↔
      (word answer 1 ≠ ascii "+CSQ" → ∀ c ∈ s.dialogueCopies now answer, c.Inside) := by
  constructor
  · intro hpassed hcsq
    by_cases hshort : answer.length < bufferSize
    · have hwords : ∀ num, (word answer num).length ≤ 127 := fun num =>
        copyWord_inside_iff.mp (copyWord_inside_of_short hshort num)
      exact (dialogue_inside_iff (hwords 1)).mpr
        ⟨fun _ _ _ => hwords 2, fun _ _ => hwords 3, fun _ _ _ => hwords 2⟩
    · exact hpassed (passed_of_long (Nat.not_lt.mp hshort) hfirst hcsq)
  · intro hdialogue hpassed
    exact hdialogue (ne_csq_of_passed hpassed)

/-- **What `SIM868::Update` copies.** -/
theorem update_inside_iff :
    (∀ c ∈ s.updateCopies now answer, c.Inside) ↔ s.Fits now answer := by
  have hone : word answer 1 = (words answer).getD 0 [] := word_eq answer (by decide)
  have htwo : word answer 2 = (words answer).getD 1 [] := word_eq answer (by decide)
  have hthree : word answer 3 = (words answer).getD 2 [] := word_eq answer (by decide)
  unfold updateCopies
  rw [List.forall_mem_append, unsolicited_inside_iff, inside_ite]
  constructor
  · rintro ⟨⟨hfirst, hlevel, hfields⟩, hpassed⟩
    rw [dialogue_iff_passed (copyWord_inside_iff.mpr hfirst), dialogue_inside_iff hfirst, hone,
      htwo, hthree] at hpassed
    rw [hone] at hfirst hlevel hfields
    rw [htwo] at hlevel
    refine ⟨hfirst, hlevel, hfields, ?_, fun hcsq => (hpassed hcsq).2.1,
      fun hcsq => (hpassed hcsq).2.2⟩
    intro hcreg
    have hcsq : (words answer).getD 0 [] ≠ ascii "+CSQ" := by
      rw [hcreg]
      decide
    exact (hpassed hcsq).1 hcreg
  · intro hfits
    have hfirst : (word answer 1).length ≤ 127 := by
      rw [hone]
      exact hfits.first
    rw [dialogue_iff_passed (copyWord_inside_iff.mpr hfirst), dialogue_inside_iff hfirst, hone,
      htwo, hthree]
    exact ⟨⟨hfits.first, hfits.level, hfits.coordinates⟩, fun hcsq => ⟨hfits.registration,
      hfits.status hcsq, hfits.connect hcsq⟩⟩

end SIM868

/-! ## The lines of the receive buffer -/

namespace InData

variable {i : ℕ} {answer : Buffer 2048} {left : ℤ} {rest : List UInt8} {pass : Pass}

/-- The number of a header is read where its copy stays inside. -/
theorem isSome_headerNumber_iff {line : List UInt8} :
    (headerNumber line).isSome ↔ (SIM868.Copy.mk 32 (Decoder.number line)).Inside := by
  rw [Decoder.headerNumber_eq]
  split
  · rename_i hroom
    exact iff_of_true rfl hroom
  · rename_i hroom
    exact iff_of_false (by simp) hroom

/-- A byte that completes no header leaves a text without one. -/
theorem headerless_push {b : UInt8} (h : ∀ text, text <+: answer.bytes → isHeader text = false)
    (hb : isHeader (answer.push b).1.bytes = false) :
    ∀ text, text <+: (answer.push b).1.bytes → isHeader text = false := by
  unfold Buffer.push at hb ⊢
  split
  · rename_i hroom
    rw [dif_pos hroom] at hb
    intro text htext
    rcases List.prefix_concat_iff.mp htext with rfl | htext
    · exact hb
    · exact h text htext
  · exact h

theorem isHeader_push_of_ne {b : UInt8}
    (h : ∀ text, text <+: answer.bytes → isHeader text = false) (hb : b ≠ 0x3A) :
    isHeader (answer.push b).1.bytes = false := by
  unfold Buffer.push
  split
  · simp [isHeader, hb]
  · exact h answer.bytes (List.prefix_refl _)

/-- A header is one, and an answer is none. -/
def Outcome.Sorted : Outcome → Prop
  | .exhausted => True
  | .answer ended _ => isHeader (beforeZero ended.bytes) = false
  | .header text => isHeader text.bytes = true

theorem sorted_of_scan (h : Scans i answer left rest pass)
    (hanswer : ∀ text, text <+: answer.bytes → isHeader text = false) : pass.outcome.Sorted := by
  have hend : ∀ {b : UInt8} {ended : Buffer 2048}, b ≠ 0x3A →
      (∀ text, text <+: ended.bytes → isHeader text = false) →
        ∀ text, text <+: (ended.push b).1.bytes → isHeader text = false :=
    fun hb hended => headerless_push hended (isHeader_push_of_ne hended hb)
  induction h with
  | exhausted => exact trivial
  | found hheader => exact hheader
  | handed _ _ ih => exact ih hanswer
  | skipped _ _ ih => exact ih hanswer
  | @ended _ answer =>
      exact @hend 0 answer (by decide) hanswer _ (List.takeWhile_prefix _)
  | @prompted _ answer =>
      have hpush := @hend 0x3E answer (by decide) hanswer
      exact @hend 0 _ (by decide) hpush _ (List.takeWhile_prefix _)
  | stored _ _ _ hheader _ ih => exact ih (headerless_push hanswer hheader)

/-- **Every line is processed as `lineCopies` has it**: what a turn of the loop treats as a header
is one, and what it passes to `SIM868::Update` is none. -/
theorem sorted_of_turns {fuel : ℕ} {buffer : Buffer 2048} {outcome : Outcome}
    (h : outcome ∈ turns fuel buffer left) : outcome.Sorted := by
  obtain ⟨part, left', pass, -, hscan, rfl⟩ := scan_of_turns h
  refine sorted_of_scan (scans_of_scan hscan) fun text htext => ?_
  rw [List.prefix_nil.mp htext]
  rfl

end InData

namespace SIM868

open USKD.Parser

/-- **All copies of a line stay inside their arrays** if and only if the parts of the line that are
looked at are short. -/
theorem inside_iff (s : SIM868) (now : UInt32) (line : List UInt8) :
    (∀ c ∈ s.lineCopies now line, c.Inside) ↔
      if InData.isHeader line then (InData.Decoder.number line).length ≤ 31
      else s.Fits now line := by
  unfold lineCopies
  split
  · rw [List.forall_mem_singleton]
    exact Nat.lt_succ_iff
  · exact update_inside_iff

/-- A line of 128 letters. -/
def longWord : List UInt8 := List.replicate 128 0x41

/-- **Its first word is copied behind the array.** -/
theorem not_inside_longWord :
    longWord.length ≤ 2047 ∧ ¬ ∀ c ∈ boot.lineCopies 0 longWord, c.Inside := by
  have hlength : longWord.length = 128 := List.length_replicate
  have hword : word longWord 1 = longWord := by
    refine List.takeWhile_eq_self_iff.mpr fun c hc => ?_
    rw [List.eq_of_mem_replicate hc]
    rfl
  have hheader : InData.isHeader longWord = false := by
    have hlast : longWord.getLast? = some 0x41 := List.getLast?_replicate
    simp [InData.isHeader, hlast]
  refine ⟨by omega, fun hinside => ?_⟩
  rw [lineCopies, hheader, if_neg Bool.false_ne_true] at hinside
  have hfirst := (unsolicited_inside_iff.mp fun c hc =>
    hinside c (List.mem_append_left _ hc)).1
  rw [hword] at hfirst
  omega

end SIM868

end USKD
