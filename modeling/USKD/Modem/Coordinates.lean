import USKD.Modem.Fields
import USKD.Modem.SIM868

/-!
# The coordinates of a `+UGNSINF` line

`ProcessUnsolicited` takes the latitude from the fourth field of the line and the longitude from the
fifth.  A field lies between two commas; it is read only if the second comma is more than one
character behind the beginning of the field.  So a field of one character is taken for an empty one.

What `atof` reads of a text is not looked at here: it is a function `atof` with values in any type
that has a zero.
-/

namespace USKD

/-- `struct DataGPRS`. -/
structure DataGPRS (F : Type) where
  latitude : F
  longitude : F

namespace SIM868

open USKD.Parser

variable {F : Type} [Zero F] (atof : List UInt8 → F)

/-- `Parser::SymbolsToFloat`; `none` for a text that does not fit into `buffer[32]`. -/
def symbolsToFloat (string : List UInt8) (posStart posEnd : ℤ) : Option F :=
  let buffer := symbols string posStart posEnd
  if buffer.length < 32 then some (atof buffer) else none

/-- `if (position2 - position1 > 1) { … = SymbolsToFloat(answer, position1, position2); }` for a
member of `data`, which is zero before. -/
def coordinate (answer : List UInt8) (position1 position2 : ℤ) : Option F :=
  if position2 - position1 > 1 then symbolsToFloat atof answer position1 position2 else some 0

/-- What `ProcessUnsolicited` passes to `Storage::SetCoordinates`, if it calls it. -/
def coordinates (answer : List UInt8) : Option (Option (DataGPRS F)) :=
  if answer = [] then some none
  else do
    let firstWord ← getWord answer 1
    if answer = ascii "ERROR" then pure none
    else if answer = ascii "CLOSED" then pure none
    else if answer = ascii "SEND FAIL" then pure none
    else if firstWord = ascii "+CSQ" then
      let _levelSignal ← getWord answer 2
      pure none
    else if firstWord = ascii "+UGNSINF" then
      let numberCommas := numberSymbols answer 0x2C
      if numberCommas > 4 then
        let position1 := positionSymbol answer 0x2C 3 + 1
        let position2 := positionSymbol answer 0x2C 4
        let latitude ← coordinate atof answer position1 position2
        let position1 := positionSymbol answer 0x2C 4 + 1
        let position2 := positionSymbol answer 0x2C 5
        let longitude ← coordinate atof answer position1 position2
        pure (some ⟨latitude, longitude⟩)
      else pure none
    else pure none

/-- **What is passed for a field**: the number that is written in it, and zero only for an empty
field or for a field that denotes zero. -/
structure Passed (field : List UInt8) (value : F) : Prop where
  number : field ≠ [] → value = atof field
  zero : value = 0 ↔ field = [] ∨ atof field = 0

/-- The fourth and the fifth field are passed. -/
def PassesCoordinates (answer : List UInt8) : Prop :=
  ∃ data, coordinates atof answer = some (some data) ∧
    Passed atof ((fields answer).getD 3 []) data.latitude ∧
    Passed atof ((fields answer).getD 4 []) data.longitude

variable {atof} {answer field : List UInt8}

/-- What the code takes of a field. -/
def taken (atof : List UInt8 → F) (field : List UInt8) : F :=
  if 1 < field.length then atof field else 0

/-- **A field is taken as it should be**, unless it is one character that does not denote zero. -/
theorem passed_taken_iff :
    Passed atof field (taken atof field) ↔ (field.length = 1 → atof field = 0) := by
  rcases lt_trichotomy field.length 1 with hless | hone | hmore
  · obtain rfl := List.eq_nil_of_length_eq_zero (Nat.lt_one_iff.mp hless)
    refine iff_of_true ⟨fun hne => absurd rfl hne, ?_⟩ (fun hone => absurd hone (by decide))
    exact iff_of_true rfl (.inl rfl)
  · have hne : field ≠ [] := by
      rintro rfl
      exact absurd hone (by decide)
    rw [taken, if_neg (by omega)]
    constructor
    · intro hpassed _
      exact (hpassed.number hne).symm
    · intro hzero
      exact ⟨fun _ => (hzero hone).symm, iff_of_true rfl (.inr (hzero hone))⟩
  · have hne : field ≠ [] := by
      rintro rfl
      exact absurd hmore (by decide)
    rw [taken, if_pos hmore]
    refine iff_of_true ⟨fun _ => rfl, ?_⟩ (fun hone => absurd hone (by omega))
    exact ⟨.inr, fun hzero => hzero.resolve_left hne⟩

/-- **A field between two commas** is taken from the line. -/
theorem coordinate_eq {k : ℕ} {num next : ℤ} (hnum : num = k + 1) (hnext : next = k + 1 + 1)
    (hk : k + 2 < (fields answer).length)
    (hshort : ((fields answer).getD (k + 1) []).length ≤ 31) :
    coordinate atof answer (positionSymbol answer 0x2C num + 1) (positionSymbol answer 0x2C next) =
      some (taken atof ((fields answer).getD (k + 1) [])) := by
  obtain ⟨htext, hlength⟩ := symbols_eq hk
  rw [hnum, hnext, coordinate, symbolsToFloat, htext, hlength,
    if_pos (Nat.lt_succ_of_le hshort), taken]
  by_cases hmore : 1 < ((fields answer).getD (k + 1) []).length
  · rw [if_pos hmore, if_pos (by omega)]
  · rw [if_neg hmore, if_neg (by omega)]

/-- **What is passed of a line.** -/
theorem coordinates_eq (hfirst : word answer 1 = ascii "+UGNSINF")
    (hcommas : numberSymbols answer 0x2C > 4)
    (hlatitude : ((fields answer).getD 3 []).length ≤ 31)
    (hlongitude : ((fields answer).getD 4 []).length ≤ 31) :
    coordinates atof answer = some (some ⟨taken atof ((fields answer).getD 3 []),
      taken atof ((fields answer).getD 4 [])⟩) := by
  have hword : getWord answer 1 = some (ascii "+UGNSINF") := by
    rw [← hfirst]
    exact getWord_of_lt (by rw [hfirst]; decide)
  have hother : ∀ text, word text 1 ≠ ascii "+UGNSINF" → answer ≠ text := by
    rintro text htext rfl
    exact htext hfirst
  have hlength := length_fields answer
  have hfourth :=
    @coordinate_eq F _ atof answer 2 3 4 (by decide) (by decide) (by omega) hlatitude
  have hfifth :=
    @coordinate_eq F _ atof answer 3 4 5 (by decide) (by decide) (by omega) hlongitude
  rw [coordinates, if_neg (hother [] (by decide)), hword]
  simp only [Option.bind_eq_bind, Option.bind_some, if_true]
  rw [if_neg (hother (ascii "ERROR") (by decide)), if_neg (hother (ascii "CLOSED") (by decide)),
    if_neg (hother (ascii "SEND FAIL") (by decide)), if_neg (by decide), if_pos hcommas, hfourth,
    Option.bind_some, hfifth]
  rfl

/-- A line with coordinates goes on to the states. -/
theorem processUnsolicited_of_coordinates {data : DataGPRS F}
    (h : coordinates atof answer = some (some data)) :
    processUnsolicited answer = some .passed := by
  unfold coordinates at h
  unfold processUnsolicited
  by_cases hnil : answer = []
  · rw [if_pos hnil]
  rw [if_neg hnil] at h ⊢
  obtain ⟨firstWord, hword, h⟩ := Option.bind_eq_some_iff.mp h
  rw [hword]
  simp only [Option.bind_eq_bind, Option.bind_some]
  -- in front of `+UGNSINF` nothing is passed
  split at h
  · exact absurd h (by simp)
  split at h
  · exact absurd h (by simp)
  split at h
  · exact absurd h (by simp)
  split at h
  · obtain ⟨-, -, h⟩ := Option.bind_eq_some_iff.mp h
    exact absurd h (by simp)
  split at h
  · next herror hclosed hfail hcsq hgnss =>
      rw [if_neg herror, if_neg hclosed, if_neg hfail, if_neg hcsq, if_pos hgnss]
      rfl
  · exact absurd h (by simp)

/-- **When the coordinates are passed.**  Neither field is one character that does not denote
zero. -/
theorem passesCoordinates_iff (atof : List UInt8 → F)
    (hfirst : word answer 1 = ascii "+UGNSINF") (hcommas : numberSymbols answer 0x2C > 4)
    (hlatitude : ((fields answer).getD 3 []).length ≤ 31)
    (hlongitude : ((fields answer).getD 4 []).length ≤ 31) :
    PassesCoordinates atof answer ↔
      (((fields answer).getD 3 []).length = 1 → atof ((fields answer).getD 3 []) = 0) ∧
        (((fields answer).getD 4 []).length = 1 → atof ((fields answer).getD 4 []) = 0) := by
  rw [← passed_taken_iff, ← passed_taken_iff, PassesCoordinates,
    coordinates_eq hfirst hcommas hlatitude hlongitude]
  simp only [Option.some.injEq, exists_eq_left']

/-- 53 degrees north and 27 degrees east. -/
theorem passesCoordinates_minsk :
    PassesCoordinates digitsValue (ascii "+UGNSINF: 1,1,20230822090428.000,53,27,") :=
  (passesCoordinates_iff digitsValue (by decide) (by decide) (by decide) (by decide)).mpr
    (by decide)

/-- **Five degrees north** are passed as zero. -/
theorem not_passesCoordinates_digit :
    ¬ ∀ (atof : List UInt8 → ℕ) (answer : List UInt8), word answer 1 = ascii "+UGNSINF" →
        numberSymbols answer 0x2C > 4 → (∀ field ∈ fields answer, field.length ≤ 31) →
          PassesCoordinates atof answer := by
  intro hall
  obtain ⟨data, hdata, hlatitude, -⟩ := hall digitsValue
    (ascii "+UGNSINF: 1,1,20230822090428.000,5,27,") (by decide) (by decide) (by decide)
  rw [coordinates_eq (by decide) (by decide) (by decide) (by decide)] at hdata
  obtain rfl := Option.some.inj (Option.some.inj hdata)
  exact absurd (hlatitude.number (by decide)) (by decide)

end SIM868

end USKD
