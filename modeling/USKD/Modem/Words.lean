import USKD.Modem.Parser

/-!
# The words of a line

`GetWord` walks over the line with a counter.  What it copies is a word of the line: the line is
cut at every separator, of the pieces the first one is kept also if it is empty, and the others
only if they are not.

* `word` is the text that is copied, and `getWord_eq` the bound of the copy.
* `words` is the list, and `word_eq` says that `GetWord` counts along it.
-/

namespace USKD.Parser

variable {string : List UInt8} {num : ℕ}

/-- The text that `GetWord` copies. -/
def word (string : List UInt8) (num : ℕ) : List UInt8 :=
  ((if num = 1 then some string
    else wordStart (num - 1) (!(string.head?.any isSeparator)) string).getD []).takeWhile
      fun c => !isSeparator c

/-- **The copy fits if the word is shorter than the buffer.** -/
theorem getWord_eq (string : List UInt8) (num : ℕ) :
    getWord string num =
      if (word string num).length < bufferSize then some (word string num) else none := by
  unfold getWord word
  cases (if num = 1 then some string
    else wordStart (num - 1) (!(string.head?.any isSeparator)) string) with
  | none => rfl
  | some text => rfl

theorem isSome_getWord : (getWord string num).isSome ↔ (word string num).length < bufferSize := by
  rw [getWord_eq]
  split
  · next h => exact ⟨fun _ => h, fun _ => rfl⟩
  · next h => exact ⟨fun hnone => absurd hnone (by simp), fun hless => absurd hless h⟩

theorem getWord_of_lt (h : (word string num).length < bufferSize) :
    getWord string num = some (word string num) := by
  rw [getWord_eq, if_pos h]

/-- A word begins inside its line. -/
theorem wordStart_suffix {more : ℕ} {inWord : Bool} {text : List UInt8}
    (h : wordStart more inWord string = some text) : text <:+ string := by
  induction string generalizing more inWord with
  | nil => exact absurd h (by simp [wordStart])
  | cons c rest ih =>
      rw [wordStart] at h
      split at h
      · exact (ih h).trans (List.suffix_cons c rest)
      split at h
      · exact (ih h).trans (List.suffix_cons c rest)
      split at h
      · obtain rfl := Option.some.inj h
        exact List.suffix_rfl
      · exact (ih h).trans (List.suffix_cons c rest)

theorem length_word_le (string : List UInt8) (num : ℕ) :
    (word string num).length ≤ string.length := by
  have hfront : ∀ text : List UInt8, (text.takeWhile fun c => !isSeparator c).length ≤
      text.length := fun text => (List.takeWhile_prefix _).length_le
  unfold word
  split
  · exact hfront string
  · cases hstart : wordStart (num - 1) (!(string.head?.any isSeparator)) string with
    | none => exact Nat.zero_le _
    | some text => exact (hfront text).trans (wordStart_suffix hstart).length_le

/-- A line that is shorter than the buffer has short words. -/
theorem getWord_of_short (h : string.length < bufferSize) (num : ℕ) :
    getWord string num = some (word string num) :=
  getWord_of_lt ((length_word_le string num).trans_lt h)

/-! ## The list of the words -/

/-- The pieces between the separators. -/
def pieces (string : List UInt8) : List (List UInt8) := string.splitOnP isSeparator

/-- The first piece, and those of the others that are not empty. -/
def words (string : List UInt8) : List (List UInt8) :=
  (pieces string).take 1 ++ ((pieces string).drop 1).filter (· ≠ [])

theorem pieces_cons (c : UInt8) (rest : List UInt8) :
    pieces (c :: rest) =
      if isSeparator c then [] :: pieces rest else (pieces rest).modifyHead (c :: ·) :=
  List.splitOnP_cons_eq_if_modifyHead c rest

/-- The first part of a cut is what stands in front of the first separator. -/
theorem splitOnP_eq_cons (p : UInt8 → Bool) (string : List UInt8) :
    ∃ others, string.splitOnP p = (string.takeWhile fun c => !p c) :: others := by
  induction string with
  | nil => exact ⟨[], rfl⟩
  | cons c rest ih =>
      obtain ⟨others, hrest⟩ := ih
      rw [List.splitOnP_cons_eq_if_modifyHead, hrest]
      by_cases hc : p c
      · rw [if_pos hc, List.takeWhile_cons_of_neg (by simp [hc])]
        exact ⟨_, rfl⟩
      · rw [if_neg hc, List.takeWhile_cons_of_pos (by simp [hc])]
        exact ⟨others, rfl⟩

theorem pieces_eq (string : List UInt8) :
    ∃ others, pieces string = (string.takeWhile fun c => !isSeparator c) :: others :=
  splitOnP_eq_cons isSeparator string

/-- **The loop of `GetWord`** counts the pieces that are not empty; one that it begins in is not
counted. -/
theorem takeWhile_wordStart {more : ℕ} (hmore : 0 < more) (inWord : Bool) (string : List UInt8) :
    ((wordStart more inWord string).getD []).takeWhile (fun c => !isSeparator c) =
      (((pieces string).drop inWord.toNat).filter (· ≠ [])).getD (more - 1) [] := by
  induction string generalizing more inWord with
  | nil => cases inWord <;> rfl
  | cons c rest ih =>
      obtain ⟨others, hrest⟩ := pieces_eq rest
      by_cases hc : isSeparator c
      · rw [wordStart, if_pos hc, ih hmore, pieces_cons, if_pos hc]
        cases inWord <;> rfl
      · rw [wordStart, if_neg hc, pieces_cons, if_neg hc, hrest, List.modifyHead_cons]
        cases inWord with
        | true =>
            rw [if_pos rfl, ih hmore, hrest]
            rfl
        | false =>
            rw [if_neg Bool.false_ne_true]
            by_cases hone : more = 1
            · rw [if_pos hone, hone, Option.getD_some, List.takeWhile_cons_of_pos (by simp [hc])]
              rfl
            · obtain ⟨k, rfl⟩ : ∃ k, more = k + 2 := ⟨more - 2, by omega⟩
              have hnext : k + 2 - 1 = k + 1 := rfl
              rw [if_neg hone, hnext, ih (Nat.succ_pos k), hrest]
              rfl

/-- **`GetWord` counts along `words`.** -/
theorem word_eq (string : List UInt8) (hnum : 0 < num) :
    word string num = (words string).getD (num - 1) [] := by
  obtain ⟨others, hpieces⟩ := pieces_eq string
  rw [word, words, hpieces]
  by_cases hone : num = 1
  · rw [if_pos hone, hone]
    rfl
  · obtain ⟨k, rfl⟩ : ∃ k, num = k + 2 := ⟨num - 2, by omega⟩
    have hnext : k + 2 - 1 = k + 1 := rfl
    rw [if_neg hone, hnext, takeWhile_wordStart (Nat.succ_pos k), hpieces]
    cases string with
    | nil =>
        obtain ⟨-, rfl⟩ := List.cons.inj (hpieces.symm.trans (rfl : pieces [] = [[]]))
        rfl
    | cons c rest =>
        by_cases hc : isSeparator c
        · -- the first piece is empty, and not counted either
          rw [List.takeWhile_cons_of_neg (by simp [hc])]
          simp [hc]
        · simp [hc]

end USKD.Parser
