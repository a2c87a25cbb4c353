import USKD.Modem.Fields

/-!
# `GetWord` by positions

`GetWord(string, num, out)` does not copy a word itself.  It looks for the position in front of the
word and for the one behind it, and another `GetWord` copies what lies between the two.  The first
word has the position -1 in front; for any other one the loop counts the beginnings of words, with
a flag that says if it is in a word.

`getWordNum` is the function with its positions.  It copies the same text as `getWord`, which is cut
from the line without any (`getWordNum_eq_getWord`), and this is a run of characters between
separators (`getWordNum_eq_run`).
-/

namespace USKD.Parser

/-- `GetWord(string, pos_start, pos_end, out)`: the text between the two positions. -/
def getWordBetween (string : List UInt8) (posStart posEnd : ℤ) : Option (List UInt8) :=
  -- `LOG_ERROR("Wrong arguments")`
  if posEnd - posStart ≤ 0 then some []
  else
    let text := symbols string (posStart + 1) posEnd
    if text.length < bufferSize then some text else none

/-- The first loop of `GetWord`, with `p` at the text: `pos_start`, or `none` if the word is not
there. -/
def startFrom (num : ℤ) : ℤ → Bool → ℤ → List UInt8 → Option ℤ
  | currentWord, _, _, [] => if currentWord ≠ num then none else some 0
  | currentWord, inWord, p, c :: rest =>
      if currentWord < num then
        if isSeparator c then startFrom num currentWord false (p + 1) rest
        else if inWord then startFrom num currentWord true (p + 1) rest
        else if currentWord + 1 = num then some (p - 1)
        else startFrom num (currentWord + 1) true (p + 1) rest
      else if currentWord ≠ num then none else some 0

/-- The second loop of `GetWord`: `pos_end`. -/
def endFrom : ℤ → List UInt8 → ℤ
  | posEnd, [] => posEnd
  | posEnd, c :: rest => if isSeparator c then posEnd else endFrom (posEnd + 1) rest

/-- `GetWord(string, num, out)`. -/
def getWordNum (string : List UInt8) (num : ℤ) : Option (List UInt8) :=
  let start :=
    if num = 1 then some (-1)
    else startFrom num 1 (!(string.head?.any isSeparator)) 0 string
  match start with
  | none => some []
  | some posStart =>
      getWordBetween string posStart
        (endFrom (posStart + 1) (string.drop (posStart + 1).toNat))

/-- The maximal runs of characters that are no separators. -/
def runs (string : List UInt8) : List (List UInt8) := (pieces string).filter (· ≠ [])

variable {string text : List UInt8} {num current : ℤ} {more : ℕ}

/-- **The position of a word** is that of the text it begins. -/
theorem startFrom_eq (hmore : 0 < more) (hnum : num = current + more) (inWord : Bool) (p : ℤ)
    (string : List UInt8) :
    startFrom num current inWord p string =
      (wordStart more inWord string).map fun text => p + string.length - text.length - 1 := by
  induction string generalizing more current inWord p with
  | nil =>
      rw [startFrom, if_pos (by omega)]
      rfl
  | cons c rest ih =>
      -- the text begins one position further on in what is left
      have hnext : ∀ (more : ℕ) (inWord : Bool), (wordStart more inWord rest).map
          (fun text => p + 1 + rest.length - text.length - 1) =
          (wordStart more inWord rest).map
            fun text => p + (c :: rest).length - text.length - 1 := by
        intro more inWord
        congr 1
        funext text
        rw [List.length_cons]
        omega
      rw [startFrom, wordStart, if_pos (by omega)]
      split
      · rw [ih hmore hnum, hnext]
      split
      · rw [ih hmore hnum, hnext]
      by_cases hone : more = 1
      · rw [if_pos (by omega), if_pos hone, Option.map_some]
        congr 1
        omega
      · have hrest : num = current + 1 + (more - 1 : ℕ) := by omega
        rw [if_neg (by omega), if_neg hone, ih (by omega) hrest, hnext]

theorem endFrom_eq (p : ℤ) (string : List UInt8) :
    endFrom p string = p + (string.takeWhile fun c => !isSeparator c).length := by
  induction string generalizing p with
  | nil => exact (Int.add_zero p).symm
  | cons c rest ih =>
      rw [endFrom]
      by_cases hc : isSeparator c
      · rw [if_pos hc, List.takeWhile_cons_of_neg (by simp [hc])]
        exact (Int.add_zero p).symm
      · rw [if_neg hc, List.takeWhile_cons_of_pos (by simp [hc]), ih, List.length_cons]
        omega

/-- **The second `GetWord` copies the word** that begins at a text of the string. -/
theorem getWordBetween_eq (hsuffix : text <:+ string) :
    getWordBetween string (string.length - text.length - 1)
        (endFrom (string.length - text.length) text) =
      let word := text.takeWhile fun c => !isSeparator c
      if word.length < bufferSize then some word else none := by
  have hle := hsuffix.length_le
  have hstart : ((string.length : ℤ) - text.length - 1 + 1).toNat =
      string.length - text.length := by omega
  have hdrop : string.drop (string.length - text.length) = text :=
    (List.suffix_iff_eq_drop.mp hsuffix).symm
  have hlength : ((string.length : ℤ) - text.length +
      (text.takeWhile fun c => !isSeparator c).length -
        (string.length - text.length - 1 + 1)).toNat =
      (text.takeWhile fun c => !isSeparator c).length := by omega
  rw [endFrom_eq, getWordBetween, if_neg (by omega), symbols, hstart, hdrop, hlength,
    ← List.prefix_iff_eq_take.mp (List.takeWhile_prefix _)]

/-- **By positions the same word is copied.** -/
theorem getWordNum_eq_getWord (string : List UInt8) {num : ℕ} (hnum : 0 < num) :
    getWordNum string num = getWord string num := by
  unfold getWordNum getWord
  by_cases hone : num = 1
  · have hwhole := @getWordBetween_eq string string List.suffix_rfl
    rw [Int.sub_self, Int.zero_sub] at hwhole
    simp only [hone, Int.natCast_one, if_true]
    exact hwhole
  · have hcast : ¬ (num : ℤ) = 1 := by omega
    have hcount : (num : ℤ) = 1 + (num - 1 : ℕ) := by omega
    rw [if_neg hcast, if_neg hone, startFrom_eq (Nat.sub_pos_of_lt (by omega)) hcount]
    cases hstart : wordStart (num - 1) (!(string.head?.any isSeparator)) string with
    | none => rfl
    | some text =>
        have hsuffix := wordStart_suffix hstart
        have hle := hsuffix.length_le
        have hfront : (0 : ℤ) + string.length - text.length - 1 =
            string.length - text.length - 1 := by omega
        have hbehind : (string.length : ℤ) - text.length - 1 + 1 = string.length - text.length := by
          omega
        have hposition : ((string.length : ℤ) - text.length).toNat =
            string.length - text.length := by omega
        simp only [Option.map_some, hfront, hbehind, hposition,
          ← List.suffix_iff_eq_drop.mp hsuffix]
        exact getWordBetween_eq hsuffix

/-- If the line does not begin with a separator, its words are its runs, and one empty word if it
is empty. -/
theorem getD_words_eq (hfirst : ∀ c ∈ string.head?, isSeparator c = false) (k : ℕ) :
    (words string).getD k [] = (runs string).getD k [] := by
  cases string with
  | nil => cases k <;> rfl
  | cons c rest =>
      have hc : isSeparator c = false := hfirst c rfl
      obtain ⟨others, hpieces⟩ := pieces_eq (c :: rest)
      rw [List.takeWhile_cons_of_pos (by simp [hc])] at hpieces
      rw [words, runs, hpieces]
      rfl

/-- **`GetWord` returns the run `num`** of a string that does not begin with a separator, and the
empty string if there are fewer. -/
theorem getWordNum_eq_run {num : ℕ} (hnum : 1 ≤ num)
    (hfirst : ∀ c ∈ string.head?, isSeparator c = false)
    (hshort : ((runs string).getD (num - 1) []).length ≤ 127) :
    getWordNum string num = some ((runs string).getD (num - 1) []) := by
  have hword : word string num = (runs string).getD (num - 1) [] := by
    rw [word_eq string hnum, getD_words_eq hfirst]
  rw [getWordNum_eq_getWord string hnum, getWord_of_lt, hword]
  rw [hword]
  exact Nat.lt_succ_of_le hshort

/-- Separators at the end and between the words. -/
theorem getWordNum_csq :
    getWordNum (ascii "+CSQ: 17,  0=") 3 = some (ascii "0") ∧
      getWordNum (ascii "+CSQ: 17,  0=") 4 = some [] :=
  ⟨@getWordNum_eq_run (ascii "+CSQ: 17,  0=") 3 (by decide) (by decide +kernel) (by decide),
    @getWordNum_eq_run (ascii "+CSQ: 17,  0=") 4 (by decide) (by decide +kernel) (by decide)⟩

end USKD.Parser
