import USKD.Utils.Text

/-!
# `Parser`: words of an answer

A word ends at a blank, a comma, a colon or an equals sign; words are counted from 1.
`GetWord` copies the word to a `BufferParser` of 128 bytes, its zero included: a longer
word is written past the buffer, which is `none` here.
-/

namespace USKD

/-- `atoi`: `none` for a value that is not an `int`. -/
def atoi (s : List UInt8) : Option ℤ :=
  let value : ℤ :=
    match s.dropWhile isSpace with
    | 0x2B :: digits => digitsValue digits
    | 0x2D :: digits => -digitsValue digits
    | digits => digitsValue digits
  if -2 ^ 31 ≤ value ∧ value < 2 ^ 31 then some value else none

/-- A text of digits alone is read to its end. -/
theorem atoi_of_digits {s : List UInt8} (hdigits : ∀ b ∈ s, isDigit b)
    (hvalue : digitsValue s < 2 ^ 31) : atoi s = some (digitsValue s : ℤ) := by
  have hdrop : s.dropWhile isSpace = s := by
    cases s with
    | nil => rfl
    | cons b rest =>
        obtain ⟨hspace, -⟩ := not_sign_of_isDigit (hdigits b List.mem_cons_self)
        rw [List.dropWhile_cons_of_neg (by simp [hspace])]
  unfold atoi
  rw [hdrop]
  split
  · exact absurd rfl (not_sign_of_isDigit (hdigits 0x2B List.mem_cons_self)).2.1
  · exact absurd rfl (not_sign_of_isDigit (hdigits 0x2D List.mem_cons_self)).2.2
  · rw [if_pos (by omega)]

namespace Parser

/-- `sizeof(BufferParser::data)`. -/
def bufferSize : ℕ := 128

/-- The characters between words. -/
def isSeparator (c : UInt8) : Bool := c = 0x20 ∨ c = 0x2C ∨ c = 0x3A ∨ c = 0x3D

/-- The first loop of `GetWord`: the text from the start of the word that `more` new
words lead to. -/
def wordStart : ℕ → Bool → List UInt8 → Option (List UInt8)
  | _, _, [] => none
  | more, inWord, c :: rest =>
      if isSeparator c then wordStart more false rest
      else if inWord then wordStart more true rest
      else if more = 1 then some (c :: rest)
      else wordStart (more - 1) true rest

/-- `GetWord(string, num, out)` on a C string. -/
def getWord (string : List UInt8) (num : ℕ) : Option (List UInt8) :=
  let start :=
    if num = 1 then some string
    else wordStart (num - 1) (!(string.head?.any isSeparator)) string
  match start with
  | none => some []
  | some text =>
      let word := text.takeWhile fun c => !isSeparator c
      if word.length < bufferSize then some word else none

example : getWord (ascii "+FTPGET: 2,64") 1 = some (ascii "+FTPGET") ∧
    getWord (ascii "+FTPGET: 2,64") 3 = some (ascii "64") ∧
    getWord (ascii "+FTPGET: 2,64") 4 = some [] := by decide

end Parser

end USKD
