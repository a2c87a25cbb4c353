import USKD.Lib.KeySearch
import USKD.Modem.Words

/-!
# `ParseConfigField`

The conditions of a configuration come from the server as JSON.  `ParseConfigField` does not parse
the text: it looks with `strstr` for the name of the condition, and behind it for `max`, `min` and
`deviation`, one behind the other, wherever they stand.  A number is the word behind its name.

`number_integer` is the number that is read: `ToUINT` makes an `unsigned int` of it.
-/

namespace USKD

open KeySearch

/-- `struct ConfigField`: the values as they are before the conversion to `float`. -/
structure ConfigField where
  min : ℤ
  max : ℤ
  deviation : ℤ
deriving DecidableEq

/-- `SU::FindSubString`. -/
def SU.findSubString (string subString : List UInt8) : ℕ → Option (List UInt8)
  | 0 => find subString string
  | num + 1 =>
      (find subString string).bind fun entry =>
        SU.findSubString (entry.drop subString.length) subString num

/-- `SU::AfterSubString`. -/
def SU.afterSubString (string subString : List UInt8) (num : ℕ) : Option (List UInt8) :=
  (SU.findSubString string subString num).map fun entry => entry.drop subString.length

theorem SU.afterSubString_of_find {string subString rest : List UInt8}
    (h : find subString string = some (subString ++ rest)) :
    SU.afterSubString string subString 0 = some rest := by
  rw [SU.afterSubString, SU.findSubString, h, Option.map_some, List.drop_left]

theorem SU.afterSubString_of_none {string subString : List UInt8}
    (h : find subString string = none) : SU.afterSubString string subString 0 = none := by
  rw [SU.afterSubString, SU.findSubString, h, Option.map_none]

namespace Parser

/-- `BufferParser::ToUINT`. -/
def toUINT (data : List UInt8) : Option ℤ := (atoi data).map (· % 2 ^ 32)

/-- `GetWord(entry, 1, &buffer)` and `buffer.ToUINT()`. -/
def number (entry : List UInt8) : Option ℤ := (getWord entry 1).bind toUINT

/-- `ParseConfigField`: the pointer that is returned, as the text it points to, and the field behind
the call.  A number that is no `int`, and a word that does not fit into the buffer, are `none`. -/
def parseConfigField (string name : List UInt8) (field : ConfigField) :
    Option (Option (List UInt8) × ConfigField) :=
  match SU.afterSubString string name 0 with
  | none => some (none, field)
  | some entry =>
      match SU.afterSubString entry (ascii "max\":") 0 with
      | none => some (none, field)
      | some entry => do
          let max ← number entry
          let field := { field with max := max }
          match SU.afterSubString entry (ascii "min\":") 0 with
          | none => some (none, field)
          | some entry => do
              let min ← number entry
              let field := { field with min := min }
              match SU.afterSubString entry (ascii "deviation\":") 0 with
              | none => some (none, field)
              | some entry => do
                  let deviation ← number entry
                  let field := { field with deviation := deviation }
                  some (some entry, field)

/-! ### Numbers in a text -/

/-- An integer as it is printed. -/
def integer (z : ℤ) : List UInt8 :=
  if z < 0 then 0x2D :: decimal z.natAbs else decimal z.natAbs

variable {z : ℤ} {rest : List UInt8}

theorem mem_integer {b : UInt8} (h : b ∈ integer z) : b = 0x2D ∨ isDigit b = true := by
  unfold integer at h
  split at h
  · exact (List.mem_cons.mp h).imp id isDigit_of_mem_decimal
  · exact .inr (isDigit_of_mem_decimal h)

theorem not_isSeparator_of_mem_integer {b : UInt8} (h : b ∈ integer z) :
    isSeparator b = false := by
  rcases mem_integer h with rfl | hdigit
  · decide
  · simp only [isDigit, isSeparator, decide_eq_true_eq, decide_eq_false_iff_not,
      UInt8.le_iff_toNat_le, ← UInt8.toNat_inj, UInt8.reduceToNat] at hdigit ⊢
    omega

theorem length_integer_le (hz : -2 ^ 31 ≤ z) (hz' : z < 2 ^ 31) : (integer z).length ≤ 11 := by
  have hdigits : (decimal z.natAbs).length ≤ 10 := by
    rw [decimal, charBytes, List.length_map, Nat.length_toDigits_le_iff (by decide) (by decide)]
    omega
  unfold integer
  split
  · rw [List.length_cons]
    omega
  · omega

/-- The digits of a printed number end where another character begins. -/
theorem digitsValue_decimal_append (n : ℕ) (hrest : ∀ b ∈ rest.head?, isDigit b = false) :
    digitsValue (decimal n ++ rest) = n := by
  have htake : (decimal n ++ rest).takeWhile isDigit = (decimal n).takeWhile isDigit := by
    have hrest' : rest.takeWhile isDigit = [] := by
      cases rest with
      | nil => rfl
      | cons b rest => rw [List.takeWhile_cons_of_neg (by rw [hrest b rfl]; decide)]
    rw [List.takeWhile_append_of_pos fun b hb => isDigit_of_mem_decimal hb, hrest',
      List.append_nil, List.takeWhile_eq_self_iff.mpr fun b hb => isDigit_of_mem_decimal hb]
  have hvalue := digitsValue_decimal n
  unfold digitsValue at hvalue ⊢
  rw [htake, hvalue]

/-- **`atoi` reads a printed integer.** -/
theorem atoi_integer (hz : -2 ^ 31 ≤ z) (hz' : z < 2 ^ 31)
    (hrest : ∀ b ∈ rest.head?, isDigit b = false) : atoi (integer z ++ rest) = some z := by
  have hvalue := digitsValue_decimal_append z.natAbs hrest
  by_cases hneg : z < 0
  · rw [integer, if_pos hneg, List.cons_append, atoi, List.dropWhile_cons_of_neg (by decide)]
    simp only [hvalue]
    rw [if_pos (by omega)]
    congr 1
    omega
  · obtain ⟨b, digits, hb, hspace, hplus, hminus⟩ := decimal_eq_cons z.natAbs
    rw [hb, List.cons_append] at hvalue
    rw [integer, if_neg hneg, hb, List.cons_append, atoi,
      List.dropWhile_cons_of_neg (by simp [hspace])]
    split
    · next heq => exact absurd (List.cons.inj heq).1 hplus
    · next heq => exact absurd (List.cons.inj heq).1 hminus
    · rw [hvalue, Int.natAbs_of_nonneg (by omega), if_pos ⟨hz, hz'⟩]

/-- **The number behind a name**, in front of any other character: a negative one comes out as an
`unsigned int`. -/
theorem number_integer (hz : -2 ^ 31 ≤ z) (hz' : z < 2 ^ 31) {c : UInt8} (hc : isDigit c = false)
    (hrest : ((c :: rest).takeWhile fun c => !isSeparator c).length ≤ 100) :
    number (integer z ++ c :: rest) = some (z % 2 ^ 32) := by
  have hword : (integer z ++ c :: rest).takeWhile (fun c => !isSeparator c) =
      integer z ++ (c :: rest).takeWhile fun c => !isSeparator c :=
    List.takeWhile_append_of_pos fun b hb => by rw [not_isSeparator_of_mem_integer hb]; rfl
  have hfits : (integer z ++ (c :: rest).takeWhile fun c => !isSeparator c).length <
      bufferSize := by
    have hlength := length_integer_le hz hz'
    rw [List.length_append]
    unfold bufferSize
    omega
  have hdigit : ∀ b ∈ ((c :: rest).takeWhile fun c => !isSeparator c).head?,
      isDigit b = false := by
    intro b hb
    obtain ⟨others, hothers⟩ := List.takeWhile_prefix (l := c :: rest) fun c => !isSeparator c
    obtain ⟨word, hword⟩ := List.head?_eq_some_iff.mp (Option.mem_def.mp hb)
    rw [hword] at hothers
    rw [(List.cons.inj hothers).1]
    exact hc
  unfold number getWord
  simp only [if_true, hword, if_pos hfits, Option.bind_some]
  rw [toUINT, atoi_integer hz hz' hdigit, Option.map_some]

end Parser

end USKD
