import Mathlib.Algebra.Order.Ring.Int
import Mathlib.Data.List.Basic
import Mathlib.Data.List.TakeWhile

/-!
# Texts of the modem dialogue

A text is the list of its bytes: `char` is unsigned on this target.  The functions of the
C library that the dialogue uses are here, on lists of bytes: a C string read from an
array (`cString`), `strtoul` in base ten with the 32-bit `unsigned long` of the target,
and the conversion to `int`.  `Utils.String` is the class `String` of the firmware.
-/

namespace USKD

/-- The bytes of a list of ASCII characters. -/
def charBytes (cs : List Char) : List UInt8 := cs.map fun c => c.toNat.toUInt8

/-- The bytes of a string literal of the source. -/
def ascii (s : String) : List UInt8 := charBytes s.toList

/-- The bytes before the first zero. -/
def beforeZero (bytes : List UInt8) : List UInt8 := bytes.takeWhile (· ≠ 0)

/-- The C string at the start of an array; `none` if the array does not end it. -/
def cString (bytes : List UInt8) : Option (List UInt8) :=
  if 0 ∈ bytes then some (beforeZero bytes) else none

/-- A zero behind the bytes changes nothing. -/
theorem beforeZero_concat (bytes : List UInt8) : beforeZero (bytes ++ [0]) = beforeZero bytes := by
  induction bytes with
  | nil => rfl
  | cons b bytes ih =>
      by_cases hb : b = 0
      · simp [beforeZero, hb]
      · simpa [beforeZero, hb] using ih

theorem cString_append_zero (bytes : List UInt8) :
    cString (bytes ++ [0]) = some (beforeZero bytes) := by
  rw [cString, if_pos (by simp), beforeZero_concat]

theorem cString_eq_some {bytes t : List UInt8} (h : cString bytes = some t) :
    t = beforeZero bytes := by
  rw [cString] at h
  split at h
  · exact (Option.some.inj h).symm
  · exact absurd h (by simp)

/-! ## Numbers -/

/-- `isspace`. -/
def isSpace (c : UInt8) : Bool := c = 0x20 ∨ 0x09 ≤ c ∧ c ≤ 0x0D

/-- `isdigit`. -/
def isDigit (c : UInt8) : Bool := 0x30 ≤ c ∧ c ≤ 0x39

/-- The value of the leading digits. -/
def digitsValue (s : List UInt8) : ℕ :=
  (s.takeWhile isDigit).foldl (fun value c => 10 * value + (c.toNat - 0x30)) 0

/-- `ULONG_MAX`. -/
def ulongMax : ℕ := 2 ^ 32 - 1

/-- `std::strtoul(s, nullptr, 10)`: white space, an optional sign, digits; a value that
does not fit gives `ULONG_MAX`. -/
def strtoul (s : List UInt8) : ℕ :=
  match s.dropWhile isSpace with
  | 0x2B :: digits => min (digitsValue digits) ulongMax
  | 0x2D :: digits =>
      if digitsValue digits ≤ ulongMax then (2 ^ 32 - digitsValue digits) % 2 ^ 32 else ulongMax
  | digits => min (digitsValue digits) ulongMax

/-- The conversion of an `unsigned long` to `int`. -/
def toInt (n : ℕ) : ℤ :=
  if n % 2 ^ 32 < 2 ^ 31 then (n % 2 ^ 32 : ℕ) else (n % 2 ^ 32 : ℕ) - 2 ^ 32

theorem toInt_of_lt {n : ℕ} (h : n < 2 ^ 31) : toInt n = n := by
  have hmod : n % 2 ^ 32 = n := by omega
  rw [toInt, hmod, if_pos h]

/-- A number as it is printed. -/
def decimal (n : ℕ) : List UInt8 := charBytes (Nat.toDigits 10 n)

/-- The byte of a digit. -/
theorem toNat_charByte_of_isDigit {c : Char} (h : c.isDigit) :
    c.toNat.toUInt8.toNat = c.toNat ∧ 0x30 ≤ c.toNat ∧ c.toNat ≤ 0x39 := by
  simp only [Char.isDigit, Bool.and_eq_true, decide_eq_true_eq] at h
  have h1 : (48 : ℕ) ≤ c.toNat := by simpa [Char.le_def, UInt32.le_iff_toNat_le] using h.1
  have h2 : c.toNat ≤ 57 := by simpa [Char.le_def, UInt32.le_iff_toNat_le] using h.2
  refine ⟨?_, h1, h2⟩
  rw [Nat.toUInt8, UInt8.toNat_ofNat']
  omega

theorem isDigit_of_mem_decimal {n : ℕ} {b : UInt8} (h : b ∈ decimal n) : isDigit b := by
  obtain ⟨c, hc, rfl⟩ := List.mem_map.mp h
  obtain ⟨hbyte, hlow, hhigh⟩ :=
    toNat_charByte_of_isDigit (Nat.isDigit_of_mem_toDigits (by decide) (by decide) hc)
  simp only [isDigit, decide_eq_true_eq, UInt8.le_iff_toNat_le, hbyte]
  exact ⟨hlow, hhigh⟩

theorem decimal_ne_nil (n : ℕ) : decimal n ≠ [] := by
  simp [decimal, charBytes]

/-- **Reading a printed number gives it back.** -/
theorem digitsValue_decimal (n : ℕ) : digitsValue (decimal n) = n := by
  have htake : (decimal n).takeWhile isDigit = decimal n :=
    List.takeWhile_eq_self_iff.mpr fun b hb => isDigit_of_mem_decimal hb
  have hfold : ∀ (cs : List Char) (init : ℕ), (∀ c ∈ cs, c.isDigit) →
      (charBytes cs).foldl (fun value c => 10 * value + (c.toNat - 0x30)) init =
        Nat.ofDigitChars 10 cs init := by
    intro cs
    induction cs with
    | nil => intro init _; rfl
    | cons c cs ih =>
        intro init hc
        have hbyte := (toNat_charByte_of_isDigit (hc c List.mem_cons_self)).1
        rw [Nat.ofDigitChars_cons, ← ih _ fun d hd => hc d (List.mem_cons_of_mem _ hd)]
        simp only [charBytes, List.map_cons, List.foldl_cons, hbyte]
        rfl
  rw [digitsValue, htake, decimal,
    hfold _ _ fun c hc => Nat.isDigit_of_mem_toDigits (by decide) (by decide) hc]
  exact Nat.ofDigitChars_ten_toDigits

/-- A digit is neither white space nor a sign. -/
theorem not_sign_of_isDigit {b : UInt8} (h : isDigit b) :
    isSpace b = false ∧ b ≠ 0x2B ∧ b ≠ 0x2D := by
  have hrange : 0x30 ≤ b.toNat ∧ b.toNat ≤ 0x39 := by
    simpa [isDigit, UInt8.le_iff_toNat_le] using h
  refine ⟨?_, ?_, ?_⟩
  · simp only [isSpace, decide_eq_false_iff_not, UInt8.le_iff_toNat_le, ← UInt8.toNat_inj]
    simp
    omega
  · rintro rfl
    simp at hrange
  · rintro rfl
    simp at hrange

/-- A printed number begins neither with white space nor with a sign. -/
theorem decimal_eq_cons (n : ℕ) :
    ∃ b digits, decimal n = b :: digits ∧ isSpace b = false ∧ b ≠ 0x2B ∧ b ≠ 0x2D := by
  obtain ⟨b, digits, hb⟩ := List.exists_cons_of_ne_nil (decimal_ne_nil n)
  have hdigit : isDigit b := isDigit_of_mem_decimal (n := n) (by rw [hb]; simp)
  exact ⟨b, digits, hb, not_sign_of_isDigit hdigit⟩

theorem strtoul_decimal (n : ℕ) : strtoul (decimal n) = min n ulongMax := by
  obtain ⟨b, rest, hb, hspace, hplus, hminus⟩ := decimal_eq_cons n
  have hdrop : (decimal n).dropWhile isSpace = b :: rest := by
    rw [hb, List.dropWhile_cons_of_neg (by simp [hspace])]
  rw [strtoul, hdrop]
  split
  · rename_i heq
    exact absurd (List.cons.inj heq).1 hplus
  · rename_i heq
    exact absurd (List.cons.inj heq).1 hminus
  · rw [← hb, digitsValue_decimal]

/-- A number as `%0<width>u` prints it. -/
def zeroPadded (width n : ℕ) : List UInt8 :=
  List.replicate (width - (decimal n).length) 0x30 ++ decimal n

theorem isDigit_of_mem_zeroPadded {width n : ℕ} {b : UInt8} (h : b ∈ zeroPadded width n) :
    isDigit b := by
  rcases List.mem_append.mp h with hzero | hdigit
  · rw [List.eq_of_mem_replicate hzero]
    decide
  · exact isDigit_of_mem_decimal hdigit

theorem length_zeroPadded {width n : ℕ} (hwidth : 0 < width) (h : n < 10 ^ width) :
    (zeroPadded width n).length = width := by
  have hdigits : (decimal n).length ≤ width := by
    rw [decimal, charBytes, List.length_map]
    exact (Nat.length_toDigits_le_iff (by decide) hwidth).mpr h
  rw [zeroPadded, List.length_append, List.length_replicate]
  omega

/-- **Zeros in front** do not change the value. -/
theorem digitsValue_zeroPadded (width n : ℕ) : digitsValue (zeroPadded width n) = n := by
  unfold zeroPadded
  induction width - (decimal n).length with
  | zero => exact digitsValue_decimal n
  | succ zeros ih =>
      rw [List.replicate_succ, List.cons_append, digitsValue, List.takeWhile_cons_of_pos (by decide),
        List.foldl_cons]
      exact ih

/-! ## The class -/

/-- `class String`: the bytes in front of the zero that ends it. -/
structure Utils.String where
  bytes : List UInt8
  zero_not_mem : 0 ∉ bytes
deriving DecidableEq

/-- `String::Size`. -/
def Utils.String.size (s : Utils.String) : ℕ := s.bytes.length

/-- `String::c_str`: the array, with the zero that ends it. -/
def Utils.String.cStr (s : Utils.String) : ℕ → UInt8 := fun i => s.bytes.getD i 0

/-- `String(format, …)` with a format that has one `%s`. -/
def Utils.String.format (before : List UInt8) (s : Utils.String) (after : List UInt8)
    (h : 0 ∉ before ++ after) : Utils.String where
  bytes := before ++ s.bytes ++ after
  zero_not_mem := by
    rw [List.mem_append, not_or] at h
    rw [List.mem_append, List.mem_append, not_or, not_or]
    exact ⟨⟨h.1, s.zero_not_mem⟩, h.2⟩

end USKD
