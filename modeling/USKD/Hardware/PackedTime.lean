import USKD.Hardware.RTC

/-!
# `PackedTime`: a moment in one word

A record of the device carries its time as a `PackedTime`, six bit-fields of a word.  `ToString`
prints it in the format of the server, which is the one that `HAL_RTC::SetDateTime` reads; `ToSecs`
converts it through a `std::tm`.  Both ways end at `mktime`.

The years count from 2000 in the word, from 0 in the text and from 1900 in the `std::tm`, the months
from 1, 1 and 0.  `timeNow_toString` says that the two ways hand the same `std::tm` to `mktime`.
Nothing of this needs the fields to be a date: every value of the bit-fields has as many digits as
the format gives it.
-/

namespace USKD

/-- **`GetWord` cuts a piece out of the text**, which has no zero inside. -/
theorem SU.getWord_cStr (s : Utils.String) (posStart posEnd : ℕ) :
    SU.getWord s.cStr posStart posEnd = (s.bytes.drop posStart).take (posEnd - posStart) := by
  have hcut : ∀ (l : List UInt8) (n : ℕ), 0 ∉ l →
      ((List.range n).map fun i => l.getD i 0).takeWhile (· ≠ 0) = l.take n := by
    intro l
    induction l with
    | nil => intro n _; cases n <;> simp [List.range_succ_eq_map]
    | cons c l ih =>
        intro n hzero
        obtain ⟨hc, hl⟩ := not_or.mp (mt List.mem_cons.mpr hzero)
        cases n with
        | zero => rfl
        | succ n =>
            rw [List.range_succ_eq_map, List.map_cons, List.map_map,
              List.takeWhile_cons_of_pos (by simpa using Ne.symm hc), List.take_succ_cons, ← ih n hl]
            rfl
  rw [← hcut _ _ fun hmem => s.zero_not_mem (List.mem_of_mem_drop hmem)]
  simp [SU.getWord, Utils.String.cStr, List.getD_eq_getElem?_getD, List.getElem?_drop]

/-- `struct PackedTime`. -/
structure PackedTime where
  year : BitVec 6
  month : BitVec 4
  day : BitVec 5
  hours : BitVec 5
  minutes : BitVec 6
  seconds : BitVec 6
deriving DecidableEq

namespace PackedTime

/-- The constructor: a bit-field keeps the low bits of its value. -/
def new (h m s d mo y : UInt32) : PackedTime where
  year := .ofNat 6 y.toNat
  month := .ofNat 4 mo.toNat
  day := .ofNat 5 d.toNat
  hours := .ofNat 5 h.toNat
  minutes := .ofNat 6 m.toNat
  seconds := .ofNat 6 s.toNat

/-- The text of `ToString`: `"%04u-%02u-%02uT%02u:%02u:%02u.000Z"`. -/
def text (p : PackedTime) : List UInt8 :=
  zeroPadded 4 (p.year.toNat + 2000) ++ ascii "-" ++ zeroPadded 2 p.month.toNat ++ ascii "-" ++
    zeroPadded 2 p.day.toNat ++ ascii "T" ++ zeroPadded 2 p.hours.toNat ++ ascii ":" ++
    zeroPadded 2 p.minutes.toNat ++ ascii ":" ++ zeroPadded 2 p.seconds.toNat ++ ascii ".000Z"

theorem zero_not_mem_text (p : PackedTime) : 0 ∉ p.text := by
  have hdigits : ∀ width n, 0 ∉ zeroPadded width n := fun width n hmem =>
    absurd (isDigit_of_mem_zeroPadded hmem) (by decide)
  have hmarks : ∀ s ∈ ["-", "T", ":", ".000Z"], 0 ∉ ascii s := by decide
  simp only [List.forall_mem_cons] at hmarks
  obtain ⟨hdash, ht, hcolon, hend, -⟩ := hmarks
  simp only [text, List.mem_append, hdigits, hdash, ht, hcolon, hend, or_self, not_false_eq_true]

/-- `PackedTime::ToString`. -/
def toString (p : PackedTime) : Utils.String := ⟨p.text, p.zero_not_mem_text⟩

/-- The `std::tm` of `ToSecs`. -/
def time (p : PackedTime) : Tm where
  sec := p.seconds.toNat
  min := p.minutes.toNat
  hour := p.hours.toNat
  mday := p.day.toNat
  mon := p.month.toNat - 1
  year := p.year.toNat + 2000 - 1900
  wday := 0
  yday := 0
  isdst := 0

/-- `PackedTime::ToSecs`. -/
def toSecs (mktime : Tm → ℤ) (p : PackedTime) : UInt32 := .ofInt (mktime p.time)

/-- `PackedTime::FromTime`. -/
def fromTime (time : Tm) : PackedTime :=
  new (.ofInt time.hour) (.ofInt time.min) (.ofInt time.sec) (.ofInt time.mday)
    (.ofInt (time.mon + 1)) (.ofInt (time.year - 100))

variable (p : PackedTime)

/-- A bit-field is read back from the value it shows. -/
theorem ofNat_ofInt_toNat {w : ℕ} (hw : w ≤ 32) (b : BitVec w) :
    BitVec.ofNat w (UInt32.ofInt (b.toNat : ℤ)).toNat = b := by
  have hb : b.toNat < 2 ^ 32 := b.isLt.trans_le (Nat.pow_le_pow_right (by decide) hw)
  have hvalue : (UInt32.ofInt (b.toNat : ℤ)).toNat = b.toNat := by
    rw [UInt32.ofInt, UInt32.toNat_ofNat']
    omega
  rw [hvalue, BitVec.ofNat_toNat, BitVec.setWidth_eq]

/-- **`FromTime` undoes the conversion.** -/
theorem fromTime_time : fromTime p.time = p := by
  have hmon : p.time.mon + 1 = p.month.toNat := sub_add_cancel _ 1
  have hyear : p.time.year - 100 = p.year.toNat := by
    change (p.year.toNat + 2000 - 1900 - 100 : ℤ) = _
    omega
  rw [fromTime, hmon, hyear, new]
  simp only [time, ofNat_ofInt_toNat, Nat.reduceLeDiff]

/-! ## The text -/

theorem exists_digits {n : ℕ} (h : n < 10 ^ 2) : ∃ a b, zeroPadded 2 n = [a, b] :=
  List.length_eq_two.mp (length_zeroPadded (by decide) h)

/-- **Where the fields stand** in the text. -/
theorem words_text :
    (p.text.drop 0).take 4 = zeroPadded 4 (p.year.toNat + 2000) ∧
      (p.text.drop 5).take 2 = zeroPadded 2 p.month.toNat ∧
      (p.text.drop 8).take 2 = zeroPadded 2 p.day.toNat ∧
      (p.text.drop 11).take 2 = zeroPadded 2 p.hours.toNat ∧
      (p.text.drop 14).take 2 = zeroPadded 2 p.minutes.toNat ∧
      (p.text.drop 17).take 2 = zeroPadded 2 p.seconds.toNat := by
  have hyear := p.year.isLt
  have hmonth := p.month.isLt
  have hday := p.day.isLt
  have hhours := p.hours.isLt
  have hminutes := p.minutes.isLt
  have hseconds := p.seconds.isLt
  obtain ⟨mo, mo', hmo⟩ := @exists_digits p.month.toNat (by omega)
  obtain ⟨d, d', hd⟩ := @exists_digits p.day.toNat (by omega)
  obtain ⟨h, h', hh⟩ := @exists_digits p.hours.toNat (by omega)
  obtain ⟨m, m', hm⟩ := @exists_digits p.minutes.toNat (by omega)
  obtain ⟨s, s', hs⟩ := @exists_digits p.seconds.toNat (by omega)
  have hlength : (zeroPadded 4 (p.year.toNat + 2000)).length = 4 :=
    length_zeroPadded (by decide) (by omega)
  match hy : zeroPadded 4 (p.year.toNat + 2000), hlength with
  | [y₁, y₂, y₃, y₄], _ =>
      rw [text, hy, hmo, hd, hh, hm, hs]
      exact ⟨rfl, rfl, rfl, rfl, rfl, rfl⟩

/-- `atoi` reads a field. -/
theorem atoi_zeroPadded (width : ℕ) {n : ℕ} (h : n < 2 ^ 31) :
    (atoi (zeroPadded width n)).getD 0 = n := by
  have hvalue := digitsValue_zeroPadded width n
  rw [atoi_of_digits (fun b hb => isDigit_of_mem_zeroPadded hb) (by rw [hvalue]; exact h), hvalue,
    Option.getD_some]

/-- **The time parser undoes the time formatter.** -/
theorem timeNow_toString : HAL_RTC.timeNow p.toString.cStr = p.time := by
  obtain ⟨hyear, hmonth, hday, hhours, hminutes, hseconds⟩ := p.words_text
  have hbytes : p.toString.bytes = p.text := rfl
  have hread : ∀ {w} (width : ℕ) (b : BitVec w), w ≤ 6 →
      (atoi (zeroPadded width b.toNat)).getD 0 = b.toNat := fun width b hw =>
    atoi_zeroPadded width (b.isLt.trans (Nat.pow_lt_pow_right (by decide) (by omega)))
  have hreadYear := @atoi_zeroPadded 4 (p.year.toNat + 2000) (by have := p.year.isLt; omega)
  unfold HAL_RTC.timeNow time
  simp only [SU.getWord_cStr, hbytes, Nat.reduceSub, hyear, hmonth, hday, hhours, hminutes, hseconds,
    hread, hreadYear, Nat.reduceLeDiff, Nat.cast_add, Nat.cast_ofNat]

/-- **`SetDateTime` of a printed time** records the moment that `ToSecs` gives: the `std::tm` that
goes to `mktime` is the same one.  `FromTime` makes the `PackedTime` of it. -/
theorem setDateTime_toString (mktime : Tm → ℤ) (s : HAL_RTC) (timerCounter : UInt32)
    (p : PackedTime) :
    HAL_RTC.timeNow p.toString.cStr = p.time ∧
      s.setDateTime mktime timerCounter p.toString.cStr =
        { s with isSet := true }.append timerCounter (mktime p.time) ∧
      p.toSecs mktime = .ofInt (mktime (HAL_RTC.timeNow p.toString.cStr)) ∧
      fromTime (HAL_RTC.timeNow p.toString.cStr) = p := by
  rw [HAL_RTC.setDateTime, p.timeNow_toString]
  exact ⟨rfl, rfl, rfl, p.fromTime_time⟩

end PackedTime

end USKD
