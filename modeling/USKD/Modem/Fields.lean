import Mathlib.Data.List.GetD
import USKD.Modem.Words

/-!
# The fields of a line

A message with coordinates is a list of fields between commas.  `ProcessUnsolicited` finds a field
by the positions of the two commas around it and copies it to a buffer on the stack.

* `positionSymbol` is the search, `symbols` the text that is copied.
* Between two commas of a line lies a field of it, and so `symbols_eq`.
-/

namespace USKD.Parser

/-- `NumberSymbols`. -/
def numberSymbols (string : List UInt8) (symbol : UInt8) : ℕ := string.count symbol

/-- The loop of `PositionSymbol`, from the position `i`. -/
def positionFrom (symbol : UInt8) : ℕ → ℤ → List UInt8 → ℤ
  | _, _, [] => -1
  | i, num, c :: rest =>
      if c = symbol then
        if num - 1 = 0 then i else positionFrom symbol (i + 1) (num - 1) rest
      else positionFrom symbol (i + 1) num rest

/-- `PositionSymbol`. -/
def positionSymbol (string : List UInt8) (symbol : UInt8) (num : ℤ) : ℤ :=
  positionFrom symbol 0 num string

/-- The text that `SymbolsToFloat` copies to its buffer. -/
def symbols (string : List UInt8) (posStart posEnd : ℤ) : List UInt8 :=
  (string.drop posStart.toNat).take (posEnd - posStart).toNat

/-- The fields between the commas. -/
def fields (string : List UInt8) : List (List UInt8) := string.splitOnP (· == 0x2C)

variable {string : List UInt8} {k : ℕ}

theorem fields_cons (c : UInt8) (rest : List UInt8) :
    fields (c :: rest) =
      if c = 0x2C then [] :: fields rest else (fields rest).modifyHead (c :: ·) := by
  unfold fields
  rw [List.splitOnP_cons_eq_if_modifyHead]
  simp only [beq_iff_eq]

theorem fields_eq (string : List UInt8) :
    ∃ others, fields string = (string.takeWhile fun c => !(c == 0x2C)) :: others :=
  splitOnP_eq_cons (· == 0x2C) string

theorem length_fields (string : List UInt8) :
    (fields string).length = numberSymbols string 0x2C + 1 := by
  unfold numberSymbols
  induction string with
  | nil => rfl
  | cons c rest ih =>
      rw [fields_cons]
      by_cases hc : c = 0x2C
      · rw [if_pos hc, hc, List.count_cons_self, List.length_cons, ih]
      · rw [if_neg hc, List.count_cons_of_ne hc, List.length_modifyHead, ih]

/-- The length of the text in front of the field `k + 1`, its comma left out. -/
def before (string : List UInt8) (k : ℕ) : ℕ :=
  (((fields string).take (k + 1)).map List.length).sum + k

/-- A comma adds a field in front. -/
theorem before_comma (rest : List UInt8) (k : ℕ) :
    before (0x2C :: rest) (k + 1) = before rest k + 1 := by
  unfold before
  rw [fields_cons, if_pos rfl, List.take_succ_cons, List.map_cons, List.sum_cons, List.length_nil]
  omega

/-- Any other byte makes the first field longer. -/
theorem before_of_ne {c : UInt8} (hc : c ≠ 0x2C) (rest : List UInt8) (k : ℕ) :
    before (c :: rest) k = before rest k + 1 := by
  obtain ⟨others, hrest⟩ := fields_eq rest
  unfold before
  rw [fields_cons, if_neg hc, hrest, List.modifyHead_cons, List.take_succ_cons, List.take_succ_cons,
    List.map_cons, List.map_cons, List.sum_cons, List.sum_cons, List.length_cons]
  omega

theorem before_succ (hk : k + 1 < (fields string).length) :
    before string (k + 1) = before string k + 1 + ((fields string)[k + 1]).length := by
  unfold before
  rw [List.take_succ_eq_append_getElem hk, List.map_append, List.sum_append, List.map_singleton,
    List.sum_singleton]
  omega

/-- **The comma behind the field `k`** is where `PositionSymbol` finds it. -/
theorem positionFrom_eq {i : ℕ} (hk : k + 1 < (fields string).length) :
    positionFrom 0x2C i (k + 1) string = i + before string k := by
  induction string generalizing i k with
  | nil => exact absurd hk (by simp [fields])
  | cons c rest ih =>
      rw [positionFrom]
      by_cases hc : c = 0x2C
      · rw [if_pos hc]
        rw [fields_cons, if_pos hc, List.length_cons] at hk
        cases k with
        | zero =>
            rw [if_pos (by simp), hc]
            simp [before, fields_cons]
        | succ k =>
            have hnum : ((k + 1 : ℕ) : ℤ) + 1 - 1 = (k : ℤ) + 1 := by omega
            rw [if_neg (by omega), hnum, ih (Nat.lt_of_succ_lt_succ hk), hc, before_comma]
            omega
      · rw [if_neg hc, before_of_ne hc]
        rw [fields_cons, if_neg hc, List.length_modifyHead] at hk
        rw [ih hk]
        omega

/-- Behind that comma begin the other fields. -/
theorem fields_drop (hk : k + 1 < (fields string).length) :
    fields (string.drop (before string k + 1)) = (fields string).drop (k + 1) := by
  induction string generalizing k with
  | nil => exact absurd hk (by simp [fields])
  | cons c rest ih =>
      rw [List.drop_succ_cons]
      by_cases hc : c = 0x2C
      · rw [fields_cons, if_pos hc, List.length_cons] at hk
        rw [fields_cons, if_pos hc, List.drop_succ_cons, hc]
        cases k with
        | zero => simp [before, fields_cons]
        | succ k => rw [before_comma, ih (Nat.lt_of_succ_lt_succ hk)]
      · rw [fields_cons, if_neg hc, List.length_modifyHead] at hk
        rw [before_of_ne hc, ih hk, fields_cons, if_neg hc]
        obtain ⟨others, hrest⟩ := fields_eq rest
        rw [hrest, List.modifyHead_cons, List.drop_succ_cons, List.drop_succ_cons]

theorem positionSymbol_eq (hk : k + 1 < (fields string).length) :
    positionSymbol string 0x2C (k + 1) = before string k := by
  rw [positionSymbol, positionFrom_eq hk]
  exact Int.zero_add _

/-- **What is copied between two commas is a field**, and the difference of their positions its
length. -/
theorem symbols_eq (hk : k + 2 < (fields string).length) :
    symbols string (positionSymbol string 0x2C (k + 1) + 1)
        (positionSymbol string 0x2C (k + 1 + 1)) = (fields string).getD (k + 1) [] ∧
      positionSymbol string 0x2C (k + 1 + 1) - (positionSymbol string 0x2C (k + 1) + 1) =
        ((fields string).getD (k + 1) []).length := by
  have hsecond : positionSymbol string 0x2C (k + 1 + 1) = (before string (k + 1) : ℤ) :=
    @positionSymbol_eq string (k + 1) hk
  -- the text behind the first comma begins with the field
  have hdrop := @fields_drop string k (by omega)
  have hcons : (fields string).drop (k + 1) =
      (fields string)[k + 1] :: (fields string).drop (k + 2) :=
    List.drop_eq_getElem_cons (by omega)
  rw [hcons] at hdrop
  obtain ⟨others, hothers⟩ := fields_eq (string.drop (before string k + 1))
  obtain ⟨hfield, -⟩ := List.cons.inj (hothers.symm.trans hdrop)
  have hlength := @before_succ string k (by omega)
  have hstart : ((before string k : ℤ) + 1).toNat = before string k + 1 := by omega
  have hend : ((before string (k + 1) : ℤ) - (before string k + 1)).toNat =
      ((fields string)[k + 1]).length := by omega
  rw [positionSymbol_eq (by omega), hsecond, List.getD_eq_getElem _ _ (by omega)]
  constructor
  · rw [symbols, hstart, hend, ← hfield]
    exact (List.prefix_iff_eq_take.mp (List.takeWhile_prefix _)).symm
  · omega

end USKD.Parser
