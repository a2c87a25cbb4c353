import USKD.Display.Font
import USKD.Lib.Raster
import USKD.Utils.Text

/-!
# `Display`: text on the screen

`WriteString` draws a string from a position on, character by character, and stops at the first one
that has no glyph or no room.  The guards of `WriteChar` and `DrawPixel` compare sums of `int`
coordinates with the size of the screen.

`none` stands for what the language leaves undefined: an `int` that overflows, a shift by a negative
number, and an access outside of `buffer` or of the font table.
-/

namespace USKD

open Raster

/-- The value of an `int` expression. -/
def int (n : ℤ) : Option ℤ := if -2 ^ 31 ≤ n ∧ n < 2 ^ 31 then some n else none

theorem int_of_bounds {n : ℤ} (hlow : -2 ^ 31 ≤ n) (hhigh : n < 2 ^ 31) : int n = some n :=
  if_pos ⟨hlow, hhigh⟩

theorem int_add {m n : ℕ} (h : m + n < 2 ^ 31) : int (m + n) = some ((m + n : ℕ) : ℤ) := by
  rw [← Nat.cast_add]
  exact int_of_bounds (by omega) (by omega)

/-- The static data of `namespace Display`. -/
structure Display where
  buffer : Screen 128 8
  cursorX : ℤ
  cursorY : ℤ
deriving DecidableEq

namespace Display

def WIDTH : ℤ := 128

def HEIGHT : ℤ := 64

def font_10x7 : FontDef := ⟨7, 10, Font10x7⟩

/-- `buffer[i]`, changed. -/
def modify (buffer : Screen 128 8) (i : ℤ) (f : UInt8 → UInt8) : Option (Screen 128 8) :=
  if 0 ≤ i then buffer.modify i.toNat f else none

/-- `DrawPixel`. -/
def drawPixel (buffer : Screen 128 8) (x y color : ℤ) : Option (Screen 128 8) :=
  if x ≥ WIDTH ∨ y ≥ HEIGHT then some buffer
  else do
    let page ← int (y.tdiv 8 * WIDTH)
    let i ← int (x + page)
    let shift := y.tmod 8
    if shift < 0 then none
    else if color ≠ 0 then modify buffer i fun b => b ||| .ofNat (1 <<< shift.toNat)
    else modify buffer i fun b => b &&& ~~~.ofNat (1 <<< shift.toNat)

/-- The loops of the branch for the small fonts. -/
def drawBits (d : Display) (type : TypeFont) (symbol : UInt8) : Option (Screen 128 8) :=
  (List.range (Font.getHeight type)).foldlM
    (fun buffer row => (List.range (Font.getWidth symbol)).foldlM
      (fun buffer col => do
        if Font.getBit symbol row col ≠ 0 then
          let x ← int (d.cursorX + col)
          let y ← int (d.cursorY + row)
          drawPixel buffer x y 1
        else pure buffer) buffer)
    d.buffer

/-- The loop over a row of `font_10x7`. -/
def drawRow (d : Display) (b i : ℕ) (buffer : Screen 128 8) : Option (Screen 128 8) :=
  (List.range font_10x7.width).foldlM
    (fun buffer (j : ℕ) => do
      let x ← int (d.cursorX + j)
      let y ← int (d.cursorY + i)
      drawPixel buffer x y (if (b <<< j) &&& 0x8000 ≠ 0 then 1 else 0)) buffer

/-- The loops of the branch for `font_10x7`. -/
def drawGlyph (d : Display) (ch : UInt8) : Option (Screen 128 8) :=
  (List.range font_10x7.height).foldlM
    (fun buffer i => do
      let b ← font_10x7.data[(ch.toNat - 32) * font_10x7.height + i]?
      drawRow d b.toNat i buffer) d.buffer

/-- `WriteChar`. -/
def writeChar (type : TypeFont) (d : Display) (ch : UInt8) : Option (UInt8 × Display) :=
  match type with
  | ._5 | ._7 => do
      let buffer ← drawBits d type ch
      let cursorX ← int (d.cursorX + Font.getWidth ch + 1)
      pure (ch, { d with buffer, cursorX })
  | ._10 =>
      if ch < 32 ∨ ch > 126 then some (0, d)
      else do
        let right ← int (d.cursorX + font_10x7.width)
        if WIDTH < right then return (0, d)
        let bottom ← int (d.cursorY + font_10x7.height)
        if HEIGHT < bottom then return (0, d)
        let buffer ← drawGlyph d ch
        let cursorX ← int (d.cursorX + font_10x7.width)
        pure (ch, { d with buffer, cursorX })
  | .Count => some (ch, d)

/-- The loop of `WriteString`, over the characters that are left. -/
def writeFrom (type : TypeFont) (d : Display) : List UInt8 → Option (UInt8 × Display)
  | [] => some (0, d)
  | ch :: rest => do
      let (written, d) ← writeChar type d ch
      if written ≠ ch then return (ch, d)
      writeFrom type d rest

/-- `WriteString`. -/
def writeString (type : TypeFont) (d : Display) (x y : ℤ) (str : Utils.String) :
    Option (UInt8 × Display) :=
  writeFrom type { d with cursorX := x, cursorY := y } str.bytes

/-! ## What is to be drawn -/

/-- The character has a glyph. -/
def Printable (ch : UInt8) : Prop := 32 ≤ ch ∧ ch ≤ 126

/-- A text that can be drawn at `(x, y)`: every character has a glyph, and their cells of 7 by 10
pixels stand side by side on the screen. -/
structure Fits (x y : ℕ) (text : List UInt8) : Prop where
  printable : ∀ ch ∈ text, Printable ch
  inside : text ≠ [] → x + 7 * text.length ≤ 128 ∧ y + 10 ≤ 64

/-- **The longest front of a string** that can be drawn. -/
structure Longest (x y : ℕ) (str front : List UInt8) : Prop where
  begins : front <+: str
  fits : Fits x y front
  longest : ∀ other, other <+: str → Fits x y other → other.length ≤ front.length

/-- The picture of a text: cell by cell. -/
def cells (text : List UInt8) (j i : ℕ) : Bool := glyph (text.getD (j / 7) 0) (j % 7) i

/-- **`WriteString` draws the longest front of the string** that can be drawn, leaves every other
pixel as it is, and returns the first character that is not drawn. -/
def WritesLongest (d : Display) (x y : ℕ) (str : Utils.String) : Prop :=
  ∃ front ch d', Longest x y str.bytes front ∧ writeString ._10 d x y str = some (ch, d') ∧
    d'.buffer.canvas = d.buffer.canvas.draw x y (7 * front.length) 10 (cells front) ∧
    ch = (str.bytes.drop front.length).headD 0

/-- **A sum that is no `int`** is compared: there is a character to draw, and the position is so far
to the right, or in front of the right edge so far down. -/
def Overflows (x y : ℕ) (str : List UInt8) : Prop :=
  ∃ ch ∈ str.head?, Printable ch ∧ (2 ^ 31 ≤ x + 7 ∨ x + 7 ≤ 128 ∧ 2 ^ 31 ≤ y + 10)

variable {x y : ℕ} {ch : UInt8} {rest text : List UInt8}

theorem longest_nil : Longest x y [] [] where
  begins := List.prefix_refl []
  fits := ⟨fun _ hc => absurd hc List.not_mem_nil, fun h => absurd rfl h⟩
  longest other hother _ := by rw [List.prefix_nil.mp hother]

/-- The first character cannot be drawn. -/
theorem longest_of_not (h : ¬ (Printable ch ∧ x + 7 ≤ 128 ∧ y + 10 ≤ 64)) :
    Longest x y (ch :: rest) [] where
  begins := List.nil_prefix
  fits := ⟨fun _ hc => absurd hc List.not_mem_nil, fun h => absurd rfl h⟩
  longest other hother hfits := by
    rcases List.prefix_cons_iff.mp hother with rfl | ⟨other, rfl, -⟩
    · exact Nat.le_refl _
    · have hinside := hfits.inside (List.cons_ne_nil ch other)
      rw [List.length_cons] at hinside
      exact absurd ⟨hfits.printable ch List.mem_cons_self, by omega, hinside.2⟩ h

/-- The first character can be drawn. -/
theorem Longest.cons (hch : Printable ch) (hx : x + 7 ≤ 128) (hy : y + 10 ≤ 64)
    (h : Longest (x + 7) y rest text) : Longest x y (ch :: rest) (ch :: text) where
  begins := List.cons_prefix_cons.mpr ⟨rfl, h.begins⟩
  fits := by
    refine ⟨List.forall_mem_cons.mpr ⟨hch, h.fits.printable⟩, fun _ => ⟨?_, hy⟩⟩
    rw [List.length_cons]
    cases text with
    | nil => exact hx
    | cons c text =>
        have hinside := (h.fits.inside (List.cons_ne_nil c text)).1
        omega
  longest other hother hfits := by
    rcases List.prefix_cons_iff.mp hother with rfl | ⟨other, rfl, htail⟩
    · exact Nat.zero_le _
    · have hinside := (hfits.inside (List.cons_ne_nil ch other)).1
      rw [List.length_cons] at hinside
      have hbehind : Fits (x + 7) y other :=
        ⟨fun c hc => hfits.printable c (List.mem_cons_of_mem _ hc), fun _ => ⟨by omega, hy⟩⟩
      exact Nat.succ_le_succ (h.longest other htail hbehind)

/-- A cell in front of a text. -/
theorem draw_cells_cons (c : Canvas) :
    (c.draw x y 7 10 (glyph ch)).draw (x + 7) y (7 * text.length) 10 (cells text) =
      c.draw x y (7 * (ch :: text).length) 10 (cells (ch :: text)) := by
  rw [Canvas.draw_beside, List.length_cons, Nat.mul_succ, Nat.add_comm (7 * text.length)]
  refine Canvas.draw_congr fun j _ i _ => ?_
  unfold cells
  split
  · rename_i hj
    rw [Nat.div_eq_of_lt hj, Nat.mod_eq_of_lt hj]
    rfl
  · rename_i hj
    obtain ⟨k, rfl⟩ : ∃ k, j = k + 7 := ⟨j - 7, by omega⟩
    rw [Nat.add_sub_cancel, Nat.add_div_right k (by decide), Nat.add_mod_right]
    rfl

/-! ## What is drawn -/

variable {d : Display} {buffer : Screen 128 8} {color : ℤ} {str : Utils.String}

/-- **A pixel of the screen** is set by its bit. -/
theorem drawPixel_eq (hx : x < 128) (hy : y < 64) :
    drawPixel buffer x y color = buffer.setPixel x y (color ≠ 0) := by
  have hdiv : (y : ℤ).tdiv 8 = (y / 8 : ℕ) := rfl
  have hmod : (y : ℤ).tmod 8 = (y % 8 : ℕ) := rfl
  have hcast : (x : ℤ) + (y / 8 : ℕ) * 128 = (x + y / 8 * 128 : ℕ) := by push_cast; rfl
  unfold drawPixel WIDTH HEIGHT
  rw [if_neg (by omega), hdiv, hmod, int_of_bounds (by omega) (by omega), Option.bind_eq_bind,
    Option.bind_some, int_of_bounds (by omega) (by omega), Option.bind_some, if_neg (by omega),
    hcast]
  unfold modify
  rw [if_pos (Int.natCast_nonneg _), if_pos (Int.natCast_nonneg _), Int.toNat_natCast,
    Int.toNat_natCast, Screen.setPixel]
  by_cases hcolor : color = 0
  · rw [if_neg (not_not.mpr hcolor), decide_eq_false (not_not.mpr hcolor)]
    rfl
  · rw [if_pos hcolor, decide_eq_true hcolor]
    rfl

/-- One row of a glyph. -/
theorem exists_drawRow (hcursorX : d.cursorX = x) (hcursorY : d.cursorY = y) {i : ℕ}
    (hx : x + 7 ≤ 128) (hy : y + i < 64) (b : ℕ) (buffer : Screen 128 8) :
    ∃ t, drawRow d b i buffer = some t ∧
      t.canvas = buffer.canvas.draw x (y + i) 7 1 fun j _ => b.testBit (15 - j) := by
  refine row_of_loop (fun s j hj => ?_) buffer
  have hj' : j < 7 := hj
  rw [hcursorX, hcursorY, int_add (by omega), Option.bind_eq_bind, Option.bind_some,
    int_add (by omega), Option.bind_some, drawPixel_eq (by omega) hy]
  have hlit : (decide ((if (b <<< j) &&& 0x8000 ≠ 0 then (1 : ℤ) else 0) ≠ 0)) =
      b.testBit (15 - j) := by
    rw [Bool.eq_iff_iff, ← shiftLeft_and_ne_zero_iff b (by omega), decide_eq_true_eq]
    split
    · rename_i hbit; exact iff_of_true one_ne_zero hbit
    · rename_i hbit; exact iff_of_false (fun h => h rfl) hbit
  rw [hlit]
  exact s.exists_setPixel (by omega) (by omega) _

/-- **A glyph on the screen.** -/
theorem exists_drawGlyph (hcursorX : d.cursorX = x) (hcursorY : d.cursorY = y)
    (hx : x + 7 ≤ 128) (hy : y + 10 ≤ 64) (hch : Printable ch) :
    ∃ t, drawGlyph d ch = some t ∧ t.canvas = d.buffer.canvas.draw x y 7 10 (glyph ch) := by
  obtain ⟨hlow, hhigh⟩ := hch
  rw [UInt8.le_iff_toNat_le] at hlow hhigh
  refine rectangle_of_loop (fun s i hi => ?_) d.buffer
  have hi' : i < 10 := hi
  have hentry : (ch.toNat - 32) * 10 + i < Font10x7.length := by
    rw [length_font10x7]
    simp at hlow hhigh
    omega
  have hdata : font_10x7.data[(ch.toNat - 32) * font_10x7.height + i]? =
      some Font10x7[(ch.toNat - 32) * 10 + i] := List.getElem?_eq_getElem hentry
  obtain ⟨t, ht, hcanvas⟩ := exists_drawRow hcursorX hcursorY hx (show y + i < 64 by omega)
    Font10x7[(ch.toNat - 32) * 10 + i].toNat s
  refine ⟨t, ?_, ?_⟩
  · rw [hdata]
    exact ht
  · rw [hcanvas]
    refine Canvas.draw_congr fun j _ i' _ => ?_
    rw [glyph, List.getD_eq_getElem _ _ hentry]

/-! ## `WriteChar` -/

instance (ch : UInt8) : Decidable (Printable ch) :=
  inferInstanceAs (Decidable (32 ≤ ch ∧ ch ≤ 126))

theorem writeChar_of_not_printable (hch : ¬ Printable ch) : writeChar ._10 d ch = some (0, d) := by
  rw [writeChar, if_pos]
  by_contra hnot
  obtain ⟨hlow, hhigh⟩ := not_or.mp hnot
  exact hch ⟨UInt8.not_lt.mp hlow, UInt8.not_lt.mp hhigh⟩

/-- The branch of the font behind the test of the character. -/
theorem writeChar_of_printable (hch : Printable ch) : writeChar ._10 d ch =
    (int (d.cursorX + 7)).bind fun right =>
      if 128 < right then some (0, d)
      else (int (d.cursorY + 10)).bind fun bottom =>
        if 64 < bottom then some (0, d)
        else (drawGlyph d ch).bind fun buffer =>
          (int (d.cursorX + 7)).bind fun cursorX => some (ch, { d with buffer, cursorX }) := by
  obtain ⟨hlow, hhigh⟩ := hch
  rw [writeChar, if_neg (not_or.mpr ⟨UInt8.not_lt.mpr hlow, UInt8.not_lt.mpr hhigh⟩)]
  rfl

section Cursor

variable (hcursorX : d.cursorX = x) (hcursorY : d.cursorY = y)

include hcursorX hcursorY

/-- **There is room**: the glyph is drawn, and the cursor moves. -/
theorem writeChar_of_room (hch : Printable ch) (hx : x + 7 ≤ 128) (hy : y + 10 ≤ 64) :
    ∃ buffer, writeChar ._10 d ch = some (ch, { d with buffer, cursorX := (x + 7 : ℕ) }) ∧
      buffer.canvas = d.buffer.canvas.draw x y 7 10 (glyph ch) := by
  obtain ⟨buffer, hglyph, hcanvas⟩ := exists_drawGlyph hcursorX hcursorY hx hy hch
  refine ⟨buffer, ?_, hcanvas⟩
  have hsum : d.cursorX + 7 = (x + 7 : ℕ) := by rw [hcursorX]; push_cast; rfl
  rw [writeChar_of_printable hch, hsum, hcursorY, int_of_bounds (by omega) (by omega),
    Option.bind_some, if_neg (by omega), int_of_bounds (by omega) (by omega), Option.bind_some,
    if_neg (by omega), hglyph, Option.bind_some, Option.bind_some]

/-- **There is no room**, and the sums that say so are `int`s. -/
theorem writeChar_of_no_room (hch : Printable ch) (hroom : ¬ (x + 7 ≤ 128 ∧ y + 10 ≤ 64))
    (hx : x + 7 < 2 ^ 31) (hy : x + 7 ≤ 128 → y + 10 < 2 ^ 31) :
    writeChar ._10 d ch = some (0, d) := by
  rw [writeChar_of_printable hch, hcursorX, hcursorY, int_of_bounds (by omega) (by omega),
    Option.bind_some]
  by_cases hright : x + 7 ≤ 128
  · rw [if_neg (by omega), int_of_bounds (by omega) (by omega), Option.bind_some,
      if_pos (by omega)]
  · rw [if_pos (by omega)]

/-- **A sum overflows.** -/
theorem writeChar_of_overflow (hch : Printable ch)
    (hover : 2 ^ 31 ≤ x + 7 ∨ x + 7 ≤ 128 ∧ 2 ^ 31 ≤ y + 10) : writeChar ._10 d ch = none := by
  rw [writeChar_of_printable hch, hcursorX, hcursorY]
  rcases hover with hx | ⟨hx, hy⟩
  · rw [int, if_neg (by omega)]
    rfl
  · rw [int_of_bounds (by omega) (by omega), Option.bind_some, if_neg (by omega), int,
      if_neg (by omega)]
    rfl

end Cursor

/-! ## `WriteString` -/

/-- What the loop draws from the cursor on. -/
theorem exists_writeFrom (hcursorX : d.cursorX = x) (hcursorY : d.cursorY = y)
    (hzero : 0 ∉ rest) (hover : ¬ Overflows x y rest) :
    ∃ front ch d', Longest x y rest front ∧ writeFrom ._10 d rest = some (ch, d') ∧
      d'.buffer.canvas = d.buffer.canvas.draw x y (7 * front.length) 10 (cells front) ∧
      ch = (rest.drop front.length).headD 0 := by
  induction rest generalizing d x with
  | nil => exact ⟨[], 0, d, longest_nil, rfl, Canvas.draw_of_width_zero.symm, rfl⟩
  | cons c rest ih =>
      obtain ⟨hc, hrest⟩ := not_or.mp (mt List.mem_cons.mpr hzero)
      -- a character that is not drawn ends the loop
      have hstop : writeChar ._10 d c = some (0, d) →
          ¬ (Printable c ∧ x + 7 ≤ 128 ∧ y + 10 ≤ 64) →
          ∃ front ch d', Longest x y (c :: rest) front ∧
            writeFrom ._10 d (c :: rest) = some (ch, d') ∧
            d'.buffer.canvas = d.buffer.canvas.draw x y (7 * front.length) 10 (cells front) ∧
            ch = ((c :: rest).drop front.length).headD 0 := by
        intro hwrite hnot
        refine ⟨[], c, d, longest_of_not hnot, ?_, Canvas.draw_of_width_zero.symm, rfl⟩
        rw [writeFrom, hwrite]
        exact if_pos hc
      by_cases hch : Printable c
      · have hx : x + 7 < 2 ^ 31 := by
          by_contra hx
          exact hover ⟨c, rfl, hch, Or.inl (by omega)⟩
        have hy : x + 7 ≤ 128 → y + 10 < 2 ^ 31 := by
          intro hright
          by_contra hy
          exact hover ⟨c, rfl, hch, Or.inr ⟨hright, by omega⟩⟩
        by_cases hroom : x + 7 ≤ 128 ∧ y + 10 ≤ 64
        · obtain ⟨buffer, hwrite, hcanvas⟩ :=
            writeChar_of_room hcursorX hcursorY hch hroom.1 hroom.2
          have hover' : ¬ Overflows (x + 7) y rest := by
            rintro ⟨c', -, -, hx' | ⟨-, hy'⟩⟩
            · omega
            · omega
          obtain ⟨front, ch, d', hlongest, hloop, hcanvas', hch'⟩ :=
            @ih (x + 7) { d with buffer, cursorX := (x + 7 : ℕ) } rfl hcursorY hrest hover'
          refine ⟨c :: front, ch, d', hlongest.cons hch hroom.1 hroom.2, ?_, ?_, hch'⟩
          · rw [writeFrom, hwrite]
            simpa using hloop
          · rw [hcanvas', hcanvas, draw_cells_cons]
        · exact hstop (writeChar_of_no_room hcursorX hcursorY hch hroom hx hy) fun h => hroom h.2
      · exact hstop (writeChar_of_not_printable hch) fun h => hch h.1

/-- **`WriteString` draws exactly the longest front** of the string that has glyphs and room, if and
only if no sum of its guards overflows. -/
theorem writesLongest_iff (d : Display) (x y : ℕ) (str : Utils.String) :
    WritesLongest d x y str ↔ ¬ Overflows x y str.bytes := by
  constructor
  · rintro ⟨front, ch, d', -, hwrite, -⟩ ⟨c, hc, hch, hover⟩
    obtain ⟨rest, hrest⟩ := List.head?_eq_some_iff.mp hc
    rw [writeString, hrest, writeFrom, writeChar_of_overflow rfl rfl hch hover] at hwrite
    exact absurd hwrite (by simp)
  · intro hover
    exact exists_writeFrom rfl rfl str.zero_not_mem hover

/-- The letter `A`. -/
def letter : Utils.String := ⟨[0x41], by decide⟩

/-- **At the largest `int`** the guard of `WriteChar` overflows. -/
theorem not_writesLongest_farRight :
    ¬ ∀ (d : Display) (x y : ℕ) (str : Utils.String), x < 2 ^ 31 → y < 2 ^ 31 →
        WritesLongest d x y str := by
  intro hall
  let d : Display := ⟨⟨.replicate (128 * 8) 0⟩, 0, 0⟩
  obtain ⟨front, ch, d', -, hwrite, -⟩ := hall d 2147483647 0 letter (by decide) (by decide)
  have hnone : writeString ._10 d (2147483647 : ℕ) (0 : ℕ) letter = none := by
    rw [writeString, letter, writeFrom, writeChar_of_overflow rfl rfl (by decide) (.inl (by decide))]
    rfl
  exact absurd (hnone.symm.trans hwrite) (by simp)

end Display

end USKD
