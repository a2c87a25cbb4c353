import Mathlib.Data.List.Basic
import Mathlib.Data.Nat.Bitwise

/-!
# Rasters with eight rows to a byte

A small display keeps its picture in pages: a page is a stripe of eight rows, a byte of it is a
column of the stripe, and the lowest bit is the uppermost pixel.  A rectangle that is drawn into the
picture begins and ends anywhere in a page.

What is drawn is said without bytes.  A `Canvas` is the picture itself, and `Canvas.draw` lays a
rectangle over it; everything outside of the rectangle stays as it is.

* `Canvas.draw_beside` and `Canvas.draw_below`: two rectangles that adjoin are one.
* `exists_setPixel`: to set a bit is to draw a rectangle of one pixel.
* `row_of_loop` and `rectangle_of_loop`: a loop whose turns draw the pixels of a row, or the rows of
  a rectangle, draws the whole.
-/

namespace Raster

universe u

/-- A picture: which pixels are lit. -/
abbrev Canvas := ℕ → ℕ → Bool

namespace Canvas

/-- A rectangle of `w` by `h` pixels is drawn at `(x, y)`; `shape` counts from its corner. -/
def draw (c : Canvas) (x y w h : ℕ) (shape : ℕ → ℕ → Bool) : Canvas := fun x' y' =>
  if x ≤ x' ∧ x' < x + w ∧ y ≤ y' ∧ y' < y + h then shape (x' - x) (y' - y) else c x' y'

variable {c : Canvas} {x y w h : ℕ} {shape shape' : ℕ → ℕ → Bool}

theorem draw_apply (x' y' : ℕ) : c.draw x y w h shape x' y' =
    if x ≤ x' ∧ x' < x + w ∧ y ≤ y' ∧ y' < y + h then shape (x' - x) (y' - y) else c x' y' := rfl

theorem draw_of_width_zero : c.draw x y 0 h shape = c := by
  funext x' y'
  exact if_neg (by omega)

theorem draw_of_height_zero : c.draw x y w 0 shape = c := by
  funext x' y'
  exact if_neg (by omega)

/-- Only the pixels of the rectangle count. -/
theorem draw_congr (hshape : ∀ j < w, ∀ i < h, shape j i = shape' j i) :
    c.draw x y w h shape = c.draw x y w h shape' := by
  funext x' y'
  unfold draw
  split
  · rename_i hinside
    exact hshape _ (by omega) _ (by omega)
  · rfl

/-- **Side by side.** -/
theorem draw_beside (w' : ℕ) :
    (c.draw x y w h shape).draw (x + w) y w' h shape' =
      c.draw x y (w + w') h fun j i => if j < w then shape j i else shape' (j - w) i := by
  funext x' y'
  unfold draw
  by_cases hrow : y ≤ y' ∧ y' < y + h
  · by_cases hleft : x ≤ x' ∧ x' < x + w
    · rw [if_neg (by omega), if_pos (by omega), if_pos (by omega)]
      exact (if_pos (by omega)).symm
    · by_cases hright : x + w ≤ x' ∧ x' < x + w + w'
      · rw [if_pos (by omega), if_pos (by omega), ← Nat.sub_sub]
        exact (if_neg (by omega)).symm
      · rw [if_neg (by omega), if_neg (by omega), if_neg (by omega)]
  · rw [if_neg (by omega), if_neg (by omega), if_neg (by omega)]

/-- **One below the other.** -/
theorem draw_below (h' : ℕ) :
    (c.draw x y w h shape).draw x (y + h) w h' shape' =
      c.draw x y w (h + h') fun j i => if i < h then shape j i else shape' j (i - h) := by
  funext x' y'
  unfold draw
  by_cases hcolumn : x ≤ x' ∧ x' < x + w
  · by_cases habove : y ≤ y' ∧ y' < y + h
    · rw [if_neg (by omega), if_pos (by omega), if_pos (by omega)]
      exact (if_pos (by omega)).symm
    · by_cases hbelow : y + h ≤ y' ∧ y' < y + h + h'
      · rw [if_pos (by omega), if_pos (by omega), ← Nat.sub_sub]
        exact (if_neg (by omega)).symm
      · rw [if_neg (by omega), if_neg (by omega), if_neg (by omega)]
  · rw [if_neg (by omega), if_neg (by omega), if_neg (by omega)]

/-- One more pixel of a row. -/
theorem draw_row_succ :
    (c.draw x y w 1 shape).draw (x + w) y 1 1 (fun _ _ => shape w 0) =
      c.draw x y (w + 1) 1 shape := by
  rw [draw_beside]
  refine draw_congr fun j hj i hi => ?_
  obtain rfl : i = 0 := by omega
  split
  · rfl
  · rw [show j = w by omega]

/-- One more row of a rectangle. -/
theorem draw_succ :
    (c.draw x y w h shape).draw x (y + h) w 1 (fun j _ => shape j h) =
      c.draw x y w (h + 1) shape := by
  rw [draw_below]
  refine draw_congr fun j hj i hi => ?_
  split
  · rfl
  · rw [show i = h by omega]

end Canvas

/-! ## Loops that draw -/

section Loops

variable {S : Type u} {canvas : S → Canvas} {step : S → ℕ → Option S} {x y w h : ℕ}
  {shape : ℕ → ℕ → Bool}

/-- **A loop over the pixels of a row.** -/
theorem row_of_loop
    (hstep : ∀ s, ∀ j < w, ∃ t, step s j = some t ∧
      canvas t = (canvas s).draw (x + j) y 1 1 fun _ _ => shape j 0) (s : S) :
    ∃ t, (List.range w).foldlM step s = some t ∧
      canvas t = (canvas s).draw x y w 1 shape := by
  induction w with
  | zero => exact ⟨s, rfl, Canvas.draw_of_width_zero.symm⟩
  | succ w ih =>
      obtain ⟨t, hloop, ht⟩ := ih fun s j hj => hstep s j (Nat.lt_succ_of_lt hj)
      obtain ⟨t', hlast, ht'⟩ := hstep t w (Nat.lt_succ_self w)
      refine ⟨t', ?_, ?_⟩
      · rw [List.range_succ, List.foldlM_append, hloop]
        simp [hlast]
      · rw [ht', ht, Canvas.draw_row_succ]

/-- **A loop over the rows of a rectangle.** -/
theorem rectangle_of_loop
    (hstep : ∀ s, ∀ i < h, ∃ t, step s i = some t ∧
      canvas t = (canvas s).draw x (y + i) w 1 fun j _ => shape j i) (s : S) :
    ∃ t, (List.range h).foldlM step s = some t ∧
      canvas t = (canvas s).draw x y w h shape := by
  induction h with
  | zero => exact ⟨s, rfl, Canvas.draw_of_height_zero.symm⟩
  | succ h ih =>
      obtain ⟨t, hloop, ht⟩ := ih fun s i hi => hstep s i (Nat.lt_succ_of_lt hi)
      obtain ⟨t', hlast, ht'⟩ := hstep t h (Nat.lt_succ_self h)
      refine ⟨t', ?_, ?_⟩
      · rw [List.range_succ, List.foldlM_append, hloop]
        simp [hlast]
      · rw [ht', ht, Canvas.draw_succ]

end Loops

/-! ## Pages -/

/-- The bytes of a picture, page by page. -/
structure Screen (width pages : ℕ) where
  bytes : Vector UInt8 (width * pages)
deriving DecidableEq

/-- A byte with one bit. -/
def mask (k : ℕ) : UInt8 := .ofNat (1 <<< k)

/-- A byte with one bit set or cleared. -/
def put (b : UInt8) (k : ℕ) (lit : Bool) : UInt8 := if lit then b ||| mask k else b &&& ~~~mask k

/-- Whether a bit is set. -/
def bit (b : UInt8) (k : ℕ) : Bool := b.toBitVec.getLsbD k

theorem bit_put (b : UInt8) {k l : ℕ} (hl : l < 8) (lit : Bool) :
    bit (put b k lit) l = if l = k then lit else bit b l := by
  have hmask : (mask k).toBitVec.getLsbD l = decide (l = k) := by
    rw [mask, UInt8.toBitVec_ofNat', BitVec.getLsbD_ofNat, Nat.one_shiftLeft, Nat.testBit_two_pow]
    simp [hl, eq_comm]
  cases lit with
  | true =>
      rw [put, if_pos rfl, bit, UInt8.toBitVec_or, BitVec.getLsbD_or, hmask]
      by_cases h : l = k <;> simp [h, bit]
  | false =>
      rw [put, if_neg Bool.false_ne_true, bit, UInt8.toBitVec_and, BitVec.getLsbD_and,
        UInt8.toBitVec_not, BitVec.getLsbD_not, hmask]
      by_cases h : l = k <;> simp [h, hl, bit]

namespace Screen

variable {width pages : ℕ} (s : Screen width pages)

/-- Change a byte; `none` outside of the array. -/
def modify (i : ℕ) (f : UInt8 → UInt8) : Option (Screen width pages) :=
  if h : i < width * pages then some ⟨s.bytes.set i (f s.bytes[i])⟩ else none

/-- The picture. -/
def canvas : Canvas := fun x y =>
  if x < width then (s.bytes[x + y / 8 * width]?).elim false fun b => bit b (y % 8) else false

theorem canvas_apply (x y : ℕ) : s.canvas x y =
    if x < width then (s.bytes[x + y / 8 * width]?).elim false fun b => bit b (y % 8)
    else false := rfl

/-- Light a pixel, or put it out. -/
def setPixel (x y : ℕ) (lit : Bool) : Option (Screen width pages) :=
  s.modify (x + y / 8 * width) fun b => put b (y % 8) lit

/-- A pixel of the picture stands in the array. -/
theorem index_lt {x y : ℕ} (hx : x < width) (hy : y < 8 * pages) :
    x + y / 8 * width < width * pages := by
  have hpage : (y / 8 + 1) * width ≤ pages * width := Nat.mul_le_mul_right width (by omega)
  rw [Nat.add_mul, Nat.one_mul, Nat.mul_comm pages] at hpage
  omega

/-- A byte belongs to one column of one page. -/
theorem index_inj {x y x' y' : ℕ} (hx : x < width) (hx' : x' < width) :
    x' + y' / 8 * width = x + y / 8 * width ↔ x' = x ∧ y' / 8 = y / 8 := by
  refine ⟨fun h => ?_, fun h => by rw [h.1, h.2]⟩
  have hcolumn := congrArg (· % width) h
  simp only [Nat.add_mul_mod_self_right, Nat.mod_eq_of_lt hx, Nat.mod_eq_of_lt hx'] at hcolumn
  rw [hcolumn] at h
  exact ⟨hcolumn, Nat.eq_of_mul_eq_mul_right (by omega) (Nat.add_left_cancel h)⟩

/-- **To set a bit is to draw a pixel.** -/
theorem exists_setPixel {x y : ℕ} (hx : x < width) (hy : y < 8 * pages) (lit : Bool) :
    ∃ t, s.setPixel x y lit = some t ∧ t.canvas = s.canvas.draw x y 1 1 fun _ _ => lit := by
  have hindex := index_lt hx hy
  refine ⟨_, dif_pos hindex, ?_⟩
  funext x' y'
  rw [Canvas.draw_apply, canvas_apply, canvas_apply]
  by_cases hx' : x' < width
  · by_cases hsame : x' = x ∧ y' / 8 = y / 8
    · -- the byte that is changed
      have heq := (@index_inj width x y x' y' hx hx').mpr hsame
      rw [if_pos hx', heq, if_pos hx', Vector.getElem?_set_self hindex,
        Vector.getElem?_eq_getElem hindex, Option.elim_some, Option.elim_some,
        bit_put _ (Nat.mod_lt _ (by decide))]
      by_cases hbit : y' % 8 = y % 8
      · rw [if_pos hbit, if_pos (by omega)]
      · rw [if_neg hbit, if_neg (by omega)]
    · have hne := mt (@index_inj width x y x' y' hx hx').mp hsame
      rw [if_pos hx', if_pos hx', Vector.getElem?_set_ne hindex (Ne.symm hne), if_neg (by omega)]
  · rw [if_neg hx', if_neg hx', if_neg (by omega)]

end Screen

end Raster
