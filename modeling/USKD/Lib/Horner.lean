import Mathlib.Algebra.Group.Units.Basic
import Mathlib.Algebra.Ring.Basic
import Mathlib.Algebra.Ring.GeomSum
import Mathlib.Tactic.Ring

/-!
# Horner's scheme over a ring

Many checksums fold a list into a ring element by `h ↦ c x + k * h`: the list is read as the
coefficients of a polynomial, whose value at `k` is the checksum.  What the fold starts with
counts with the power of `k` that belongs to the length of the list (`horner_init`), so that
over a unit `k` nothing that is folded in later takes a difference away (`horner_left_inj`).

`horner_window` is the form in which checksums are compared: two lists that are the same but
for a window of one length have the same checksum exactly if the two windows have.
`horner_replicate_eq_iff` is for padding: whether a filler that is appended a number of times
leaves the checksum as it was.
-/

namespace Horner

universe u v

variable {R : Type u} {α : Type v} [CommRing R]

/-- The value at `k` of the polynomial with the coefficients `xs`, behind `init`. -/
def horner (k : R) (c : α → R) (init : R) (xs : List α) : R :=
  xs.foldl (fun h x => c x + k * h) init

variable {k : R} {c : α → R} {init init' : R}

@[simp] theorem horner_nil : horner k c init [] = init := rfl

@[simp] theorem horner_cons (x : α) (xs : List α) :
    horner k c init (x :: xs) = horner k c (c x + k * init) xs := rfl

theorem horner_append (xs ys : List α) :
    horner k c init (xs ++ ys) = horner k c (horner k c init xs) ys :=
  List.foldl_append

/-- **What the fold starts with** counts with a power of `k`. -/
theorem horner_init (xs : List α) :
    horner k c init xs = k ^ xs.length * init + horner k c 0 xs := by
  induction xs generalizing init with
  | nil => simp
  | cons x xs ih =>
      rw [horner_cons, horner_cons, ih, @ih (c x + k * 0), List.length_cons, pow_succ]
      ring

/-- Over a unit no tail hides a difference in front of it. -/
theorem horner_left_inj (hk : IsUnit k) (xs : List α) :
    horner k c init xs = horner k c init' xs ↔ init = init' := by
  rw [horner_init, @horner_init R α _ k c init', add_left_inj]
  exact (hk.pow xs.length).mul_right_inj

/-- **A window** between a common front and a common tail. -/
theorem horner_window (hk : IsUnit k) (front tail : List α) {us vs : List α}
    (hlen : us.length = vs.length) :
    horner k c init (front ++ us ++ tail) = horner k c init (front ++ vs ++ tail) ↔
      horner k c 0 us = horner k c 0 vs := by
  simp only [horner_append]
  rw [horner_left_inj hk, horner_init us, horner_init vs, hlen, add_right_inj]

/-! ## Padding -/

/-- **A symbol again and again** adds a multiple of what it adds for the first time. -/
theorem horner_replicate (n : ℕ) (x : α) :
    horner k c init (List.replicate n x) =
      init + (∑ i ∈ Finset.range n, k ^ i) * ((k - 1) * init + c x) := by
  induction n generalizing init with
  | zero => simp
  | succ n ih =>
      rw [List.replicate_succ, horner_cons, ih, geom_sum_succ]
      ring

/-- If it adds a unit for the first time, only a vanishing power sum takes it back. -/
theorem horner_replicate_eq_iff {n : ℕ} {x : α} (hunit : IsUnit ((k - 1) * init + c x)) :
    horner k c init (List.replicate n x) = init ↔ ∑ i ∈ Finset.range n, k ^ i = 0 := by
  rw [horner_replicate, add_eq_left, hunit.mul_left_eq_zero]

end Horner
