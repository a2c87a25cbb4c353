import Mathlib.Data.List.Basic
import Mathlib.Logic.Basic

/-!
# A heap of objects

Objects at addresses that are handed out once: an address is free from the beginning, holds
an object from its allocation on, and nothing from its release on.  What no allocation has
reached yet is a field, so that a fresh address never holds an object.

`All P` says that every object meets `P`; it is kept by every operation that brings in no other
ones.
-/

universe u

/-- The objects, and the next address. -/
structure Heap (α : Type u) where
  get : ℕ → Option α
  next : ℕ
  get_of_le : ∀ p, next ≤ p → get p = none

namespace Heap

variable {α : Type u}

def empty : Heap α := ⟨fun _ => none, 0, fun _ _ => rfl⟩

/-- `new`: the object at the next address. -/
def alloc (h : Heap α) (a : α) : Heap α where
  get p := if p = h.next then some a else h.get p
  next := h.next + 1
  get_of_le p hp := by
    rw [if_neg (Nat.ne_of_gt hp)]
    exact h.get_of_le p (Nat.le_of_succ_le hp)

/-- `delete`: `none` if there is no object. -/
def free (h : Heap α) (p : ℕ) : Option (Heap α) :=
  if (h.get p).isSome then
    some {
      get := fun q => if q = p then none else h.get q
      next := h.next
      get_of_le := fun q hq => by
        split
        · rfl
        · exact h.get_of_le q hq }
  else none

/-- Another value of the object at `p`, if there is one. -/
def write (h : Heap α) (p : ℕ) (a : α) : Heap α where
  get q := if q = p ∧ (h.get p).isSome then some a else h.get q
  next := h.next
  get_of_le q hq := by
    have hnone := h.get_of_le q hq
    rw [if_neg]
    · exact hnone
    · rintro ⟨rfl, hsome⟩
      rw [hnone] at hsome
      exact absurd hsome (by simp)

variable {h h' : Heap α} {p q : ℕ} {a b : α}

theorem get_alloc_next (h : Heap α) (a : α) : (h.alloc a).get h.next = some a :=
  if_pos rfl

theorem lt_next (hp : h.get p = some a) : p < h.next := by
  by_contra hge
  rw [h.get_of_le p (Nat.not_lt.mp hge)] at hp
  exact absurd hp (by simp)

/-- What is there is still there. -/
theorem get_alloc_of_some (hp : h.get p = some b) (a : α) : (h.alloc a).get p = some b := by
  show (if p = h.next then some a else h.get p) = some b
  rw [if_neg (Nat.ne_of_lt (lt_next hp)), hp]

theorem get_write_self (hp : h.get p = some b) (a : α) : (h.write p a).get p = some a :=
  if_pos ⟨rfl, by rw [hp]; rfl⟩

theorem get_write_of_ne (hq : q ≠ p) (a : α) : (h.write p a).get q = h.get q :=
  if_neg fun hand => hq hand.1

theorem get_alloc_write_of_ne (hq : q ≠ p) (a b : α) :
    ((h.write p a).alloc b).get q = (h.alloc b).get q := by
  show (if q = h.next then some b else (h.write p a).get q) = if q = h.next then some b else h.get q
  rw [get_write_of_ne hq]

theorem free_of_some (hp : h.get p = some a) : ∃ h', h.free p = some h' := by
  unfold free
  rw [hp]
  exact ⟨_, rfl⟩

theorem next_free (hfree : h.free p = some h') : h'.next = h.next := by
  rw [free] at hfree
  split at hfree
  · obtain rfl := Option.some.inj hfree
    rfl
  · exact absurd hfree (by simp)

/-- **Releasing one object** leaves the others alone. -/
theorem get_free_of_ne (hfree : h.free p = some h') (hq : q ≠ p) : h'.get q = h.get q := by
  rw [free] at hfree
  split at hfree
  · obtain rfl := Option.some.inj hfree
    exact if_neg hq
  · exact absurd hfree (by simp)

/-- `delete`, for a list of objects. -/
def freeAll : List ℕ → Heap α → Option (Heap α)
  | [], h => some h
  | p :: ps, h => (h.free p).bind (freeAll ps)

/-- **Objects that are there, and different, can be released.** -/
theorem freeAll_of_nodup {ps : List ℕ} (hnodup : ps.Nodup) (halive : ∀ p ∈ ps, (h.get p).isSome) :
    ∃ h', freeAll ps h = some h' ∧ h'.next = h.next := by
  induction ps generalizing h with
  | nil => exact ⟨h, rfl, rfl⟩
  | cons p ps ih =>
      obtain ⟨hnot, hrest⟩ := List.nodup_cons.mp hnodup
      obtain ⟨a, ha⟩ := Option.isSome_iff_exists.mp (halive p List.mem_cons_self)
      obtain ⟨h₁, hfree⟩ := free_of_some ha
      have halive₁ : ∀ q ∈ ps, (h₁.get q).isSome := by
        intro q hq
        rw [get_free_of_ne hfree fun hqp => hnot (hqp ▸ hq)]
        exact halive q (List.mem_cons_of_mem p hq)
      obtain ⟨h', hall, hnext⟩ := ih hrest halive₁
      refine ⟨h', ?_, hnext.trans (next_free hfree)⟩
      rw [freeAll, hfree]
      exact hall

/-! ## What holds of all objects -/

/-- Every object meets `P`. -/
def All (P : α → Prop) (h : Heap α) : Prop := ∀ p a, h.get p = some a → P a

variable {P : α → Prop}

theorem all_empty : All P (empty : Heap α) := by
  intro p a hp
  exact absurd hp (by simp [empty])

theorem All.alloc (hall : All P h) (ha : P a) : All P (h.alloc a) := by
  intro q b hq
  change (if q = h.next then some a else h.get q) = some b at hq
  split at hq
  · obtain rfl := Option.some.inj hq
    exact ha
  · exact hall q b hq

theorem All.write (hall : All P h) (ha : P a) (p : ℕ) : All P (h.write p a) := by
  intro q b hq
  change (if q = p ∧ (h.get p).isSome then some a else h.get q) = some b at hq
  split at hq
  · obtain rfl := Option.some.inj hq
    exact ha
  · exact hall q b hq

theorem All.free (hall : All P h) (hfree : h.free p = some h') : All P h' := by
  intro q b hq
  by_cases hqp : q = p
  · rw [Heap.free] at hfree
    split at hfree
    · obtain rfl := Option.some.inj hfree
      exact absurd hq (by simp [hqp])
    · exact absurd hfree (by simp)
  · rw [get_free_of_ne hfree hqp] at hq
    exact hall q b hq

theorem All.freeAll {ps : List ℕ} (hall : All P h) (hfree : freeAll ps h = some h') :
    All P h' := by
  induction ps generalizing h with
  | nil =>
      obtain rfl := Option.some.inj hfree
      exact hall
  | cons p ps ih =>
      obtain ⟨h₁, hfirst, hrest⟩ := Option.bind_eq_some_iff.mp hfree
      exact ih (hall.free hfirst) hrest

end Heap
