import Mathlib.Data.List.Infix

/-!
# Working through a script

A party says the words of a script one after the other, with other words in between, and may begin
again at any moment: with the first word, which stands nowhere else in the script.  `said` is what
it has said of the script since it last began, and `Reached n` says that these are the first `n`
words.

The rules say what one more word does: `reached_first` for the first one, `Reached.next` for the one
whose turn it is, `Reached.other` for a word of another kind.  A party that speaks by these rules
alone has always said a front of the script (`Reached.front`).
-/

universe u

/-- **A script.**  The word it begins with does not come again. -/
structure Script (W : Type u) where
  first : W
  rest : List W
  fresh : first ∉ rest

namespace Script

variable {W : Type u} (s : Script W)

/-- All the words. -/
def words : List W := s.first :: s.rest

variable [DecidableEq W]

/-- One more word. -/
def hear (said : List W) (w : W) : List W :=
  if w = s.first then [w] else if w ∈ s.rest then said ++ [w] else said

/-- **What has been said** of the script since it was last begun. -/
def said (ws : List W) : List W := ws.foldl s.hear []

/-- The first `n` words have been said. -/
def Reached (ws : List W) (n : ℕ) : Prop := s.said ws = s.words.take n

variable {s} {ws : List W} {w : W} {n : ℕ}

theorem said_concat (ws : List W) (w : W) : s.said (ws ++ [w]) = s.hear (s.said ws) w := by
  rw [said, List.foldl_append]
  rfl

theorem reached_nil : s.Reached [] 0 := rfl

/-- **The script is begun**, whatever has been said before. -/
theorem reached_first (ws : List W) : s.Reached (ws ++ [s.first]) 1 := by
  rw [Reached, said_concat, hear, if_pos rfl]
  rfl

/-- **The word whose turn it is.** -/
theorem Reached.next (h : s.Reached ws n) (hbegun : n ≠ 0) (hw : s.words[n]? = some w) :
    s.Reached (ws ++ [w]) (n + 1) := by
  have hrest : w ∈ s.rest := by
    obtain ⟨m, rfl⟩ := Nat.exists_eq_succ_of_ne_zero hbegun
    exact List.mem_of_getElem? hw
  have hne : w ≠ s.first := fun heq => s.fresh (heq ▸ hrest)
  rw [Reached, said_concat, h, hear, if_neg hne, if_pos hrest, List.take_add_one, hw]
  rfl

/-- A word of another kind. -/
theorem Reached.other (h : s.Reached ws n) (hw : w ∉ s.words) : s.Reached (ws ++ [w]) n := by
  have hfirst : w ≠ s.first := fun heq => hw (heq ▸ List.mem_cons_self)
  have hrest : w ∉ s.rest := fun hmem => hw (List.mem_cons_of_mem _ hmem)
  rw [Reached, said_concat, hear, if_neg hfirst, if_neg hrest]
  exact h

theorem Reached.others {ws' : List W} (h : s.Reached ws n) (hws : ∀ w ∈ ws', w ∉ s.words) :
    s.Reached (ws ++ ws') n := by
  induction ws' generalizing ws with
  | nil => rwa [List.append_nil]
  | cons w ws' ih =>
      rw [List.append_cons]
      exact ih (h.other (hws w List.mem_cons_self)) fun v hv => hws v (List.mem_cons_of_mem _ hv)

/-- **A front of the script** has been said. -/
theorem Reached.front (h : s.Reached ws n) : s.said ws <+: s.words := by
  rw [Reached] at h
  rw [h]
  exact List.take_prefix n s.words

/-- The whole script has been said. -/
theorem Reached.whole (h : s.Reached ws n) (hn : s.words.length ≤ n) : s.said ws = s.words := by
  rw [Reached, List.take_of_length_le hn] at h
  exact h

end Script
