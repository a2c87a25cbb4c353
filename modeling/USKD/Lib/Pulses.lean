import Mathlib.Data.List.Basic

/-!
# Pulses on a sampled line

A driver that reads bits by their length samples a line and counts for how long it keeps a level.
A count ends with the first sample of the other level, which the next count does not see: a pulse is
measured from its second sample on.

`line i` is the level in the sample `i`; the samples before `pos` have been taken.  `Carries` says
what the line brings, `count_low` and `count_high` what is counted there.
-/

namespace Pulses

/-- Take samples as long as the line has the level, `room` of them and one more at most: how many
have had it, and the next sample. -/
def count (line : ℕ → Bool) (level : Bool) : ℕ → ℕ → ℕ × ℕ
  | 0, pos => (0, pos + 1)
  | room + 1, pos =>
      if line pos = level then
        ((count line level room (pos + 1)).1 + 1, (count line level room (pos + 1)).2)
      else (0, pos + 1)

/-- Take samples until the line has left the level; `none` if `room` of them have had it. -/
def wait (line : ℕ → Bool) (level : Bool) : ℕ → ℕ → Option ℕ
  | 0, _ => none
  | room + 1, pos => if line pos = level then wait line level room (pos + 1) else some (pos + 1)

/-- The next `n` samples have the level. -/
def Keeps (line : ℕ → Bool) (level : Bool) (pos n : ℕ) : Prop := ∀ k < n, line (pos + k) = level

/-- How many samples the line is low, and then high. -/
structure Pulse where
  low : ℕ
  high : ℕ

/-- **The line brings the pulses**, and is low behind the last one. -/
def Carries (line : ℕ → Bool) : ℕ → List Pulse → Prop
  | pos, [] => line pos = false
  | pos, p :: ps =>
      Keeps line false pos p.low ∧ Keeps line true (pos + p.low) p.high ∧
        Carries line (pos + p.low + p.high) ps

/-- The pulse is long enough to be seen, and not longer than what can be counted. -/
structure Pulse.Counted (room : ℕ) (p : Pulse) : Prop where
  low_pos : 0 < p.low
  high_pos : 0 < p.high
  low_le : p.low ≤ room + 1
  high_le : p.high ≤ room + 1

variable {line : ℕ → Bool} {level : Bool} {room pos n : ℕ} {p : Pulse} {ps : List Pulse}

theorem Keeps.tail (h : Keeps line level pos (n + 1)) : Keeps line level (pos + 1) n := fun k hk => by
  have hnext := h (k + 1) (by omega)
  rwa [show pos + (k + 1) = pos + 1 + k by omega] at hnext

theorem Keeps.head (h : Keeps line level pos (n + 1)) : line pos = level := h 0 (Nat.succ_pos n)

/-- Behind its first sample a pulse has one less. -/
theorem Keeps.second (h : Keeps line level pos n) : Keeps line level (pos + 1) (n - 1) := by
  cases n with
  | zero => exact fun k hk => absurd hk (Nat.not_lt_zero k)
  | succ n => exact h.tail

/-- **A level that is kept is counted.** -/
theorem count_of_keeps (hkeeps : Keeps line level pos n) (hend : line (pos + n) ≠ level)
    (hroom : n ≤ room) : count line level room pos = (n, pos + n + 1) := by
  induction n generalizing room pos with
  | zero =>
      cases room with
      | zero => rfl
      | succ room => exact if_neg hend
  | succ n ih =>
      obtain ⟨room, rfl⟩ : ∃ r, room = r + 1 := ⟨room - 1, by omega⟩
      have hrest := ih hkeeps.tail
        (by rwa [show pos + 1 + n = pos + (n + 1) by omega]) (Nat.le_of_succ_le_succ hroom)
      rw [count, if_pos hkeeps.head, hrest, show pos + 1 + n = pos + (n + 1) by omega]

/-- **A wait ends with the level**, if it is kept for less than the wait. -/
theorem wait_of_keeps (hkeeps : Keeps line level pos n) (hend : line (pos + n) ≠ level)
    (hroom : n < room) : wait line level room pos = some (pos + n + 1) := by
  induction n generalizing room pos with
  | zero =>
      obtain ⟨room, rfl⟩ : ∃ r, room = r + 1 := ⟨room - 1, by omega⟩
      exact if_neg hend
  | succ n ih =>
      obtain ⟨room, rfl⟩ : ∃ r, room = r + 1 := ⟨room - 1, by omega⟩
      have hrest := ih hkeeps.tail
        (by rwa [show pos + 1 + n = pos + (n + 1) by omega]) (Nat.lt_of_succ_lt_succ hroom)
      rw [wait, if_pos hkeeps.head, hrest, show pos + 1 + n = pos + (n + 1) by omega]

/-- A pulse begins low. -/
theorem Carries.low (h : Carries line pos ps) (hps : ∀ p ∈ ps, p.Counted room) :
    line pos = false := by
  cases ps with
  | nil => exact h
  | cons p ps => exact h.1 0 (hps p List.mem_cons_self).low_pos

/-- The low part of a pulse, from its second sample on. -/
theorem count_low (h : Carries line pos (p :: ps)) (hp : p.Counted room) :
    count line false room (pos + 1) = (p.low - 1, pos + p.low + 1) := by
  have hlow := hp.low_pos
  have hle := hp.low_le
  have hend : line (pos + p.low) = true := h.2.1 0 hp.high_pos
  have hsum : pos + 1 + (p.low - 1) = pos + p.low := by omega
  rw [count_of_keeps h.1.second (by rw [hsum, hend]; decide) (by omega), hsum]

/-- The high part of a pulse, from its second sample on. -/
theorem count_high (h : Carries line pos (p :: ps)) (hps : ∀ q ∈ p :: ps, q.Counted room) :
    count line true room (pos + p.low + 1) = (p.high - 1, pos + p.low + p.high + 1) := by
  have hp := hps p List.mem_cons_self
  have hhigh := hp.high_pos
  have hle := hp.high_le
  have hend : line (pos + p.low + p.high) = false :=
    h.2.2.low fun q hq => hps q (List.mem_cons_of_mem p hq)
  have hsum : pos + p.low + 1 + (p.high - 1) = pos + p.low + p.high := by omega
  rw [count_of_keeps h.2.1.second (by rw [hsum, hend]; decide) (by omega), hsum]

end Pulses
