import Mathlib.Data.List.Basic
import Mathlib.Data.List.Induction
import Mathlib.Logic.Function.Iterate

/-!
# Runs of a labelled transition relation

A system is given by a relation `step s l t` (the label `l` takes `s` to `t`).
`Run` closes it under composition, one label at a time and **appended at the
end**, so that an induction over a run hands the proof the state before the last
step together with that step.  Three things are derived once and used by every
machine of the development:

* `Run.invariant`: what holds at the start and is kept by each step holds at the
  end;
* `Guarded`: the same system restricted to steps that meet a condition on the
  state before them, so that "in every run whose steps all meet `G`" is a run of
  `Guarded G step`;
* `execRun`: a deterministic partial step function run over a list of labels,
  which is how concrete runs are evaluated.

A program that runs alone is a function `next` on states.  `exists_final` is the rule
for its end: a measure that gets smaller as long as the end is not reached.  `Leads` is
what the comparison with another form of the program is stated in.
-/

namespace LTS

universe u v

variable {S : Type u} {L : Type v}

/-- `Run step s ls t`: the labels `ls`, taken in order, lead from `s` to `t`. -/
inductive Run (step : S → L → S → Prop) (s : S) : List L → S → Prop
  | nil : Run step s [] s
  | snoc {ls : List L} {t w : S} {l : L} :
      Run step s ls t → step t l w → Run step s (ls ++ [l]) w

/-- The state `t` is reached from `s` by some run. -/
def Reachable (step : S → L → S → Prop) (s t : S) : Prop :=
  ∃ ls, Run step s ls t

/-- The steps of `step` that meet `guard` in the state before them. -/
def Guarded (guard : S → L → Prop) (step : S → L → S → Prop) (s : S) (l : L)
    (t : S) : Prop :=
  guard s l ∧ step s l t

/-- The relation of a deterministic partial step function. -/
def stepOf (f : S → L → Option S) (s : S) (l : L) (t : S) : Prop :=
  f s l = some t

/-- Run a partial step function over a list of labels. -/
def execRun (f : S → L → Option S) : S → List L → Option S
  | s, [] => some s
  | s, l :: ls => (f s l).bind fun t => execRun f t ls

namespace Run

variable {step : S → L → S → Prop} {s t w : S} {ls ls' : List L} {l : L}

theorem single (h : step s l t) : Run step s [l] t :=
  Run.snoc Run.nil h

/-- **The invariant rule.** -/
theorem invariant {Inv : S → Prop} (hrun : Run step s ls t) (hinit : Inv s)
    (hstep : ∀ t l w, Inv t → step t l w → Inv w) : Inv t := by
  induction hrun with
  | nil => exact hinit
  | snoc _ hlast ih => exact hstep _ _ _ ih hlast

theorem append (hfirst : Run step s ls t) (hsecond : Run step t ls' w) :
    Run step s (ls ++ ls') w := by
  induction hsecond with
  | nil => simpa using hfirst
  | snoc _ hlast ih => simpa using Run.snoc ih hlast

theorem mono {step' : S → L → S → Prop} (hle : ∀ s l t, step s l t → step' s l t)
    (hrun : Run step s ls t) : Run step' s ls t := by
  induction hrun with
  | nil => exact Run.nil
  | snoc _ hlast ih => exact Run.snoc ih (hle _ _ _ hlast)

/-- One more step of a deterministic partial step function. -/
theorem exec {f : S → L → Option S} (hrun : Run (stepOf f) s ls t) (h : f t l = some w) :
    Run (stepOf f) s (ls ++ [l]) w :=
  hrun.snoc h

/-- The last step of a run. -/
theorem unsnoc (hrun : Run step s (ls ++ [l]) w) : ∃ t, Run step s ls t ∧ step t l w := by
  generalize hall : ls ++ [l] = all at hrun
  cases hrun with
  | nil => exact absurd hall (by simp)
  | snoc hpre hlast =>
      obtain ⟨rfl, hl⟩ := List.append_inj' hall rfl
      obtain rfl := List.singleton_inj.mp hl
      exact ⟨_, hpre, hlast⟩

/-- A run without labels stays where it is. -/
theorem eq_of_nil (hrun : Run step s [] w) : w = s := by
  generalize hempty : ([] : List L) = empty at hrun
  cases hrun with
  | nil => rfl
  | snoc _ _ => exact absurd hempty (by simp)

/-- A run over `ls ++ ls'` passes through a state reached by `ls`. -/
theorem split (ls ls' : List L) (hrun : Run step s (ls ++ ls') w) :
    ∃ t, Run step s ls t ∧ Run step t ls' w := by
  induction ls' using List.reverseRecOn generalizing w with
  | nil => exact ⟨w, by simpa using hrun, Run.nil⟩
  | append_singleton ls' l ih =>
      rw [← List.append_assoc] at hrun
      obtain ⟨m, hpre, hlast⟩ := hrun.unsnoc
      obtain ⟨t, ht, ht'⟩ := ih hpre
      exact ⟨t, ht, Run.snoc ht' hlast⟩

/-- The first step of a run. -/
theorem uncons (hrun : Run step s (l :: ls) w) : ∃ t, step s l t ∧ Run step t ls w := by
  obtain ⟨t, hfirst, hrest⟩ := split [l] ls hrun
  have hone : Run step s ([] ++ [l]) t := hfirst
  obtain ⟨m, hnone, hlast⟩ := hone.unsnoc
  obtain rfl := hnone.eq_of_nil
  exact ⟨t, hlast, hrest⟩

end Run

theorem Guarded.step {guard : S → L → Prop} {step : S → L → S → Prop} {s t : S}
    {l : L} (h : Guarded guard step s l t) : step s l t := h.2

/-- The step function that stops where the guard fails. -/
def guardedBy (guard : S → L → Prop) [∀ s, DecidablePred (guard s)] (f : S → L → Option S) (s : S)
    (l : L) : Option S :=
  if guard s l then f s l else none

theorem guarded_of_guardedBy {guard : S → L → Prop} [∀ s, DecidablePred (guard s)]
    {f : S → L → Option S} {s t : S} {l : L} (h : guardedBy guard f s l = some t) :
    Guarded guard (stepOf f) s l t := by
  rw [guardedBy] at h
  split at h
  · exact ⟨‹_›, h⟩
  · exact absurd h (by simp)

/-- A successful evaluation is a run. -/
theorem run_of_execRun {f : S → L → Option S} {ls : List L} {s t : S}
    (h : execRun f s ls = some t) : Run (stepOf f) s ls t := by
  induction ls generalizing s with
  | nil =>
      obtain rfl : s = t := by simpa [execRun] using h
      exact Run.nil
  | cons l ls ih =>
      rw [execRun, Option.bind_eq_some_iff] at h
      obtain ⟨m, hstep, hrest⟩ := h
      have hfirst : Run (stepOf f) s [l] m := Run.single hstep
      exact hfirst.append (ih hrest)

/-- The state an evaluation leads to, if it is successful. -/
theorem run_getD {f : S → L → Option S} {ls : List L} {s : S} (h : (execRun f s ls).isSome) :
    Run (stepOf f) s ls ((execRun f s ls).getD s) := by
  obtain ⟨t, ht⟩ := Option.isSome_iff_exists.mp h
  rw [ht, Option.getD_some]
  exact run_of_execRun ht

theorem run_getD_guardedBy {guard : S → L → Prop} [∀ s, DecidablePred (guard s)]
    {f : S → L → Option S} {ls : List L} {s : S}
    (h : (execRun (guardedBy guard f) s ls).isSome) :
    Run (Guarded guard (stepOf f)) s ls ((execRun (guardedBy guard f) s ls).getD s) :=
  (run_getD h).mono fun _ _ _ hstep => guarded_of_guardedBy hstep

/-- A successful evaluation that checks the guard is a run of guarded steps. -/
theorem run_of_execRun_guardedBy {guard : S → L → Prop} [∀ s, DecidablePred (guard s)]
    {f : S → L → Option S} {ls : List L} {s t : S}
    (h : execRun (guardedBy guard f) s ls = some t) : Run (Guarded guard (stepOf f)) s ls t :=
  (run_of_execRun h).mono fun _ _ _ hstep => guarded_of_guardedBy hstep

/-! ## A program that runs alone -/

section Alone

variable {next : S → S} {s t u : S}

/-- After some turns, the program is at `t`. -/
def Leads (next : S → S) (s t : S) : Prop := ∃ n, next^[n] s = t

theorem Leads.refl (s : S) : Leads next s s := ⟨0, rfl⟩

theorem Leads.head (h : Leads next (next s) t) : Leads next s t := by
  obtain ⟨n, hn⟩ := h
  exact ⟨n + 1, hn⟩

theorem Leads.trans (hfirst : Leads next s t) (hrest : Leads next t u) : Leads next s u := by
  obtain ⟨n, rfl⟩ := hfirst
  obtain ⟨m, rfl⟩ := hrest
  exact ⟨m + n, Function.iterate_add_apply _ _ _ _⟩

theorem Leads.invariant {Inv : S → Prop} (h : Leads next s t) (hinit : Inv s)
    (hinv : ∀ s, Inv s → Inv (next s)) : Inv t := by
  obtain ⟨n, rfl⟩ := h
  induction n generalizing s with
  | zero => exact hinit
  | succ n ih => exact ih (hinv s hinit)

/-- **The termination rule**: every turn that is not at the end makes the measure smaller. -/
theorem exists_final {Inv Final : S → Prop} (measure : S → ℕ) (hinit : Inv s)
    (hinv : ∀ s, Inv s → Inv (next s))
    (hless : ∀ s, Inv s → Final s ∨ measure (next s) < measure s) :
    ∃ n, Final (next^[n] s) := by
  induction hsize : measure s using Nat.strongRecOn generalizing s with
  | ind size ih =>
      rcases hless s hinit with hfinal | hsmaller
      · exact ⟨0, hfinal⟩
      · obtain ⟨n, hn⟩ := ih _ (hsize ▸ hsmaller) (hinv s hinit) rfl
        exact ⟨n + 1, hn⟩

/-- A state that the program does not leave is not left later either. -/
theorem iterate_of_le {n m : ℕ} (hle : n ≤ m) (hstay : next (next^[n] s) = next^[n] s) :
    next^[m] s = next^[n] s := by
  obtain ⟨k, rfl⟩ := Nat.exists_eq_add_of_le hle
  rw [Nat.add_comm, Function.iterate_add_apply]
  exact Function.iterate_fixed hstay k

end Alone

end LTS
