import Mathlib.Data.List.Basic
import Mathlib.Data.List.Induction

/-!
# Properties of a growing trace

A trace lists what a system did, the newest event last.  A property of the past is a
predicate `P pre e` on an event `e` and the events `pre` before it; `Each P` says that
every event of a trace has it.  The rule is `each_snoc`: only the event that is added has
to be looked at.

`Since P Q` says that an event of kind `Q` has followed every event of kind `P`; its rule is
`since_snoc`.
-/

namespace Trace

universe u

variable {E : Type u} {P Q : List E → E → Prop} {R S : E → Prop} {tr : List E} {e : E}

/-- Every event of the trace meets `P` against the events before it. -/
def Each (P : List E → E → Prop) (tr : List E) : Prop :=
  ∀ pre e post, tr = pre ++ e :: post → P pre e

/-- Since every event that meets `R`, one that meets `S` has happened. -/
def Since (R S : E → Prop) (tr : List E) : Prop :=
  ∀ old e since, tr = old ++ e :: since → R e → ∃ d ∈ since, S d

theorem each_nil : Each P [] := by
  intro pre e post h
  simp at h

/-- An event of a trace is the last one, or stands before it. -/
theorem snoc_eq_append_cons {pre post : List E} {d : E} (h : tr ++ [e] = pre ++ d :: post) :
    (post = [] ∧ pre = tr ∧ d = e) ∨ ∃ post', post = post' ++ [e] ∧ tr = pre ++ d :: post' := by
  rcases List.eq_nil_or_concat post with rfl | ⟨post', last, rfl⟩
  · obtain ⟨rfl, hlast⟩ := List.append_inj' h rfl
    exact .inl ⟨rfl, rfl, (List.singleton_inj.mp hlast).symm⟩
  · rw [List.concat_eq_append, ← List.cons_append, ← List.append_assoc] at h
    obtain ⟨htr, hlast⟩ := List.append_inj' h rfl
    obtain rfl := List.singleton_inj.mp hlast
    exact .inr ⟨post', List.concat_eq_append, htr⟩

/-- **One more event.** -/
theorem each_snoc : Each P (tr ++ [e]) ↔ Each P tr ∧ P tr e := by
  constructor
  · intro h
    exact ⟨fun pre d post htr => h pre d (post ++ [e]) (by simp [htr]), h tr e [] rfl⟩
  · rintro ⟨htr, he⟩ pre d post h
    rcases snoc_eq_append_cons h with ⟨-, rfl, rfl⟩ | ⟨post', -, hpre⟩
    · exact he
    · exact htr pre d post' hpre

theorem since_nil : Since R S [] := by
  intro old d since h
  simp at h

theorem since_of_not (h : ∀ e ∈ tr, ¬ R e) : Since R S tr := by
  intro old e since htr he
  refine absurd he (h e ?_)
  rw [htr]
  exact List.mem_append_right old List.mem_cons_self

/-- **One more event**, which does not ask for another one. -/
theorem since_snoc : Since R S (tr ++ [e]) ↔ ¬ R e ∧ (S e ∨ Since R S tr) := by
  constructor
  · intro h
    refine ⟨fun he => ?_, ?_⟩
    · obtain ⟨d, hd, -⟩ := h tr e [] rfl he
      exact absurd hd List.not_mem_nil
    · by_cases he : S e
      · exact .inl he
      · refine .inr fun old d since htr hd => ?_
        obtain ⟨x, hx, hSx⟩ := h old d (since ++ [e]) (by simp [htr]) hd
        rcases List.mem_append.mp hx with hold | hnew
        · exact ⟨x, hold, hSx⟩
        · rw [List.mem_singleton.mp hnew] at hSx
          exact absurd hSx he
  · rintro ⟨hR, h⟩ old d since htr hd
    rcases snoc_eq_append_cons htr with ⟨-, -, rfl⟩ | ⟨since', rfl, hold⟩
    · exact absurd hd hR
    · rcases h with he | hsince
      · exact ⟨e, by simp, he⟩
      · obtain ⟨x, hx, hSx⟩ := hsince old d since' hold hd
        exact ⟨x, List.mem_append_left _ hx, hSx⟩

/-- More events, none of which asks for another one. -/
theorem since_append {es : List E} (hes : ∀ e ∈ es, ¬ R e) :
    Since R S (tr ++ es) ↔ (∃ e ∈ es, S e) ∨ Since R S tr := by
  induction es using List.reverseRecOn with
  | nil => simp
  | append_singleton es e ih =>
      have he : ¬ R e := hes e (by simp)
      rw [← List.append_assoc, since_snoc, ih fun d hd => hes d (by simp [hd])]
      constructor
      · rintro ⟨-, hS | ⟨d, hd, hS⟩ | hsince⟩
        · exact .inl ⟨e, by simp, hS⟩
        · exact .inl ⟨d, by simp [hd], hS⟩
        · exact .inr hsince
      · rintro (⟨d, hd, hS⟩ | hsince)
        · rcases List.mem_append.mp hd with hold | hlast
          · exact ⟨he, .inr (.inl ⟨d, hold, hS⟩)⟩
          · exact ⟨he, .inl (List.mem_singleton.mp hlast ▸ hS)⟩
        · exact ⟨he, .inr (.inr hsince)⟩

/-- Events of one kind, whatever stands before each of them. -/
theorem Each.append {es : List E} (htr : Each P tr)
    (hes : ∀ pre, pre <+: es → ∀ e ∈ es, P (tr ++ pre) e) : Each P (tr ++ es) := by
  induction es using List.reverseRecOn with
  | nil => simpa using htr
  | append_singleton es e ih =>
      rw [← List.append_assoc, each_snoc]
      refine ⟨ih fun pre hpre d hd => hes pre ?_ d (by simp [hd]), ?_⟩
      · exact hpre.trans (List.prefix_append es [e])
      · exact hes es (List.prefix_append es [e]) e (by simp)

/-- A trace behind another one. -/
theorem Each.append_each {es : List E} (htr : Each P tr) (hes : Each Q es)
    (hle : ∀ pre e, Q pre e → P (tr ++ pre) e) : Each P (tr ++ es) := by
  induction es using List.reverseRecOn with
  | nil => simpa using htr
  | append_singleton es e ih =>
      obtain ⟨hpre, he⟩ := each_snoc.mp hes
      rw [← List.append_assoc, each_snoc]
      exact ⟨ih hpre, hle es e he⟩

theorem Each.mono (h : Each P tr) (hle : ∀ pre e, P pre e → Q pre e) : Each Q tr :=
  fun pre e post htr => hle pre e (h pre e post htr)

end Trace
