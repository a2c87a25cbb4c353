import Mathlib.Data.List.Basic

/-!
# Feeding a partial transducer

A machine takes one input at a time from a state, gives one output, and may **fail**:
`f s i = none` ends the run.  `feed f s is` is the list of outputs over the inputs `is`
together with the state they lead to.

`feed_append` cuts a run anywhere, `feed_replicate` is the rule for a stretch over which
the machine stays silent while its state follows the inputs.  `Along P` says that `P` holds
of every state that the inputs lead through, together with the inputs that are still to come.
-/

namespace Transducer

universe u v w

variable {S : Type u} {I : Type v} {O : Type w}

/-- Feed the inputs one by one; `none` as soon as one of them fails. -/
def feed (f : S → I → Option (O × S)) : S → List I → Option (List O × S)
  | s, [] => some ([], s)
  | s, i :: is => (f s i).bind fun r => (feed f r.2 is).map fun q => (r.1 :: q.1, q.2)

variable {f : S → I → Option (O × S)}

@[simp] theorem feed_nil (s : S) : feed f s [] = some ([], s) := rfl

theorem feed_cons (s : S) (i : I) (is : List I) :
    feed f s (i :: is) =
      (f s i).bind fun r => (feed f r.2 is).map fun q => (r.1 :: q.1, q.2) := rfl

theorem feed_cons_of_eq {s t : S} {i : I} {o : O} (h : f s i = some (o, t)) (is : List I) :
    feed f s (i :: is) = (feed f t is).map fun q => (o :: q.1, q.2) := by
  rw [feed_cons, h, Option.bind_some]

/-- **A run over `is ++ js` is the run over `is` followed by the run over `js`.** -/
theorem feed_append (s : S) (is js : List I) :
    feed f s (is ++ js) =
      (feed f s is).bind fun r => (feed f r.2 js).map fun q => (r.1 ++ q.1, q.2) := by
  induction is generalizing s with
  | nil => simp
  | cons i is ih =>
      rw [List.cons_append, feed_cons, feed_cons]
      cases f s i with
      | none => rfl
      | some r =>
          rw [Option.bind_some, ih, Option.bind_some]
          cases feed f r.2 is with
          | none => rfl
          | some q =>
              rw [Option.map_some, Option.bind_some, Option.bind_some]
              cases feed f q.2 js <;> rfl

theorem feed_append_of_eq {s t : S} {is : List I} {os : List O}
    (h : feed f s is = some (os, t)) (js : List I) :
    feed f s (is ++ js) = (feed f t js).map fun q => (os ++ q.1, q.2) := by
  rw [feed_append, h, Option.bind_some]

/-- If a whole run succeeds, so does each prefix, and its outputs are a prefix of the
outputs of the whole. -/
theorem feed_of_append {s t : S} {is js : List I} {os : List O}
    (h : feed f s (is ++ js) = some (os, t)) :
    ∃ os₁ u os₂, feed f s is = some (os₁, u) ∧ feed f u js = some (os₂, t) ∧
      os = os₁ ++ os₂ := by
  rw [feed_append, Option.bind_eq_some_iff] at h
  obtain ⟨⟨os₁, u⟩, hfirst, h⟩ := h
  rw [Option.map_eq_some_iff] at h
  obtain ⟨⟨os₂, t'⟩, hsecond, h⟩ := h
  obtain ⟨rfl, rfl⟩ : os₁ ++ os₂ = os ∧ t' = t := by simpa using h
  exact ⟨os₁, u, os₂, hfirst, hsecond, rfl⟩

/-- A machine gives one output for each input. -/
theorem length_outputs {s t : S} {is : List I} {os : List O}
    (h : feed f s is = some (os, t)) : os.length = is.length := by
  induction is generalizing s os with
  | nil =>
      obtain ⟨rfl, rfl⟩ : [] = os ∧ s = t := by simpa using h
      rfl
  | cons i is ih =>
      rw [feed_cons, Option.bind_eq_some_iff] at h
      obtain ⟨r, -, h⟩ := h
      rw [Option.map_eq_some_iff] at h
      obtain ⟨⟨os', t'⟩, hq, h⟩ := h
      obtain ⟨rfl, rfl⟩ : r.1 :: os' = os ∧ t' = t := by simpa using h
      simp [ih hq]

/-- **The silent stretch.**  If the state after the inputs `pre` is `at' pre`, and every
input of `is` moves it on with the output `o`, then the whole stretch does. -/
theorem feed_replicate (at' : List I → S) (o : O) (pre is : List I)
    (h : ∀ pre' i, pre' ++ [i] <+: pre ++ is → pre <+: pre' →
      f (at' pre') i = some (o, at' (pre' ++ [i]))) :
    feed f (at' pre) is = some (List.replicate is.length o, at' (pre ++ is)) := by
  induction is generalizing pre with
  | nil => simp
  | cons i is ih =>
      have hfirst := h pre i ⟨is, by simp⟩ (List.prefix_refl pre)
      have hrest := ih (pre ++ [i]) fun pre' j hpre hle =>
        h pre' j (by simpa using hpre) ((List.prefix_append pre [i]).trans hle)
      rw [feed_cons_of_eq hfirst, hrest, Option.map_some]
      simp [List.replicate_succ]

/-- `P` holds of every state on the way, with the inputs that are still to come. -/
def Along (f : S → I → Option (O × S)) (P : S → List I → Prop) : S → List I → Prop
  | s, [] => P s []
  | s, i :: is => P s (i :: is) ∧ ∀ o t, f s i = some (o, t) → Along f P t is

variable {P Q : S → List I → Prop} {s t : S} {is : List I}

theorem Along.here (h : Along f P s is) : P s is := by
  cases is with
  | nil => exact h
  | cons i is => exact h.1

theorem Along.next {i : I} {o : O} (h : Along f P s (i :: is)) (hstep : f s i = some (o, t)) :
    Along f P t is :=
  h.2 o t hstep

theorem Along.mono (h : Along f P s is) (hle : ∀ s is, P s is → Q s is) : Along f Q s is := by
  induction is generalizing s with
  | nil => exact hle s [] h
  | cons i is ih => exact ⟨hle s _ h.1, fun o t hstep => ih (h.2 o t hstep)⟩

/-- **What is on the way over `is ++ js`** is on the way over `is`, with `js` still to come,
or on the way over `js`. -/
theorem Along.append {js : List I} (his : Along f (fun t post => P t (post ++ js)) s is)
    (hjs : ∀ os t, feed f s is = some (os, t) → Along f P t js) : Along f P s (is ++ js) := by
  induction is generalizing s with
  | nil => exact hjs [] s rfl
  | cons i is ih =>
      refine ⟨his.1, fun o t hstep => ih (his.2 o t hstep) fun os u hfeed => hjs (o :: os) u ?_⟩
      rw [feed_cons_of_eq hstep, hfeed]
      rfl

/-- The inputs lead from `s` to `t`, and `P` holds on the way. -/
structure Passes (f : S → I → Option (O × S)) (P : S → List I → Prop) (s : S) (is : List I)
    (os : List O) (t : S) : Prop where
  feed : feed f s is = some (os, t)
  along : Along f P s is

theorem Passes.nil (h : P s []) : Passes f P s [] [] s := ⟨rfl, h⟩

theorem Passes.cons {i : I} {o : O} {os : List O} {u : S} (h : P s (i :: is))
    (hstep : f s i = some (o, t)) (hrest : Passes f P t is os u) :
    Passes f P s (i :: is) (o :: os) u := by
  refine ⟨?_, h, fun o' t' hstep' => ?_⟩
  · rw [feed_cons_of_eq hstep, hrest.feed]
    rfl
  · obtain ⟨-, rfl⟩ := Prod.mk.inj (Option.some.inj (hstep.symm.trans hstep'))
    exact hrest.along

theorem Passes.append {js : List I} {os os' : List O} {u : S}
    (his : Passes f (fun t post => P t (post ++ js)) s is os t) (hjs : Passes f P t js os' u) :
    Passes f P s (is ++ js) (os ++ os') u := by
  refine ⟨?_, his.along.append fun os'' t' hfeed => ?_⟩
  · rw [feed_append_of_eq his.feed, hjs.feed]
    rfl
  · obtain ⟨-, rfl⟩ := Prod.mk.inj (Option.some.inj (his.feed.symm.trans hfeed))
    exact hjs.along

theorem Passes.mono {os : List O} (h : Passes f P s is os t) (hle : ∀ s is, P s is → Q s is) :
    Passes f Q s is os t :=
  ⟨h.feed, h.along.mono hle⟩

/-- What is still to come is a suffix of the inputs. -/
theorem along_suffix (s : S) (is : List I) : Along f (fun _ post => post <:+ is) s is := by
  induction is generalizing s with
  | nil => exact List.suffix_refl []
  | cons i is ih =>
      refine ⟨List.suffix_refl _, fun o t _ => (ih t).mono fun _ post h => ?_⟩
      exact h.trans (List.suffix_cons i is)

theorem Along.and (hp : Along f P s is) (hq : Along f Q s is) :
    Along f (fun t post => P t post ∧ Q t post) s is := by
  induction is generalizing s with
  | nil => exact ⟨hp, hq⟩
  | cons i is ih => exact ⟨⟨hp.1, hq.1⟩, fun o t h => ih (hp.2 o t h) (hq.2 o t h)⟩

/-- On the way only a suffix of the inputs is still to come. -/
theorem Passes.suffix {os : List O} (h : Passes f P s is os t) :
    Passes f (fun u post => P u post ∧ post <:+ is) s is os t :=
  ⟨h.feed, h.along.and (along_suffix s is)⟩

/-- The first of the inputs. -/
theorem Passes.next {i : I} {os : List O} (h : Passes f P s (i :: is) os t) :
    ∃ o u os', f s i = some (o, u) ∧ os = o :: os' ∧ Passes f P u is os' t := by
  have hfeed := h.feed
  rw [feed_cons, Option.bind_eq_some_iff] at hfeed
  obtain ⟨⟨o, u⟩, hstep, hfeed⟩ := hfeed
  obtain ⟨⟨os', t'⟩, hrest, hfeed⟩ := Option.map_eq_some_iff.mp hfeed
  obtain ⟨rfl, rfl⟩ := Prod.mk.inj hfeed
  exact ⟨o, u, os', hstep, rfl, hrest, h.along.next hstep⟩

/-- `P` holds at the end, with nothing to come. -/
theorem Passes.last {os : List O} (h : Passes f P s is os t) : P t [] := by
  induction is generalizing s os with
  | nil =>
      obtain ⟨-, rfl⟩ := Prod.mk.inj (Option.some.inj h.feed)
      exact h.along
  | cons i is ih =>
      obtain ⟨o, u, os', -, -, hrest⟩ := h.next
      exact ih hrest

end Transducer
