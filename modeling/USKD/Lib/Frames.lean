import USKD.Lib.Feed

/-!
# Streams of frames

A machine that assembles frames takes the symbols of a frame in silence, reports the frame at its
last symbol, and is then where it began (`Assembles`).  `feed_frames`: over any front of a stream of
frames it reports the frames that are complete, in order and once each, and holds what it has got of
the next one (`Received`).

An input may carry more than its symbol; the machine has to assemble whatever that is.
-/

namespace Transducer

universe u v w x y

variable {S : Type u} {I : Type v} {B : Type w} {P : Type x} {R : Type y}
  {f : S → I → Option (Option R × S)} {symbol : I → B} {encode : P → List B} {hold : List B → S}
  {emit : P → R}

/-- **What has been received** of a stream of frames: `done` is complete, and `front` is what there
is of the next frame. -/
structure Received (encode : P → List B) (frames : List P) (received : List B) (done : List P)
    (front : List B) : Prop where
  symbols : received = done.flatMap encode ++ front
  begins : done <+: frames
  next : front ≠ [] → ∃ p, done ++ [p] <+: frames ∧ front <+: encode p ∧ front ≠ encode p

/-- **The machine assembles the frame** in the states `hold front`. -/
structure Assembles (f : S → I → Option (Option R × S)) (symbol : I → B) (encode : P → List B)
    (hold : List B → S) (emit : P → R) (p : P) : Prop where
  nonempty : encode p ≠ []
  silent : ∀ front i, front ++ [symbol i] <+: encode p → front ++ [symbol i] ≠ encode p →
    f (hold front) i = some (none, hold (front ++ [symbol i]))
  last : ∀ front i, front ++ [symbol i] = encode p → f (hold front) i = some (some (emit p), hold [])

variable {p : P} {frames : List P} {is : List I}

/-- As long as the frame is not complete, nothing is reported. -/
theorem Assembles.feed_front (h : Assembles f symbol encode hold emit p)
    (his : is.map symbol <+: encode p) (hne : is.map symbol ≠ encode p) :
    feed f (hold []) is = some (List.replicate is.length none, hold (is.map symbol)) := by
  refine feed_replicate (fun is => hold (is.map symbol)) none [] is fun pre i hpre _ => ?_
  have hmap : (pre ++ [i]).map symbol <+: is.map symbol := hpre.map symbol
  rw [List.map_append, List.map_singleton] at hmap ⊢
  refine h.silent (pre.map symbol) i (hmap.trans his) fun heq => hne ?_
  exact (his.eq_of_length_le (heq ▸ hmap.length_le)).trans rfl

/-- The whole frame is reported once, at its end. -/
theorem Assembles.feed_whole (h : Assembles f symbol encode hold emit p)
    (his : is.map symbol = encode p) :
    ∃ os, feed f (hold []) is = some (os, hold []) ∧ os.filterMap id = [emit p] := by
  rcases List.eq_nil_or_concat is with rfl | ⟨init, i, rfl⟩
  · exact absurd his.symm h.nonempty
  rw [List.concat_eq_append, List.map_append, List.map_singleton] at his
  have hshort : init.map symbol ≠ encode p := by
    rw [← his]
    exact fun heq => absurd (congrArg List.length heq) (by simp)
  have hinit := h.feed_front (his ▸ List.prefix_append _ _) hshort
  refine ⟨List.replicate init.length none ++ [some (emit p)], ?_, ?_⟩
  · rw [List.concat_eq_append, feed_append_of_eq hinit, feed_cons_of_eq (h.last _ i his)]
    rfl
  · rw [List.filterMap_append, List.filterMap_replicate_of_none rfl]
    rfl

/-- **A stream of frames**, as far as it has been received, whatever else the inputs carry. -/
theorem feed_frames (h : ∀ p ∈ frames, Assembles f symbol encode hold emit p)
    (his : is.map symbol <+: frames.flatMap encode) :
    ∃ os done front, feed f (hold []) is = some (os, hold front) ∧
      Received encode frames (is.map symbol) done front ∧ os.filterMap id = done.map emit := by
  induction frames generalizing is with
  | nil =>
      obtain rfl : is = [] := by simpa using his
      exact ⟨[], [], [], rfl, ⟨rfl, List.nil_prefix, fun hne => absurd rfl hne⟩, rfl⟩
  | cons p frames ih =>
      have hp := h p List.mem_cons_self
      rw [List.flatMap_cons] at his
      by_cases hopen : is.map symbol <+: encode p ∧ is.map symbol ≠ encode p
      · refine ⟨_, [], is.map symbol, hp.feed_front hopen.1 hopen.2, ?_, ?_⟩
        · exact ⟨rfl, List.nil_prefix, fun _ => ⟨p, ⟨frames, rfl⟩, hopen⟩⟩
        · exact List.filterMap_replicate_of_none rfl
      -- the first frame is complete
      · obtain ⟨more, hmore⟩ : encode p <+: is.map symbol := by
          rcases List.prefix_or_prefix_of_prefix his (List.prefix_append _ _) with hshort | hlong
          · have heq : is.map symbol = encode p := by
              by_contra hne
              exact hopen ⟨hshort, hne⟩
            exact heq ▸ List.prefix_refl _
          · exact hlong
        obtain ⟨is, js, rfl, hfirst, hrest⟩ := List.map_eq_append_iff.mp hmore.symm
        obtain ⟨os, hfeed, hos⟩ := hp.feed_whole hfirst
        rw [List.map_append, hfirst, List.prefix_append_right_inj] at his
        obtain ⟨os', done, front, hfeed', hreceived, hos'⟩ :=
          ih (fun q hq => h q (List.mem_cons_of_mem p hq)) his
        refine ⟨os ++ os', p :: done, front, ?_, ?_, ?_⟩
        · rw [feed_append_of_eq hfeed, hfeed']
          rfl
        · refine ⟨?_, List.cons_prefix_cons.mpr ⟨rfl, hreceived.begins⟩, fun hne => ?_⟩
          · rw [List.map_append, hfirst, hreceived.symbols, List.flatMap_cons, List.append_assoc]
          · obtain ⟨q, hq, hfront⟩ := hreceived.next hne
            exact ⟨q, List.cons_prefix_cons.mpr ⟨rfl, hq⟩, hfront⟩
        · rw [List.filterMap_append, hos, hos']
          rfl

end Transducer
