import Mathlib.Data.List.Basic

/-!
# Looking for a key in a JSON text

A program that does not parse a JSON text looks for a key with `strstr`: for the letters of the key,
the quote behind them and the colon.  What it finds is the key, for in a text of JSON a quote with a
colon behind it ends a key, or stands in a string and has a backslash in front.

* `find` is `strstr`, and `Absent sub x` says that no occurrence of `sub` begins in `x`, whatever
  follows.  It is a fact about pieces of a text: it goes from the pieces to their concatenation
  (`Absent.append`) and to every end of a piece (`Absent.suffix`).
* `Leads` is the opposite: an occurrence begins in the piece.
* The pieces of a compact JSON text are keys, strings, and lists with commas (`absent_key`,
  `absent_str`, `absent_listed`).
-/

namespace KeySearch

section Search

variable {α : Type*} {sub x x' text : List α} {a : α} {found : List α → Prop}

/-- **No occurrence begins in the piece**, whatever follows. -/
def Absent (sub x : List α) : Prop := ∀ s y, s <:+ x → s ≠ [] → ¬ sub <+: s ++ y

theorem Absent.nil : Absent sub [] := fun _ _ hs hne => absurd (List.suffix_nil.mp hs) hne

theorem Absent.suffix (h : Absent sub x) (hs : x' <:+ x) : Absent sub x' :=
  fun s y hs' => h s y (hs'.trans hs)

/-- An end of a concatenation begins in the second part or in the first. -/
theorem suffix_append_cases {s x x' : List α} (h : s <:+ x ++ x') :
    s <:+ x' ∨ ∃ t, t <:+ x ∧ t ≠ [] ∧ s = t ++ x' := by
  obtain ⟨front, hfront⟩ := h
  rcases List.append_eq_append_iff.mp hfront with ⟨t, hx, hs⟩ | ⟨t, -, hx'⟩
  · by_cases ht : t = []
    · left
      rw [hs, ht]
      exact List.suffix_rfl
    · exact .inr ⟨t, ⟨front, hx.symm⟩, ht, hs⟩
  · exact .inl ⟨t, hx'.symm⟩

theorem Absent.append (h : Absent sub x) (h' : Absent sub x') : Absent sub (x ++ x') := by
  intro s y hs hne
  rcases suffix_append_cases hs with hs' | ⟨t, ht, hne', rfl⟩
  · exact h' s y hs' hne
  · rw [List.append_assoc]
    exact h t (x' ++ y) ht hne'

theorem Absent.flatMap {β : Type*} {l : List β} {piece : β → List α}
    (h : ∀ b ∈ l, Absent sub (piece b)) : Absent sub (l.flatMap piece) := by
  induction l with
  | nil => exact Absent.nil
  | cons b l ih =>
      rw [List.flatMap_cons]
      exact (h b List.mem_cons_self).append (ih fun c hc => h c (List.mem_cons_of_mem b hc))

/-- A piece without the first letter. -/
theorem absent_of_head (hsub : sub.head? = some a) (h : a ∉ x) : Absent sub x := by
  intro s y hs hne hprefix
  obtain ⟨c, s, rfl⟩ := List.exists_cons_of_ne_nil hne
  obtain ⟨b, sub, rfl⟩ := List.exists_cons_of_ne_nil (show sub ≠ [] by rintro rfl; simp at hsub)
  obtain ⟨rfl, -⟩ := List.cons_prefix_cons.mp hprefix
  obtain rfl := Option.some.inj hsub
  exact h (hs.subset List.mem_cons_self)

variable [DecidableEq α]

/-- `strstr`: the text from the first occurrence on. -/
def find (sub : List α) : List α → Option (List α)
  | [] => if sub = [] then some [] else none
  | c :: rest => if sub <+: c :: rest then some (c :: rest) else find sub rest

/-- **An occurrence begins in the piece**, and the text from there on is as wanted. -/
def Leads (sub : List α) (found : List α → Prop) (x : List α) : Prop :=
  ∀ y, ∃ entry, find sub (x ++ y) = some entry ∧ found entry

theorem find_of_prefix (h : sub <+: text) : find sub text = some text := by
  cases text with
  | nil => rw [find, if_pos (List.prefix_nil.mp h)]
  | cons c rest => rw [find, if_pos h]

/-- The search goes on behind the piece. -/
theorem Absent.find (h : Absent sub x) (y : List α) :
    KeySearch.find sub (x ++ y) = KeySearch.find sub y := by
  induction x with
  | nil => rfl
  | cons c x ih =>
      have hrest : Absent sub x := h.suffix (List.suffix_cons c x)
      rw [List.cons_append, KeySearch.find, ← List.cons_append,
        if_neg (h (c :: x) y List.suffix_rfl (List.cons_ne_nil c x)), ih hrest]

theorem Leads.append (h : Leads sub found x) (x' : List α) : Leads sub found (x ++ x') := by
  intro y
  rw [List.append_assoc]
  exact h (x' ++ y)

theorem Absent.leads (h : Absent sub x) (h' : Leads sub found x') :
    Leads sub found (x ++ x') := by
  intro y
  rw [List.append_assoc, h.find]
  exact h' y

end Search

/-! ## The pieces of a JSON text -/

/-- `"` -/
def quote : UInt8 := 0x22

/-- `:` -/
def colon : UInt8 := 0x3A

/-- `,` -/
def comma : UInt8 := 0x2C

/-- `\` -/
def backslash : UInt8 := 0x5C

/-- The letters of a key need no escapes. -/
structure Plain (w : List UInt8) : Prop where
  ne_nil : w ≠ []
  quote_not_mem : quote ∉ w
  colon_not_mem : colon ∉ w
  backslash_not_mem : backslash ∉ w

/-- What is looked for. -/
def needle (w : List UInt8) : List UInt8 := w ++ [quote, colon]

/-- A key in a text. -/
def key (w : List UInt8) : List UInt8 := quote :: needle w

/-- What is written between the quotes of a string: a quote in it has a backslash in front. -/
structure Str where
  bytes : List UInt8
  escaped : ∀ front rest, bytes = front ++ quote :: rest → front.getLast? = some backslash

/-- A string without quotes. -/
def Str.ofPlain (bytes : List UInt8) (h : quote ∉ bytes) : Str where
  bytes := bytes
  escaped front rest heq := absurd (by rw [heq]; simp) h

/-- A string in a text. -/
def Str.text (s : Str) : List UInt8 := quote :: (s.bytes ++ [quote])

/-- The elements of a list, with commas between them and `close` behind the last one. -/
def listed (close : UInt8) : List (List UInt8) → List UInt8
  | [] => [close]
  | [x] => x ++ [close]
  | x :: x' :: xs => x ++ comma :: listed close (x' :: xs)

/-- What is written behind an element that the others follow. -/
def behind (close : UInt8) : List (List UInt8) → List UInt8
  | [] => [close]
  | x :: xs => comma :: listed close (x :: xs)

variable {w k sub x : List UInt8} {xs : List (List UInt8)} {c close : UInt8}
  {found : List UInt8 → Prop}

/-- A piece without the letter that the key begins with. -/
theorem Plain.absent (hw : Plain w) (h : ∀ a ∈ w.head?, a ∉ x) : Absent (needle w) x := by
  obtain ⟨a, w, rfl⟩ := List.exists_cons_of_ne_nil hw.ne_nil
  exact absent_of_head rfl (h a rfl)

theorem Plain.absent_of_not_mem (hw : Plain w) (h : ∀ b ∈ x, b ∉ w) : Absent (needle w) x :=
  hw.absent fun a ha hmem => h a hmem (List.mem_of_mem_head? ha)

theorem Plain.absent_marks (hw : Plain w) (hx : ∀ b ∈ x, b = quote ∨ b = colon) :
    Absent (needle w) x := by
  refine hw.absent_of_not_mem fun b hb => ?_
  rcases hx b hb with rfl | rfl
  · exact hw.quote_not_mem
  · exact hw.colon_not_mem

theorem Plain.absent_quote (hw : Plain w) : Absent (needle w) [quote] :=
  hw.absent_marks fun _ hb => .inl (List.mem_singleton.mp hb)

/-- What an occurrence in front of a quote is: up to this quote, or up to another one. -/
theorem needle_prefix {s y : List UInt8} (hw : Plain w) (h : needle w <+: s ++ quote :: y) :
    (s = w ∧ y.head? = some colon) ∨ ∃ rest, s = w ++ quote :: rest := by
  obtain ⟨z, hz⟩ := h
  rw [needle, List.append_assoc] at hz
  rcases List.append_eq_append_iff.mp hz with ⟨t, hs, ht⟩ | ⟨t, hw', ht⟩
  · cases t with
    | nil =>
        left
        rw [List.append_nil] at hs
        obtain ⟨-, hy⟩ := List.cons.inj ht
        exact ⟨hs, by rw [← hy]; rfl⟩
    | cons b t =>
        obtain ⟨rfl, -⟩ := List.cons.inj ht
        exact .inr ⟨t, hs⟩
  · cases t with
    | nil =>
        left
        rw [List.append_nil] at hw'
        obtain ⟨-, hy⟩ := List.cons.inj ht
        exact ⟨hw'.symm, by rw [hy]; rfl⟩
    | cons b t =>
        obtain ⟨rfl, -⟩ := List.cons.inj ht
        exact absurd (show quote ∈ w by rw [hw']; simp) hw.quote_not_mem

/-- **The key is found** where it stands. -/
theorem find_key (hw : Plain w) (y : List UInt8) :
    find (needle w) (key w ++ y) = some (needle w ++ y) := by
  show find (needle w) ([quote] ++ (needle w ++ y)) = _
  rw [hw.absent_quote.find, find_of_prefix (List.prefix_append _ _)]

/-- **Another key** is passed by, unless it ends as this one. -/
theorem absent_key (hw : Plain w) (hk : quote ∉ k) (hne : ¬ w <:+ k) :
    Absent (needle w) (key k) := by
  have hmarks : Absent (needle w) [quote, colon] := hw.absent_marks fun b hb => by simpa using hb
  refine @Absent.append _ _ [quote] (needle k) hw.absent_quote fun s y hs hnil hprefix => ?_
  rcases suffix_append_cases hs with hs' | ⟨t, ht, -, rfl⟩
  · exact hmarks s y hs' hnil hprefix
  · rw [List.append_assoc] at hprefix
    rcases needle_prefix hw hprefix with ⟨rfl, -⟩ | ⟨rest, rfl⟩
    · exact hne ht
    · exact hk (ht.subset (by simp))

/-- **A string** is passed by, if no colon is behind it. -/
theorem absent_str (hw : Plain w) (s : Str) (hc : c ≠ colon) (hc' : c ∉ w) :
    Absent (needle w) (s.text ++ [c]) := by
  have hclosing : Absent (needle w) [quote, c] := by
    refine @Absent.append _ _ [quote] [c] hw.absent_quote (hw.absent_of_not_mem fun b hb => ?_)
    rw [List.mem_singleton.mp hb]
    exact hc'
  have htext : s.text ++ [c] = [quote] ++ (s.bytes ++ [quote, c]) := by simp [Str.text]
  rw [htext]
  refine hw.absent_quote.append fun t y ht hnil hprefix => ?_
  rcases suffix_append_cases ht with ht' | ⟨t, ⟨front, hfront⟩, -, rfl⟩
  · exact hclosing t y ht' hnil hprefix
  · rw [List.append_assoc] at hprefix
    rcases needle_prefix hw hprefix with ⟨-, hhead⟩ | ⟨rest, rfl⟩
    · exact hc (Option.some.inj hhead)
    · -- a quote in the string behind the letters of the key
      have hlast := s.escaped (front ++ w) rest (by rw [← hfront, List.append_assoc])
      obtain ⟨others, hw'⟩ := List.getLast?_eq_some_iff.mp
        ((List.getLast?_append_of_ne_nil front hw.ne_nil).symm.trans hlast)
      exact hw.backslash_not_mem (by rw [hw']; simp)

theorem listed_cons (close : UInt8) (x : List UInt8) (xs : List (List UInt8)) :
    listed close (x :: xs) = x ++ behind close xs := by
  cases xs <;> rfl

/-- An element picked out of a list. -/
theorem listed_append (close : UInt8) (front : List (List UInt8)) (x : List UInt8)
    (back : List (List UInt8)) :
    listed close (front ++ x :: back) =
      front.flatMap (· ++ [comma]) ++ (x ++ behind close back) := by
  induction front with
  | nil => exact listed_cons close x back
  | cons x' front ih =>
      have hbehind : behind close (front ++ x :: back) =
          [comma] ++ listed close (front ++ x :: back) := by
        cases front <;> rfl
      rw [List.cons_append, listed_cons, hbehind, ih, List.flatMap_cons]
      simp only [List.append_assoc]

theorem absent_listed (hclose : Absent sub [close])
    (h : ∀ x ∈ xs, ∀ c, c = comma ∨ c = close → Absent sub (x ++ [c])) :
    Absent sub (listed close xs) := by
  induction xs with
  | nil => exact hclose
  | cons x xs ih =>
      have hrest := ih fun x' hx' => h x' (List.mem_cons_of_mem x hx')
      cases xs with
      | nil => exact h x List.mem_cons_self close (.inr rfl)
      | cons x' xs =>
          have hx := (h x List.mem_cons_self comma (.inl rfl)).append hrest
          rwa [List.append_assoc] at hx

theorem absent_behind (hcomma : Absent sub [comma]) (hclose : Absent sub [close])
    (h : ∀ x ∈ xs, ∀ c, c = comma ∨ c = close → Absent sub (x ++ [c])) :
    Absent sub (behind close xs) := by
  cases xs with
  | nil => exact hclose
  | cons x xs => exact hcomma.append (absent_listed hclose h)

/-- **An element of a list leads on**, if none of the others is in the way. -/
theorem leads_listed
    (h : ∀ x ∈ xs, Absent sub (x ++ [comma]) ∨ Leads sub found x)
    (hleads : ∃ x ∈ xs, Leads sub found x) : Leads sub found (listed close xs) := by
  induction xs with
  | nil => simp at hleads
  | cons x xs ih =>
      by_cases hx : Leads sub found x
      · rw [listed_cons]
        exact hx.append _
      · have habsent := (h x List.mem_cons_self).resolve_right hx
        obtain ⟨x', hmem, hleads⟩ := hleads
        have hmem : x' ∈ xs := (List.mem_cons.mp hmem).resolve_left fun heq => hx (heq ▸ hleads)
        have hrest := habsent.leads
          (ih (fun y hy => h y (List.mem_cons_of_mem x hy)) ⟨x', hmem, hleads⟩)
        cases xs with
        | nil => exact absurd hmem List.not_mem_nil
        | cons y xs => rwa [List.append_assoc] at hrest

theorem leads_behind (hcomma : Absent sub [comma])
    (h : ∀ x ∈ xs, Absent sub (x ++ [comma]) ∨ Leads sub found x)
    (hleads : ∃ x ∈ xs, Leads sub found x) : Leads sub found (behind close xs) := by
  cases xs with
  | nil => simp at hleads
  | cons x xs => exact hcomma.leads (leads_listed h hleads)

end KeySearch
