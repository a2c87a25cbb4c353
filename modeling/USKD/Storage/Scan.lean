import USKD.Storage.MemoryStorage

/-!
# The loops over the slots, as they run

`StructData::IsEmpty` looks for a byte that is not `0xFF`.  Its loop moves the end of the slot and
not the address, so that it looks at the first byte again and again: it answers that the slot is not
empty, or does not come to an end.

Here `turns` bounds the loop, and `none` says that it is still running.  The functions that call
`IsEmpty` run as long as it does; the parts of the loops that do not depend on it are those of
`MemoryStorage`.

* `tellsEmpty_iff_ne` says at which slots `IsEmpty` does what it is for: where the first byte is not
  `0xFF`.
* `scans_iff` adds `Init` and `FindFirstEmpty`, which come to an end if there is no other slot.
* `isEmptyLoopWrapping_eq` is the loop of a machine on which `end` starts again at zero.  It comes to
  an end, but has looked at no other byte: it says that a slot is empty only where the first byte is
  `0xFF` (`firstByteErased_isEmptyWrapping`).
-/

namespace USKD

open NorFlash

namespace StructData

/-- The loop of `IsEmpty`, with its two variables `address` and `end`. -/
def isEmptyLoop (flash : Memory) (address : ℕ) : ℕ → ℕ → Option Bool
  | 0, _ => none
  | turns + 1, stop =>
      if address < stop then
        if flash address ≠ 0xFF then some false else isEmptyLoop flash address turns (stop + 1)
      else some true

/-- `StructData::IsEmpty` on the slot at `address`. -/
def isEmpty (turns : ℕ) (flash : Memory) (address : ℕ) : Option Bool :=
  isEmptyLoop flash address turns (address + size)

variable {flash : Memory} {a turns stop : ℕ}

/-- **At a byte `0xFF`** the loop goes on. -/
theorem isEmptyLoop_of_eq (hbyte : flash a = 0xFF) (hstop : a < stop) :
    isEmptyLoop flash a turns stop = none := by
  induction turns generalizing stop with
  | zero => rfl
  | succ turns ih =>
      rw [isEmptyLoop, if_pos hstop, if_neg (not_not.mpr hbyte)]
      exact ih (Nat.lt_succ_of_lt hstop)

theorem lt_add_size (a : ℕ) : a < a + size := Nat.lt_add_of_pos_right (by decide)

theorem isEmpty_of_eq (hbyte : flash a = 0xFF) : isEmpty turns flash a = none :=
  isEmptyLoop_of_eq hbyte (lt_add_size a)

theorem isEmpty_of_ne (hbyte : flash a ≠ 0xFF) : isEmpty (turns + 1) flash a = some false := by
  rw [isEmpty, isEmptyLoop, if_pos (lt_add_size a), if_pos hbyte]

/-- **No slot is empty** for `IsEmpty`. -/
theorem isEmpty_ne_true : isEmpty turns flash a ≠ some true := by
  by_cases hbyte : flash a = 0xFF
  · rw [isEmpty_of_eq hbyte]
    simp
  · cases turns with
    | zero => simp [isEmpty, isEmptyLoop]
    | succ turns =>
        rw [isEmpty_of_ne hbyte]
        simp

/-- The addresses that the loop of `IsEmpty` reads. -/
def readsLoop (flash : Memory) (address : ℕ) : ℕ → ℕ → List ℕ
  | 0, _ => []
  | turns + 1, stop =>
      if address < stop then
        address :: if flash address ≠ 0xFF then [] else readsLoop flash address turns (stop + 1)
      else []

/-- The addresses that `IsEmpty` reads. -/
def reads (turns : ℕ) (flash : Memory) (address : ℕ) : List ℕ :=
  readsLoop flash address turns (address + size)

/-- **What `IsEmpty` is for**: it comes to an end, reads inside of the slot, and says whether all
bytes are `0xFF`. -/
structure TellsEmpty (flash : Memory) (a : ℕ) : Prop where
  answers : ∃ turns answer, isEmpty turns flash a = some answer ∧
    (answer = true ↔ flash.ErasedOn a size)
  inside : ∀ turns, ∀ x ∈ reads turns flash a, a ≤ x ∧ x < a + size

/-- The loop reads nothing but the first byte. -/
theorem eq_of_mem_readsLoop {x : ℕ} (h : x ∈ readsLoop flash a turns stop) : x = a := by
  induction turns generalizing stop with
  | zero => exact absurd h List.not_mem_nil
  | succ turns ih =>
      unfold readsLoop at h
      split at h
      · rcases List.mem_cons.mp h with rfl | h
        · rfl
        split at h
        · exact absurd h List.not_mem_nil
        · exact ih h
      · exact absurd h List.not_mem_nil

theorem ne_of_isEmpty {answer : Bool} (h : isEmpty turns flash a = some answer) :
    flash a ≠ 0xFF := by
  intro hbyte
  rw [isEmpty_of_eq hbyte] at h
  exact absurd h (by simp)

theorem not_erasedOn_of_ne (hbyte : flash a ≠ 0xFF) : ¬ flash.ErasedOn a size :=
  fun herased => hbyte (herased a (Nat.le_refl a) (lt_add_size a))

/-- **Where `IsEmpty` does what it is for.** -/
theorem tellsEmpty_iff_ne : TellsEmpty flash a ↔ flash a ≠ 0xFF := by
  constructor
  · rintro ⟨⟨turns, answer, hanswer, -⟩, -⟩
    exact ne_of_isEmpty hanswer
  · intro hbyte
    refine ⟨⟨1, false, isEmpty_of_ne hbyte, ?_⟩, ?_⟩
    · exact iff_of_false Bool.false_ne_true (not_erasedOn_of_ne hbyte)
    · intro turns x hx
      obtain rfl := eq_of_mem_readsLoop hx
      exact ⟨Nat.le_refl x, lt_add_size x⟩

/-! ### An end that wraps

The language says nothing of an `end` that leaves the slot.  On a machine with 32-bit addresses it
may come back to zero. -/

/-- The loop of `IsEmpty`, with an `end` of 32 bits. -/
def isEmptyLoopWrapping (flash : Memory) (address : ℕ) : ℕ → ℕ → Option Bool
  | 0, _ => none
  | turns + 1, stop =>
      if address < stop then
        if flash address ≠ 0xFF then some false
        else isEmptyLoopWrapping flash address turns ((stop + 1) % 2 ^ 32)
      else some true

/-- **At a byte `0xFF`** the loop goes through the whole address space, and says that the slot is
empty, whatever the other bytes are. -/
theorem isEmptyLoopWrapping_eq (hbyte : flash a = 0xFF) (hstop : a < stop)
    (hspace : stop < 2 ^ 32) :
    isEmptyLoopWrapping flash a turns stop =
      if turns ≤ 2 ^ 32 - stop then none else some true := by
  induction turns generalizing stop with
  | zero => rw [if_pos (Nat.zero_le _)]; rfl
  | succ turns ih =>
      rw [isEmptyLoopWrapping, if_pos hstop, if_neg (not_not.mpr hbyte)]
      rcases Nat.lt_or_ge (stop + 1) (2 ^ 32) with hnext | hnext
      · rw [Nat.mod_eq_of_lt hnext, ih (Nat.lt_succ_of_lt hstop) hnext]
        have hcount : turns ≤ 2 ^ 32 - (stop + 1) ↔ turns + 1 ≤ 2 ^ 32 - stop := by omega
        simp only [hcount]
      · -- the end of the address space
        obtain rfl : stop = 2 ^ 32 - 1 := by omega
        rw [show (2 ^ 32 - 1 + 1) % 2 ^ 32 = 0 from rfl]
        cases turns with
        | zero => rfl
        | succ turns =>
            rw [isEmptyLoopWrapping, if_neg (Nat.not_lt_zero a), if_neg (by omega)]

/-- **Only a slot that begins with `0xFF`** can be empty. -/
theorem eq_of_isEmptyLoopWrapping (hstop : a < stop)
    (h : isEmptyLoopWrapping flash a turns stop = some true) : flash a = 0xFF := by
  by_contra hbyte
  cases turns with
  | zero => exact absurd h (by simp [isEmptyLoopWrapping])
  | succ turns =>
      rw [isEmptyLoopWrapping, if_pos hstop, if_pos hbyte] at h
      exact absurd h (by simp)

/-- `StructData::IsEmpty` on such a machine. -/
def isEmptyWrapping (flash : Memory) (address : ℕ) : Bool :=
  isEmptyLoopWrapping flash address (2 ^ 32 + 1) (address + size) = some true

/-- What any reading of `IsEmpty` has in common with the loop: a slot that it says is empty begins
with `0xFF`. -/
def FirstByteErased (isEmpty : Memory → ℕ → Bool) : Prop :=
  ∀ flash a, isEmpty flash a = true → flash a = 0xFF

theorem firstByteErased_isEmptyWrapping : FirstByteErased isEmptyWrapping :=
  fun _ a h => eq_of_isEmptyLoopWrapping (lt_add_size a) (of_decide_eq_true h)

end StructData

namespace MemoryStorage

/-- One turn of the loop of `MemoryStorage::Init`. -/
def initSlotWithin (chip : Chip) (turns : ℕ) (flash : Memory) (a : ℕ) : Option Memory := do
  let empty ← StructData.isEmpty turns flash a
  if empty then pure flash
  else if StructData.isValid flash a then pure flash
  else pure (StructData.erase chip flash a)

/-- `MemoryStorage::Init`. -/
def initWithin (chip : Chip) (turns : ℕ) (flash : Memory) : Option Memory :=
  slots.foldlM (initSlotWithin chip turns) flash

/-- The loop of `FindFirstEmpty`, over the slots that are left. -/
def firstEmptyWithin (turns : ℕ) (flash : Memory) : List ℕ → Option (Option ℕ)
  | [] => some none
  | a :: rest => do
      let empty ← StructData.isEmpty turns flash a
      if empty then pure (some a) else firstEmptyWithin turns flash rest

/-- `MemoryStorage::FindFirstEmpty`. -/
def findFirstEmptyWithin (turns : ℕ) (flash : Memory) : Option (Option ℕ) :=
  firstEmptyWithin turns flash slots

/-- `MemoryStorage::Data::Append`: the flash after it, and the slot it used. -/
def appendWithin (chip : Chip) (turns : ℕ) (flash : Memory) (r : StructData) :
    Option (Memory × ℕ) := do
  match ← findFirstEmptyWithin turns flash with
  | some a => pure ((r.write chip flash a).1, a)
  | none => pure ((r.write chip (eraseFull flash) BEGIN).1, BEGIN)

variable {chip : Chip} {flash flash' : Memory} {a turns : ℕ}

/-- What `FindFirstEmpty` finds is a slot that `IsEmpty` says is empty. -/
theorem isEmpty_of_findFirstEmptyWithin
    (h : findFirstEmptyWithin turns flash = some (some a)) :
    a ∈ slots ∧ StructData.isEmpty turns flash a = some true := by
  unfold findFirstEmptyWithin at h
  suffices hall : ∀ l, firstEmptyWithin turns flash l = some (some a) →
      a ∈ l ∧ StructData.isEmpty turns flash a = some true from hall slots h
  intro l
  induction l with
  | nil => intro hl; exact absurd hl (by simp [firstEmptyWithin])
  | cons b l ih =>
      intro hl
      obtain ⟨empty, hempty, hl⟩ := Option.bind_eq_some_iff.mp hl
      cases empty with
      | true =>
          obtain rfl := Option.some.inj (Option.some.inj hl)
          exact ⟨List.mem_cons_self, hempty⟩
      | false =>
          obtain ⟨hmem, htrue⟩ := ih hl
          exact ⟨List.mem_cons_of_mem _ hmem, htrue⟩

/-- A turn of `Init` is over the slot as it is, or erases it. -/
theorem initSlotWithin_cases (h : initSlotWithin chip turns flash a = some flash') :
    flash' = flash ∨ StructData.isValid flash a = false ∧ flash' = StructData.erase chip flash a := by
  obtain ⟨empty, -, h⟩ := Option.bind_eq_some_iff.mp h
  cases empty with
  | true => exact .inl (Option.some.inj h).symm
  | false =>
      cases hvalid : StructData.isValid flash a with
      | true =>
          rw [hvalid] at h
          exact .inl (Option.some.inj h).symm
      | false =>
          rw [hvalid] at h
          exact .inr ⟨rfl, (Option.some.inj h).symm⟩

/-! ## Which scans come to an end -/

/-- The first slot that is all `0xFF`, or `none` if there is none. -/
def IsFirstErased (flash : Memory) : Option ℕ → Prop
  | none => ∀ a ∈ slots, ¬ flash.ErasedOn a StructData.size
  | some a => a ∈ slots ∧ flash.ErasedOn a StructData.size ∧
      ∀ b ∈ slots, b < a → ¬ flash.ErasedOn b StructData.size

/-- **The scans over the record area come to an end**, and `FindFirstEmpty` finds the first slot
that is all `0xFF`. -/
structure Scans (chip : Chip) (flash : Memory) : Prop where
  init : ∃ turns flash', initWithin chip turns flash = some flash'
  find : ∃ turns found, findFirstEmptyWithin turns flash = some found ∧ IsFirstErased flash found

/-- A turn of `Init` leaves the other slots as they are. -/
theorem initSlotWithin_of_ne {b : ℕ} (h : initSlotWithin chip turns flash b = some flash')
    (ha : a ∈ slots) (hb : b ∈ slots) (hne : a ≠ b) : flash' a = flash a := by
  rcases initSlotWithin_cases h with rfl | ⟨-, rfl⟩
  · rfl
  · have hdis := slots_disjoint ha hb hne
    have hsize : 0 < StructData.size := by decide
    exact StructData.erase_of_outside chip flash (by omega)

/-- A turn of `Init` comes to an end at a slot that does not begin with `0xFF`. -/
theorem initSlotWithin_of_byte (hbyte : flash a ≠ 0xFF) :
    ∃ flash', initSlotWithin chip 1 flash a = some flash' := by
  rw [initSlotWithin, StructData.isEmpty_of_ne hbyte]
  cases StructData.isValid flash a with
  | true => exact ⟨flash, rfl⟩
  | false => exact ⟨StructData.erase chip flash a, rfl⟩

/-- Slots that are still to come are not changed by a turn. -/
theorem forall_initSlotWithin_iff {b : ℕ} {l : List ℕ}
    (h : initSlotWithin chip turns flash b = some flash') (hsub : b :: l ⊆ slots)
    (hnodup : (b :: l).Nodup) : (∀ a ∈ l, flash' a ≠ 0xFF) ↔ ∀ a ∈ l, flash a ≠ 0xFF := by
  obtain ⟨hslot, hsub⟩ := List.cons_subset.mp hsub
  refine forall₂_congr fun a ha => ?_
  have hne : a ≠ b := fun heq => (List.nodup_cons.mp hnodup).1 (heq ▸ ha)
  rw [initSlotWithin_of_ne h (hsub ha) hslot hne]

theorem ne_of_scan {l : List ℕ} (hsub : l ⊆ slots) (hnodup : l.Nodup)
    (h : l.foldlM (initSlotWithin chip turns) flash = some flash') :
    ∀ a ∈ l, flash a ≠ 0xFF := by
  induction l generalizing flash with
  | nil => exact fun a ha => absurd ha List.not_mem_nil
  | cons b l ih =>
      rw [List.foldlM_cons, Option.bind_eq_bind, Option.bind_eq_some_iff] at h
      obtain ⟨m, hturn, hrest⟩ := h
      obtain ⟨answer, hempty, -⟩ := Option.bind_eq_some_iff.mp hturn
      have hbehind := ih (List.cons_subset.mp hsub).2 (List.nodup_cons.mp hnodup).2 hrest
      exact List.forall_mem_cons.mpr ⟨StructData.ne_of_isEmpty hempty,
        (forall_initSlotWithin_iff hturn hsub hnodup).mp hbehind⟩

theorem scan_of_ne {l : List ℕ} (hsub : l ⊆ slots) (hnodup : l.Nodup)
    (hbytes : ∀ a ∈ l, flash a ≠ 0xFF) :
    ∃ flash', l.foldlM (initSlotWithin chip 1) flash = some flash' := by
  induction l generalizing flash with
  | nil => exact ⟨flash, rfl⟩
  | cons b l ih =>
      obtain ⟨hbyte, hrest⟩ := List.forall_mem_cons.mp hbytes
      obtain ⟨m, hturn⟩ := @initSlotWithin_of_byte chip flash b hbyte
      rw [List.foldlM_cons, hturn]
      exact ih (List.cons_subset.mp hsub).2 (List.nodup_cons.mp hnodup).2
        ((forall_initSlotWithin_iff hturn hsub hnodup).mpr hrest)

/-- **`FindFirstEmpty` finds nothing**, if it comes to an end. -/
theorem firstEmptyWithin_iff {l : List ℕ} {found : Option ℕ} :
    firstEmptyWithin (turns + 1) flash l = some found ↔
      (∀ a ∈ l, flash a ≠ 0xFF) ∧ found = none := by
  induction l with
  | nil => simp [firstEmptyWithin, eq_comm]
  | cons b l ih =>
      rw [firstEmptyWithin, List.forall_mem_cons]
      by_cases hbyte : flash b = 0xFF
      · rw [StructData.isEmpty_of_eq hbyte]
        simp [hbyte]
      · rw [StructData.isEmpty_of_ne hbyte]
        simp only [Option.bind_eq_bind, Option.bind_some, Bool.false_eq_true, if_false, ih, hbyte,
          ne_eq, not_false_eq_true, true_and]

/-- **When the scans come to an end**: if no slot begins with `0xFF`. -/
theorem scans_iff_ne : Scans chip flash ↔ ∀ a ∈ slots, flash a ≠ 0xFF := by
  constructor
  · rintro ⟨⟨turns, flash', hinit⟩, -⟩
    exact ne_of_scan (List.Subset.refl slots) nodup_slots hinit
  · intro hbytes
    obtain ⟨flash', hinit⟩ := @scan_of_ne chip flash slots (List.Subset.refl slots) nodup_slots hbytes
    refine ⟨⟨1, flash', hinit⟩, 1, none, firstEmptyWithin_iff.mpr ⟨hbytes, rfl⟩, ?_⟩
    intro a ha
    exact StructData.not_erasedOn_of_ne (hbytes a ha)

/-- **`IsEmpty` and the scans over it** do what they are for exactly where they meet no first byte
`0xFF`. -/
theorem scans_iff (chip : Chip) (flash : Memory) :
    (∀ a, StructData.TellsEmpty flash a ↔ flash a ≠ 0xFF) ∧
      (Scans chip flash ↔ ∀ a ∈ slots, flash a ≠ 0xFF) :=
  ⟨fun _ => StructData.tellsEmpty_iff_ne, scans_iff_ne⟩

/-- **A slot that begins with `0xFF` and goes on with zeros** keeps `IsEmpty` from coming to an
end. -/
theorem not_scans_halfErased :
    ¬ ∀ (chip : Chip) (flash : Memory),
        (∀ a ∈ slots, StructData.TellsEmpty flash a) ∧ Scans chip flash := by
  intro hall
  have hslot : BEGIN ∈ slots := mem_slots_iff.mpr ⟨0, by decide, rfl⟩
  obtain ⟨⟨turns, answer, hanswer, -⟩, -⟩ :=
    (hall andChip fun x => if x = BEGIN then 0xFF else 0).1 BEGIN hslot
  exact StructData.ne_of_isEmpty hanswer (if_pos rfl)

end MemoryStorage

end USKD
