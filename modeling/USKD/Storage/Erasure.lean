import USKD.Storage.Durability
import USKD.Storage.Oldest
import USKD.Storage.Scan
import USKD.Utils.Burst

/-!
# Erasing a record

`StructData::Erase` programs zero over the first word of a slot.  It has no mark of its own for an
erased slot: that `IsValid` rejects it from then on rests on the checksum, which goes over the
first word too.

The checksum does not tell every first word from zero.  There are five that have the checksum zero,
zero itself among them; a record with such a time is as valid behind `Erase` as before it
(`isValid_erase_iff`).  `final_iff` says when a slot is erased for good: nothing that is done with
the store later on, short of `EraseFull`, changes the erased slot (`Dead.later`).
-/

namespace USKD

open NorFlash

namespace StructData

/-- The times whose word has the checksum zero. -/
def silentTimes : List UInt32 := [0, 0x4F6E2F10, 0x9EDC5E20, 0x108F3031, 0x5FFD5F41]

/-- The slot would check if it began with zero. -/
def ChecksAsZero (flash : Memory) (a : ℕ) : Prop :=
  (flash.word (a + 20)).toUInt32 = Math.calculateCRC (Word.zero.bytes ++ flash.read (a + 4) 16) ∧
    flash (a + 24) = 0x00 ∧ flash (a + 25) = 0x7E

variable {chip : Chip} {flash : Memory} {a x : ℕ}

/-- **The words with the checksum zero.** -/
theorem calculateCRC_bytes_eq_zero_iff (w : Word) :
    Math.calculateCRC w.bytes = 0 ↔ w.toUInt32 ∈ silentTimes := by
  have htimes : silentTimes = [(⟨0, 0, 0, 0⟩ : Word).toUInt32, (⟨16, 47, 110, 79⟩ : Word).toUInt32,
      (⟨32, 94, 220, 158⟩ : Word).toUInt32, (⟨49, 48, 143, 16⟩ : Word).toUInt32,
      (⟨65, 95, 253, 95⟩ : Word).toUInt32] := by decide
  obtain ⟨b0, b1, b2, b3⟩ := w
  rw [Word.bytes, Math.calculateCRC_four_eq_zero_iff, htimes]
  simp only [Math.silentBytes, List.mem_cons, Prod.mk.injEq, List.not_mem_nil, or_false,
    Word.toUInt32_inj, Word.mk.injEq, ← UInt8.toNat_inj, UInt8.reduceToNat]

/-- Behind `Erase` the slot begins with zero. -/
theorem word_erase (chip : Chip) (flash : Memory) (a : ℕ) :
    (erase chip flash a).word a = .zero := by
  show (programWord chip flash a .zero).word a = .zero
  rw [word_programWord, chip.program_zero]

/-- `Erase` changes the first word only. -/
theorem erase_of_ne (h : x < a ∨ a + 4 ≤ x) : erase chip flash a x = flash x :=
  programBytes_of_outside chip flash a _ h

/-- A slot that begins with zero is not changed by `Erase`. -/
theorem erase_of_zero (h : flash.word a = .zero) : erase chip flash a = flash := by
  have hzero : ∀ y, a ≤ y → y < a + 4 → flash y = (erase chip flash a) y := by
    intro y hy hy'
    have hread : flash.read a 4 = (erase chip flash a).read a 4 := by
      rw [Memory.read_four, Memory.read_four, h, word_erase]
    have hbyte := congrArg (fun bytes => bytes[y - a]?) hread
    simp only [Memory.getElem?_read _ _ (show y - a < 4 by omega), Option.some.injEq,
      Nat.add_sub_cancel' hy] at hbyte
    exact hbyte
  funext y
  by_cases hy : y < a ∨ a + 4 ≤ y
  · exact erase_of_ne hy
  · exact (hzero y (by omega) (by omega)).symm

theorem calculateCRC_eq (flash : Memory) (a : ℕ) :
    calculateCRC flash a = Math.calculateCRC ((flash.word a).bytes ++ flash.read (a + 4) 16) := by
  rw [calculateCRC, ← Memory.read_four, ← Memory.read_add]
  rfl

/-- What `IsValid` says of the slot behind `Erase`. -/
theorem isValid_erase_iff_checksAsZero :
    isValid (erase chip flash a) a = true ↔ ChecksAsZero flash a := by
  have hrest : ∀ k, 4 ≤ k → erase chip flash a (a + k) = flash (a + k) := fun k hk =>
    erase_of_ne (by omega)
  have hcrc : (erase chip flash a).word (a + 20) = flash.word (a + 20) := by
    simp only [Memory.word, Word.mk.injEq, Nat.add_assoc]
    exact ⟨hrest _ (by decide), hrest _ (by decide), hrest _ (by decide), hrest _ (by decide)⟩
  have hread : (erase chip flash a).read (a + 4) 16 = flash.read (a + 4) 16 :=
    Memory.read_congr fun y hy _ => erase_of_ne (.inr hy)
  rw [isValid_iff, Checks, ChecksAsZero, calculateCRC_eq, word_erase, hcrc, hread,
    hrest 24 (by decide), hrest 25 (by decide)]
  exact or_iff_right (by decide)

/-- **A record that checks** is valid behind `Erase` exactly if its time has the checksum zero. -/
theorem Checks.checksAsZero_iff (h : Checks flash a) :
    ChecksAsZero flash a ↔ timeSecsAt flash a ∈ silentTimes := by
  obtain ⟨hcrc, hcontrol⟩ := h
  rw [ChecksAsZero, and_iff_left hcontrol, hcrc, calculateCRC_eq,
    Math.calculateCRC_append_inj (by rfl), timeSecsAt, ← calculateCRC_bytes_eq_zero_iff]
  exact Iff.rfl

end StructData

namespace MemoryStorage

open StructData LTS

/-- A later call.  `Append` calls `EraseFull` if `FindFirstEmpty` finds nothing; that is where a
history ends here.  `Init` runs at a reboot. -/
def later (chip : Chip) (turns : ℕ) (flash : Memory) : Op → Option Memory
  | .append r => do
      let found ← findFirstEmptyWithin turns flash
      if found = none then none else (appendWithin chip turns flash r).map Prod.fst
  | .erase b => if b ∈ slots then some (erase chip flash b) else none
  | .reboot => initWithin chip turns flash

/-- A later call, with another `IsEmpty` than the loop. -/
def laterIf (chip : Chip) (isEmpty : Memory → ℕ → Bool) (flash : Memory) : Op → Option Memory
  | .append r =>
      if findFirstEmpty isEmpty flash = none then none
      else some (append chip isEmpty flash r).1
  | .erase b => if b ∈ slots then some (erase chip flash b) else none
  | .reboot => some (init chip isEmpty flash)

/-- **The slot is erased for good**: it is neither valid nor empty, it is not returned by
`GetOldest` nor used by `Append` behind any later calls, and no other slot has changed.  As the loop
of `IsEmpty` never says that a slot is empty, the later calls are also those with any `IsEmpty` that
wants a first byte `0xFF`. -/
structure Final (chip : Chip) (turns : ℕ) (flash : Memory) (a : ℕ) : Prop where
  not_valid : isValid (erase chip flash a) a = false
  not_empty : ¬ (erase chip flash a).ErasedOn a size
  not_used : ∀ ops m, Run (stepOf (later chip turns)) (erase chip flash a) ops m →
    getOldest m ≠ some a ∧ findFirstEmptyWithin turns m ≠ some (some a)
  not_used_if : ∀ isEmpty, FirstByteErased isEmpty → ∀ ops m,
    Run (stepOf (laterIf chip isEmpty)) (erase chip flash a) ops m →
      getOldest m ≠ some a ∧ findFirstEmpty isEmpty m ≠ some a
  others : ∀ b ∈ slots, b ≠ a → ∀ x, b ≤ x → x < b + size → erase chip flash a x = flash x

/-- An erased slot that is not valid. -/
structure Dead (flash : Memory) (a : ℕ) : Prop where
  zero : flash.word a = .zero
  not_valid : isValid flash a = false

variable {chip : Chip} {flash flash' : Memory} {a b turns : ℕ}

theorem Dead.byte (h : Dead flash a) : flash a = 0 := congrArg Word.b0 h.zero

theorem Dead.congr (h : Dead flash a) (hsame : ∀ x, a ≤ x → x < a + size → flash' x = flash x) :
    Dead flash' a where
  zero := by
    rw [← h.zero]
    have hsize : size = 28 := rfl
    simp only [Memory.word, Word.mk.injEq]
    exact ⟨hsame _ (by omega) (by omega), hsame _ (by omega) (by omega),
      hsame _ (by omega) (by omega), hsame _ (by omega) (by omega)⟩
  not_valid := by rw [isValid_congr hsame, h.not_valid]

theorem Dead.getOldest_ne (h : Dead flash a) : getOldest flash ≠ some a := by
  intro holdest
  have hvalid := (getOldest_some holdest).2.1
  rw [h.not_valid] at hvalid
  exact absurd hvalid (by decide)

theorem Dead.findFirstEmptyWithin_ne : findFirstEmptyWithin turns flash ≠ some (some a) :=
  fun hfound => isEmpty_ne_true (isEmpty_of_findFirstEmptyWithin hfound).2

theorem Dead.erase (h : Dead flash a) (ha : a ∈ slots) (hb : b ∈ slots) :
    Dead (StructData.erase chip flash b) a := by
  by_cases hab : a = b
  · rw [← hab, erase_of_zero h.zero]
    exact h
  · have hdis := slots_disjoint ha hb hab
    exact h.congr fun x hx hx' => erase_of_outside chip flash (by omega)

theorem Dead.initWithin (h : Dead flash a) (ha : a ∈ slots)
    (hinit : MemoryStorage.initWithin chip turns flash = some flash') : Dead flash' a := by
  suffices hfold : ∀ (l : List ℕ) (m m' : Memory), (∀ b ∈ l, b ∈ slots) → Dead m a →
      l.foldlM (initSlotWithin chip turns) m = some m' → Dead m' a from
    hfold slots flash flash' (fun _ hb => hb) h hinit
  intro l
  induction l with
  | nil =>
      intro m m' _ hm hdone
      obtain rfl := Option.some.inj hdone
      exact hm
  | cons b l ih =>
      intro m m' hl hm hdone
      rw [List.foldlM_cons] at hdone
      obtain ⟨next, hturn, hdone⟩ := Option.bind_eq_some_iff.mp hdone
      refine ih next m' (fun c hc => hl c (List.mem_cons_of_mem _ hc)) ?_ hdone
      rcases initSlotWithin_cases hturn with rfl | ⟨-, rfl⟩
      · exact hm
      · exact hm.erase ha (hl b List.mem_cons_self)

/-- **One later call** leaves an erased slot as it is. -/
theorem Dead.later {op : Op} (h : Dead flash a) (ha : a ∈ slots)
    (hstep : MemoryStorage.later chip turns flash op = some flash') : Dead flash' a := by
  cases op with
  | append r =>
      obtain ⟨found, hfound, hstep⟩ := Option.bind_eq_some_iff.mp hstep
      cases found with
      | none => exact absurd hstep (by simp)
      | some b => exact absurd (isEmpty_of_findFirstEmptyWithin hfound).2 isEmpty_ne_true
  | erase b =>
      obtain ⟨hb, hstep⟩ := Option.ite_none_right_eq_some.mp hstep
      obtain rfl := Option.some.inj hstep
      exact h.erase ha hb
  | reboot => exact h.initWithin ha hstep

theorem Dead.findFirstEmpty_ne {isEmpty : Memory → ℕ → Bool} (h : Dead flash a)
    (hempty : FirstByteErased isEmpty) : findFirstEmpty isEmpty flash ≠ some a := by
  intro hfound
  have hbyte := hempty flash a (List.find?_some hfound)
  rw [h.byte] at hbyte
  exact absurd hbyte (by decide)

theorem Dead.init {isEmpty : Memory → ℕ → Bool} (h : Dead flash a) (ha : a ∈ slots) :
    Dead (MemoryStorage.init chip isEmpty flash) a := by
  suffices hfold : ∀ (l : List ℕ) (m : Memory), (∀ b ∈ l, b ∈ slots) → Dead m a →
      Dead (l.foldl (initSlot chip isEmpty) m) a from hfold slots flash (fun _ hb => hb) h
  intro l
  induction l with
  | nil => exact fun _ _ hm => hm
  | cons b l ih =>
      intro m hl hm
      refine ih _ (fun c hc => hl c (List.mem_cons_of_mem _ hc)) ?_
      unfold initSlot
      split
      · exact hm
      split
      · exact hm
      · exact hm.erase ha (hl b List.mem_cons_self)

/-- **One later call** with another `IsEmpty`: `Append` may write, but to another slot. -/
theorem Dead.laterIf {isEmpty : Memory → ℕ → Bool} {op : Op} (h : Dead flash a) (ha : a ∈ slots)
    (hempty : FirstByteErased isEmpty)
    (hstep : MemoryStorage.laterIf chip isEmpty flash op = some flash') : Dead flash' a := by
  cases op with
  | append r =>
      obtain ⟨hsome, hstep⟩ := Option.ite_none_left_eq_some.mp hstep
      obtain ⟨b, hfound⟩ := Option.ne_none_iff_exists'.mp hsome
      have hne : a ≠ b := fun hab => h.findFirstEmpty_ne hempty (hab ▸ hfound)
      have hdis := slots_disjoint ha (List.mem_of_find?_eq_some hfound) hne
      rw [append, hfound] at hstep
      obtain rfl := Option.some.inj hstep
      exact h.congr fun x hx hx' => write_of_outside chip flash r (by omega)
  | erase b =>
      obtain ⟨hb, hstep⟩ := Option.ite_none_right_eq_some.mp hstep
      obtain rfl := Option.some.inj hstep
      exact h.erase ha hb
  | reboot =>
      obtain rfl := Option.some.inj hstep
      exact h.init ha

/-- **When a slot is erased for good.**  A record that checks: its time is not one of the five whose
checksum is zero.  A record that is valid for its time `(uint)-1` only: it would not check with the
time zero. -/
theorem final_iff (chip : Chip) (turns : ℕ) (flash : Memory) (ha : a ∈ slots) :
    Final chip turns flash a ↔
      (Checks flash a → timeSecsAt flash a ∉ silentTimes) ∧
        (¬ Checks flash a → ¬ ChecksAsZero flash a) := by
  have hrejected : isValid (erase chip flash a) a = false ↔
      (Checks flash a → timeSecsAt flash a ∉ silentTimes) ∧
        (¬ Checks flash a → ¬ ChecksAsZero flash a) := by
    rw [Bool.eq_false_iff, ne_eq, isValid_erase_iff_checksAsZero]
    by_cases hchecks : Checks flash a
    · simp [hchecks, hchecks.checksAsZero_iff]
    · simp [hchecks]
  rw [← hrejected]
  refine ⟨Final.not_valid, fun hnot => ?_⟩
  have hdead : Dead (erase chip flash a) a := ⟨word_erase chip flash a, hnot⟩
  refine ⟨hnot, ?_, ?_, ?_, ?_⟩
  · intro hempty
    have hbyte := hempty a (by omega) (by simp [size])
    rw [hdead.byte] at hbyte
    exact absurd hbyte (by decide)
  · intro ops m hrun
    have hm : Dead m a :=
      hrun.invariant hdead fun _ _ _ (hm : Dead _ a) hstep => hm.later ha hstep
    exact ⟨hm.getOldest_ne, Dead.findFirstEmptyWithin_ne⟩
  · intro isEmpty hempty ops m hrun
    have hm : Dead m a :=
      hrun.invariant hdead fun _ _ _ (hm : Dead _ a) hstep => hm.laterIf ha hempty hstep
    exact ⟨hm.getOldest_ne, hm.findFirstEmpty_ne hempty⟩
  · intro b hb hne x hx hx'
    have hdis := slots_disjoint ha hb (Ne.symm hne)
    exact erase_of_outside chip flash (by omega)

/-- A record with a checksum and a control field as `IsValid` wants them. -/
def recordAt (timeSecs : UInt32) : StructData :=
  let r : StructData := { StructData.new timeSecs 0 0 0 90 20 40 0 0 with
    controlField := ⟨0x00, 0x7E, 0x00, 0x00⟩ }
  { r with crc := r.crcOf }

/-- It is the only record of the store. -/
def storedAt (timeSecs : UInt32) : Memory := ((recordAt timeSecs).write andChip erasedFlash BEGIN).1

theorem read_storedAt (timeSecs : UInt32) :
    (storedAt timeSecs).read BEGIN size = (recordAt timeSecs).bytes :=
  read_write andChip _ fun _ _ _ => rfl

theorem checks_storedAt (timeSecs : UInt32) : Checks (storedAt timeSecs) BEGIN :=
  (checks_iff_of_stored (read_storedAt timeSecs)).mpr ⟨rfl, rfl, rfl⟩

theorem final_ordinary : Final andChip 1 (storedAt 1700000000) BEGIN := by
  refine (final_iff andChip 1 _ begin_mem_slots).mpr ⟨fun _ => ?_, fun hnot => ?_⟩
  · rw [timeSecsAt_of_stored (read_storedAt _)]
    decide
  · exact absurd (checks_storedAt _) hnot

/-- **A record measured on 12 January 2021, 08:35:13**, is valid behind `Erase` too. -/
theorem not_final_silent :
    ¬ ∀ (chip : Chip) (turns : ℕ) (flash : Memory) (a : ℕ), a ∈ slots → isValid flash a = true →
        Final chip turns flash a := by
  intro hall
  have hchecks := checks_storedAt 0x5FFD5F41
  have hfinal := hall andChip 1 (storedAt 0x5FFD5F41) BEGIN begin_mem_slots hchecks.isValid
  have hsilent : ChecksAsZero (storedAt 0x5FFD5F41) BEGIN := by
    rw [hchecks.checksAsZero_iff, timeSecsAt_of_stored (read_storedAt _)]
    decide
  have hnot := hfinal.not_valid
  rw [isValid_erase_iff_checksAsZero.mpr hsilent] at hnot
  exact absurd hnot (by decide)

end MemoryStorage

end USKD
