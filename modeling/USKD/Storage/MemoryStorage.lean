import Mathlib.Data.List.Nodup
import Mathlib.Data.List.Perm.Subperm
import Mathlib.Data.List.Range
import USKD.Lib.NorFlash
import USKD.Utils.Math

/-!
# `MemoryStorage`: the record area of the flash

The device keeps measurement records (`StructData`, 28 bytes) in the last 56 KiB of
its flash.  A slot is written once, is invalidated by programming zero over its
first word, and becomes writable again only by `EraseFull`.

Floats enter as their 32-bit patterns and the three percentages as the byte that
`(uint8)(x + 0.5f)` leaves.  The constructor initialises neither `crc` nor the
padding byte after `humidity`, so both are arguments of `StructData.new` of which
nothing is known; `control_field` is a `BitSet32`, whose default is the word zero.

`StructData::IsEmpty` is a parameter here: the functions below use it only through
its answer, and `IsEmptySpec` is the reading its callers rely on.
-/

namespace USKD

open NorFlash

/-- `struct StructData` with the fields of its `Measurements`. -/
structure StructData where
  timeSecs : UInt32
  latitude : UInt32
  longitude : UInt32
  radiosity : UInt32
  charge : UInt8
  temperature : UInt8
  humidity : UInt8
  padding : UInt8
  crc : UInt32
  controlField : Word
deriving DecidableEq

namespace StructData

/-- `sizeof(StructData)`. -/
def size : ℕ := 28

/-- The constructor `StructData(time, charge, latitude, …)`.  `timeSecs` is the value
of `_time.ToSecs()`; `padding` and `crc` are whatever the memory held. -/
def new (timeSecs latitude longitude radiosity : UInt32) (charge temperature humidity : UInt8)
    (padding : UInt8) (crc : UInt32) : StructData where
  timeSecs := timeSecs
  latitude := latitude
  longitude := longitude
  radiosity := radiosity
  charge := charge
  temperature := temperature
  humidity := humidity
  padding := padding
  crc := crc
  controlField := .zero

/-- The record was made by the constructor and not changed since. -/
def Constructed (r : StructData) : Prop :=
  ∃ t la lo ra c te hu p crc, r = new t la lo ra c te hu p crc

theorem Constructed.controlField {r : StructData} (h : r.Constructed) :
    r.controlField = .zero := by
  obtain ⟨t, la, lo, ra, c, te, hu, p, crc, rfl⟩ := h
  rfl

/-- The bytes of a record in memory. -/
def bytes (r : StructData) : List UInt8 :=
  (Word.ofUInt32 r.timeSecs).bytes ++ (Word.ofUInt32 r.latitude).bytes ++
    (Word.ofUInt32 r.longitude).bytes ++ (Word.ofUInt32 r.radiosity).bytes ++
    [r.charge, r.temperature, r.humidity, r.padding] ++ (Word.ofUInt32 r.crc).bytes ++
    r.controlField.bytes

@[simp] theorem length_bytes (r : StructData) : r.bytes.length = size := rfl

/-- `StructData::CalculateCRC`: everything before `crc` and `control_field`. -/
def calculateCRC (flash : Memory) (address : ℕ) : UInt32 :=
  Math.calculateCRC (flash.read address (size - 4 - 4))

/-- `StructData::IsValid` on the slot at `address`. -/
def isValid (flash : Memory) (address : ℕ) : Bool :=
  if flash.word address = .erased then true
  else
    (flash.word (address + 20)).toUInt32 = calculateCRC flash address ∧
      flash (address + 24) = 0x00 ∧ flash (address + 25) = 0x7E

/-- `StructData::Erase`: program zero over the first word. -/
def erase (chip : Chip) (flash : Memory) (address : ℕ) : Memory :=
  programBytes chip flash address Word.zero.bytes

/-- `StructData::Write`: program the record and compare it with what is there. -/
def write (chip : Chip) (flash : Memory) (r : StructData) (address : ℕ) : Memory × Bool :=
  let flash' := programBytes chip flash address r.bytes
  (flash', flash'.read address size = r.bytes)

theorem isValid_congr {flash flash' : Memory} {a : ℕ}
    (h : ∀ x, a ≤ x → x < a + size → flash x = flash' x) :
    isValid flash a = isValid flash' a := by
  have hsize : size = 28 := rfl
  have hword : ∀ k, k + 4 ≤ 28 → flash.word (a + k) = flash'.word (a + k) := fun k hk => by
    simp only [Memory.word, Word.mk.injEq]
    exact ⟨h _ (by omega) (by omega), h _ (by omega) (by omega), h _ (by omega) (by omega),
      h _ (by omega) (by omega)⟩
  have hcrc : calculateCRC flash a = calculateCRC flash' a := by
    rw [calculateCRC, calculateCRC, Memory.read_congr fun x hx hx' => h x hx (by omega)]
  rw [isValid, isValid, show flash.word a = flash'.word a from hword 0 (by omega),
    hword 20 (by omega),
    hcrc, h (a + 24) (by omega) (by omega), h (a + 25) (by omega) (by omega)]

theorem erase_of_outside (chip : Chip) (flash : Memory) {a x : ℕ} (h : x < a ∨ a + size ≤ x) :
    erase chip flash a x = flash x :=
  programBytes_of_outside chip flash a _ (by have : size = 28 := rfl; simp; omega)

theorem write_of_outside (chip : Chip) (flash : Memory) (r : StructData) {a x : ℕ}
    (h : x < a ∨ a + size ≤ x) : (r.write chip flash a).1 x = flash x :=
  programBytes_of_outside chip flash a _ (by simpa using h)

/-- A record written to an erased slot is stored as it is. -/
theorem read_write (chip : Chip) {flash : Memory} (r : StructData) {a : ℕ}
    (herased : flash.ErasedOn a size) : (r.write chip flash a).1.read a size = r.bytes :=
  read_programBytes chip flash a r.bytes (by simp [size]) herased

/-! ### What a stored record shows -/

section Stored

variable {flash : Memory} {a : ℕ} {r : StructData}

theorem stored_byte (h : flash.read a size = r.bytes) {i : ℕ} (hi : i < size) :
    r.bytes[i]? = some (flash (a + i)) := by
  rw [← h, Memory.getElem?_read flash a hi]

theorem stored_word (h : flash.read a size = r.bytes) :
    flash.word a = Word.ofUInt32 r.timeSecs := by
  have h0 := stored_byte h (i := 0) (by decide)
  have h1 := stored_byte h (i := 1) (by decide)
  have h2 := stored_byte h (i := 2) (by decide)
  have h3 := stored_byte h (i := 3) (by decide)
  simp only [bytes, Word.bytes, List.cons_append, List.nil_append,
    List.getElem?_cons_zero, List.getElem?_cons_succ, Option.some.injEq] at h0 h1 h2 h3
  simp only [Memory.word, ← h1, ← h2, ← h3]
  rw [← show (Word.ofUInt32 r.timeSecs).b0 = flash a from h0]

theorem stored_control (h : flash.read a size = r.bytes) :
    flash (a + 25) = r.controlField.b1 := by
  have h25 := stored_byte h (i := 25) (by decide)
  simpa [bytes, Word.bytes, eq_comm] using h25

/-- The slot of a stored record is not empty: its control field is zero, not erased. -/
theorem not_erasedOn (hr : r.Constructed) (h : flash.read a size = r.bytes) :
    ¬ flash.ErasedOn a size := by
  intro herased
  have h25 := stored_control h
  rw [herased (a + 25) (by omega) (by simp [size]), hr.controlField] at h25
  exact absurd h25 (by decide)

/-- **What the validity check says of a constructed record.**  `IsValid` wants `0x7E`
in the second byte of `control_field`, where the constructor leaves zero, so it
accepts the record only through its first branch, `*pointer == (uint)-1`. -/
theorem isValid_iff_of_constructed (hr : r.Constructed) (h : flash.read a size = r.bytes) :
    isValid flash a = true ↔ r.timeSecs = 0xFFFFFFFF := by
  rw [isValid, stored_word h, stored_control h, hr.controlField]
  by_cases ht : Word.ofUInt32 r.timeSecs = .erased
  · simp [(Word.ofUInt32_eq_erased_iff _).mp ht, Word.ofUInt32_eq_erased_iff]
  · have hne : r.timeSecs ≠ 0xFFFFFFFF := fun heq => ht ((Word.ofUInt32_eq_erased_iff _).mpr heq)
    simp [ht, hne, Word.zero]

end Stored

end StructData

namespace MemoryStorage

/-- `MemoryStorage::BEGIN`. -/
def BEGIN : ℕ := 0x8000000 + 200 * 1024

/-- `MemoryStorage::END`. -/
def END : ℕ := 0x8000000 + 256 * 1024

/-- The number of slots. -/
def numSlots : ℕ := (END - BEGIN) / StructData.size

/-- The addresses the loops `for (p = BEGIN; p < END; p++)` visit. -/
@[irreducible] def slots : List ℕ := (List.range numSlots).map fun i => BEGIN + StructData.size * i

@[simp] theorem length_slots : slots.length = numSlots := by
  unfold slots
  simp only [List.length_map, List.length_range]

theorem mem_slots_iff {a : ℕ} :
    a ∈ slots ↔ ∃ i < numSlots, a = BEGIN + StructData.size * i := by
  unfold slots
  simp only [List.mem_map, List.mem_range, eq_comm]

theorem nodup_slots : slots.Nodup := by
  unfold slots
  refine List.nodup_range.map fun i j h => ?_
  simp only [StructData.size] at h
  omega

/-- Two slots do not overlap. -/
theorem slots_disjoint {a b : ℕ} (ha : a ∈ slots) (hb : b ∈ slots) (hne : a ≠ b) :
    a + StructData.size ≤ b ∨ b + StructData.size ≤ a := by
  obtain ⟨i, -, rfl⟩ := mem_slots_iff.mp ha
  obtain ⟨j, -, rfl⟩ := mem_slots_iff.mp hb
  simp only [StructData.size] at *
  omega

/-- A slot lies in the record area. -/
theorem slots_bounds {a : ℕ} (ha : a ∈ slots) : BEGIN ≤ a ∧ a + StructData.size ≤ END := by
  obtain ⟨i, hi, rfl⟩ := mem_slots_iff.mp ha
  have hnum : numSlots = 2048 := rfl
  have hend : END = BEGIN + 28 * 2048 := rfl
  simp only [StructData.size]
  omega

variable (chip : Chip) (isEmpty : Memory → ℕ → Bool)

/-- `IsEmpty` means that every byte of the slot is `0xFF`. -/
def IsEmptySpec : Prop :=
  ∀ flash a, isEmpty flash a = true ↔ Memory.ErasedOn flash a StructData.size

/-- One turn of the loop of `MemoryStorage::Init`. -/
def initSlot (flash : Memory) (a : ℕ) : Memory :=
  if isEmpty flash a then flash
  else if StructData.isValid flash a then flash
  else StructData.erase chip flash a

/-- `MemoryStorage::Init`: the boot scan, which erases what is not valid. -/
def init (flash : Memory) : Memory := slots.foldl (initSlot chip isEmpty) flash

/-- `MemoryStorage::FindFirstEmpty`. -/
def findFirstEmpty (flash : Memory) : Option ℕ := slots.find? (isEmpty flash)

/-- `HAL_ROM::SIZE_PAGE`. -/
def sizePage : ℕ := 2 * 1024

/-- `MemoryStorage::EraseFull`: every page from `BEGIN` up to `END`. -/
def eraseFull (flash : Memory) : Memory :=
  (List.range ((END - BEGIN) / sizePage)).foldl
    (fun flash i => erasePage sizePage flash (BEGIN + sizePage * i)) flash

/-- `MemoryStorage::Data::Append`: the flash after it, and the slot it used. -/
def append (flash : Memory) (r : StructData) : Memory × ℕ :=
  match findFirstEmpty isEmpty flash with
  | some a => ((r.write chip flash a).1, a)
  | none => ((r.write chip (eraseFull flash) BEGIN).1, BEGIN)

variable {chip isEmpty}

theorem initSlot_of_ne {flash : Memory} {a b : ℕ} (ha : a ∈ slots) (hb : b ∈ slots) (hne : a ≠ b) :
    ∀ x, b ≤ x → x < b + StructData.size → initSlot chip isEmpty flash a x = flash x := by
  intro x hx hx'
  have hdis := slots_disjoint ha hb hne
  unfold initSlot
  split
  · rfl
  · split
    · rfl
    · exact StructData.erase_of_outside chip flash (by omega)

theorem initSlot_of_kept {flash : Memory} {a : ℕ}
    (hkept : isEmpty flash a = true ∨ StructData.isValid flash a = true) :
    initSlot chip isEmpty flash a = flash := by
  unfold initSlot
  rcases hkept with h | h
  · rw [if_pos h]
  · rw [if_pos h]; split <;> rfl

/-- A slot that the scan finds empty or valid keeps its bytes. -/
theorem init_of_kept (chip : Chip) (hE : IsEmptySpec isEmpty) (flash : Memory) {b : ℕ}
    (hb : b ∈ slots)
    (hkept : isEmpty flash b = true ∨ StructData.isValid flash b = true) :
    ∀ x, b ≤ x → x < b + StructData.size → init chip isEmpty flash x = flash x := by
  -- the scan changes the flash from slot to slot, but not at `b`
  suffices hfold : ∀ (l : List ℕ) (m : Memory), (∀ a ∈ l, a ∈ slots) →
      (∀ x, b ≤ x → x < b + StructData.size → m x = flash x) →
      ∀ x, b ≤ x → x < b + StructData.size → l.foldl (initSlot chip isEmpty) m x = flash x from
    hfold slots flash (fun _ h => h) fun _ _ _ => rfl
  intro l
  induction l with
  | nil => intro m _ hm; exact hm
  | cons a l ih =>
      intro m hl hm
      refine ih _ (fun c hc => hl c (List.mem_cons_of_mem _ hc)) fun x hx hx' => ?_
      by_cases hab : a = b
      · subst hab
        rw [initSlot_of_kept, hm x hx hx']
        rcases hkept with h | h
        · exact Or.inl ((hE m a).mpr fun y hy hy' => by
            rw [hm y hy hy']; exact (hE flash a).mp h y hy hy')
        · exact Or.inr (by rw [StructData.isValid_congr hm, h])
      · rw [initSlot_of_ne (hl a List.mem_cons_self) hb hab x hx hx', hm x hx hx']

end MemoryStorage

end USKD
