import USKD.Storage.Erasure

/-!
# Reading a record back

`StructData::Write` programs a record and compares it with what is there.  `StructData::Read` is
meant as its inverse, but its `memcpy` has the arguments the other way round: it stores the object
at the address, and the object stays as it was.  What `Read` returns is then a fact about the
object only.  The check it makes is also not the one of `IsValid`: `control_field` must be zero,
where `IsValid` wants `0x7E` in its second byte.

* `undoes_iff` says which records are read back: the object that is read into is the record
  already, and the record is one that `Read` accepts.
* `readsExactly_iff` says when the answers of `Read` are those of `IsValid`: all slots are accepted
  by `IsValid`, or none, as the object is by `Read`.
-/

namespace USKD

open NorFlash

namespace StructData

/-- `StructData::IsValid` of a record in memory. -/
def isValidOf (r : StructData) : Bool :=
  if r.timeSecs = 0xFFFFFFFF then true
  else r.crc = r.crcOf ∧ r.controlField.b0 = 0x00 ∧ r.controlField.b1 = 0x7E

/-- What `StructData::Read` checks. -/
def ReadCheck (o : StructData) : Prop := o.crcOf = o.crc ∧ o.controlField.toUInt32 = 0

instance (o : StructData) : Decidable o.ReadCheck := inferInstanceAs (Decidable (_ ∧ _))

/-- `StructData::Read(address)` of the object `o`: the memory behind it, the object behind it, and
the answer. -/
def read (bus : Bus) (flash : Memory) (o : StructData) (address : ℕ) : Memory × StructData × Bool :=
  -- `memcpy((void *)address, this, sizeof(StructData))`
  (bus.store flash address o.bytes, o, o.ReadCheck)

/-- **`Read` undoes `Write`**: if the record is written, it is read into the object, and the memory
at the address stays as it is. -/
def Undoes (bus : Bus) (chip : Chip) (flash : Memory) (r : StructData) (a : ℕ) (o : StructData) :
    Prop :=
  let written := r.write chip flash a
  written.2 = true →
    (o.read bus written.1 a).2 = (r, true) ∧
      ∀ x, a ≤ x → x < a + size → (o.read bus written.1 a).1 x = written.1 x

/-- `IsValid` accepts the slot as a record: it is not an empty one. -/
def AcceptedAt (flash : Memory) (a : ℕ) : Prop :=
  isValid flash a = true ∧ ¬ flash.ErasedOn a size

/-- `Read` into the object answers for every slot as `IsValid` does. -/
def ReadsExactly (bus : Bus) (flash : Memory) (o : StructData) : Prop :=
  ∀ a ∈ MemoryStorage.slots, (o.read bus flash a).2.2 = true ↔ AcceptedAt flash a

variable {bus : Bus} {chip : Chip} {flash : Memory} {a : ℕ} {o r : StructData}

/-- The answer of `Read` is about the object. -/
theorem read_answer : (o.read bus flash a).2.2 = true ↔ o.ReadCheck := by
  simp only [read, decide_eq_true_eq]

/-- To an erased slot a record is always written. -/
theorem write_succeeds (herased : flash.ErasedOn a size) : (r.write chip flash a).2 = true :=
  decide_eq_true (read_write chip r herased)

/-- **Which records are read back.** -/
theorem undoes_iff (herased : flash.ErasedOn a size) :
    Undoes bus chip flash r a o ↔ o = r ∧ r.ReadCheck := by
  have hstored := read_write chip r herased
  constructor
  · intro hundoes
    obtain ⟨hread, -⟩ := hundoes (write_succeeds herased)
    obtain ⟨hobject, hanswer⟩ := Prod.mk.inj hread
    change o = r at hobject
    rw [← hobject]
    exact ⟨rfl, of_decide_eq_true hanswer⟩
  · rintro ⟨rfl, hcheck⟩
    intro _
    refine ⟨congrArg (Prod.mk o) (decide_eq_true hcheck), ?_⟩
    exact bus.store_same _ a o.bytes hstored

/-- **When `Read` answers as `IsValid` does.** -/
theorem readsExactly_iff :
    ReadsExactly bus flash o ↔
      if o.ReadCheck then ∀ a ∈ MemoryStorage.slots, AcceptedAt flash a
      else ∀ a ∈ MemoryStorage.slots, ¬ AcceptedAt flash a := by
  unfold ReadsExactly
  simp only [read_answer]
  by_cases hcheck : o.ReadCheck
  · simp only [hcheck, true_iff, if_true]
  · simp only [hcheck, false_iff, if_false]

/-- A record that both checks accept has the time `(uint)-1`. -/
theorem ReadCheck.timeSecs_eq (hcheck : r.ReadCheck) (hvalid : r.isValidOf = true) :
    r.timeSecs = 0xFFFFFFFF := by
  by_contra htime
  rw [isValidOf, if_neg htime, decide_eq_true_iff] at hvalid
  have hzero : r.controlField = .zero := (@Word.toUInt32_inj r.controlField .zero).mp hcheck.2
  have hcontrol := hvalid.2.2
  rw [hzero] at hcontrol
  exact absurd hcontrol (by decide)

/-- **When `Read` undoes `Write`.**  For a record that `IsValid` accepts and an erased address: the
object is the record already, its time is `(uint)-1`, its checksum right and its control field zero.
And for any contents of the store: `IsValid` accepts all slots as records, and `Read` the object, or
neither accepts any. -/
theorem undoes_write_iff (bus : Bus) (chip : Chip) (o : StructData) :
    (∀ (r : StructData) (flash : Memory) (a : ℕ), r.isValidOf = true → flash.ErasedOn a size →
      (Undoes bus chip flash r a o ↔ o = r ∧ r.timeSecs = 0xFFFFFFFF ∧ r.ReadCheck)) ∧
    ∀ flash : Memory, ReadsExactly bus flash o ↔
      if o.ReadCheck then ∀ a ∈ MemoryStorage.slots, AcceptedAt flash a
      else ∀ a ∈ MemoryStorage.slots, ¬ AcceptedAt flash a := by
  refine ⟨fun r flash a hvalid herased => ?_, fun flash => readsExactly_iff⟩
  rw [undoes_iff herased]
  constructor
  · rintro ⟨hobject, hcheck⟩
    exact ⟨hobject, hcheck.timeSecs_eq hvalid, hcheck⟩
  · rintro ⟨hobject, -, hcheck⟩
    exact ⟨hobject, hcheck⟩

/-- A record that both checks accept. -/
def timelessRecord : StructData :=
  let r := StructData.new 0xFFFFFFFF 0 0 0 90 20 40 0 0
  { r with crc := r.crcOf }

/-- It is read back into an object that is the same; and in an empty store there is nothing to
read. -/
theorem undoes_timelessRecord :
    Undoes ramBus andChip MemoryStorage.erasedFlash timelessRecord MemoryStorage.BEGIN
        timelessRecord ∧
      ReadsExactly ramBus MemoryStorage.erasedFlash (MemoryStorage.recordAt 1700000000) := by
  have herased : MemoryStorage.erasedFlash.ErasedOn MemoryStorage.BEGIN size := fun _ _ _ => rfl
  constructor
  · have hiff := (undoes_write_iff ramBus andChip timelessRecord).1 timelessRecord
      MemoryStorage.erasedFlash MemoryStorage.BEGIN (by decide) herased
    exact hiff.mpr ⟨rfl, rfl, by decide⟩
  · rw [(undoes_write_iff ramBus andChip _).2, if_neg (by decide)]
    intro a _ haccepted
    exact haccepted.2 fun _ _ _ => rfl

/-- **An ordinary record** is not read into the object of another one. -/
theorem not_undoes_ordinary :
    ¬ ∀ (bus : Bus) (chip : Chip) (flash : Memory) (r : StructData) (a : ℕ) (o : StructData),
        r.isValidOf = true → a ∈ MemoryStorage.slots → flash.ErasedOn a size →
          Undoes bus chip flash r a o := by
  intro hall
  have herased : MemoryStorage.erasedFlash.ErasedOn MemoryStorage.BEGIN size := fun _ _ _ => rfl
  have hundoes := hall ramBus andChip MemoryStorage.erasedFlash (MemoryStorage.recordAt 1700000000)
    MemoryStorage.BEGIN (MemoryStorage.recordAt 1700000001) (by decide)
    MemoryStorage.begin_mem_slots herased
  have hobject := ((undoes_iff herased).mp hundoes).1
  exact absurd (congrArg timeSecs hobject) (by decide)

end StructData

end USKD
