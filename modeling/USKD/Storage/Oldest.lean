import Mathlib.Data.List.MinMax
import USKD.Storage.MemoryStorage

/-!
# `MemoryStorage::Data::GetOldest`

The record that is sent next is the one with the smallest `time_secs`.  `GetOldest` goes over all
slots and keeps the first smallest one that `IsValid` accepts: it is `List.argmin`
(`getOldest_eq`).

`IsValid` accepts more than the records that are there.  A slot that begins with `0xFFFFFFFF` is
accepted as it is, and so are all slots of an empty store; a slot that begins with zero is erased,
and accepted if its checksum holds all the same.  `findsOldest_iff` says for which contents the
answer is a live record nevertheless.
-/

namespace USKD

open NorFlash

namespace StructData

/-- `meas.GetTimeSecs()` of the slot at `address`. -/
def timeSecsAt (flash : Memory) (address : ℕ) : UInt32 := (flash.word address).toUInt32

/-- `StructData::IsErased`. -/
def isErased (flash : Memory) (address : ℕ) : Bool := flash.word address = .zero

/-- The checksum and the control field are those of a record. -/
def Checks (flash : Memory) (address : ℕ) : Prop :=
  (flash.word (address + 20)).toUInt32 = calculateCRC flash address ∧
    flash (address + 24) = 0x00 ∧ flash (address + 25) = 0x7E

instance (flash : Memory) (address : ℕ) : Decidable (Checks flash address) :=
  inferInstanceAs (Decidable (_ ∧ _ ∧ _))

/-- **A live record**: neither empty nor erased, and it checks. -/
structure Live (flash : Memory) (address : ℕ) : Prop where
  not_empty : ¬ flash.ErasedOn address size
  not_erased : isErased flash address = false
  checks : Checks flash address

variable {flash : Memory} {a b : ℕ}

theorem isValid_iff : isValid flash a = true ↔ flash.word a = .erased ∨ Checks flash a := by
  unfold isValid Checks
  by_cases herased : flash.word a = .erased
  · simp [herased]
  · simp [herased]

theorem Checks.isValid (h : Checks flash a) : isValid flash a = true := isValid_iff.mpr (.inr h)

/-- The control field of an empty slot is none of a record. -/
theorem Checks.not_empty (h : Checks flash a) : ¬ flash.ErasedOn a size := by
  intro hempty
  have hcontrol := h.2.1
  rw [hempty (a + 24) (by omega) (by simp [size])] at hcontrol
  exact absurd hcontrol (by decide)

theorem live_iff : Live flash a ↔ Checks flash a ∧ isErased flash a = false :=
  ⟨fun h => ⟨h.checks, h.not_erased⟩, fun h => ⟨h.1.not_empty, h.2, h.1⟩⟩

theorem timeSecsAt_eq_zero_iff : timeSecsAt flash a = 0 ↔ isErased flash a = true := by
  rw [isErased, decide_eq_true_iff]
  exact @Word.toUInt32_inj (flash.word a) .zero

theorem timeSecsAt_eq_max_iff : timeSecsAt flash a = 0xFFFFFFFF ↔ flash.word a = .erased :=
  @Word.toUInt32_inj (flash.word a) .erased

/-! ### A stored record -/

/-- `StructData::CalculateCRC` of a record in memory. -/
def crcOf (r : StructData) : UInt32 := Math.calculateCRC (r.bytes.take (size - 4 - 4))

/-- The checksum and the control field of a record in memory. -/
def ChecksOut (r : StructData) : Prop :=
  r.crc = r.crcOf ∧ r.controlField.b0 = 0x00 ∧ r.controlField.b1 = 0x7E

instance (r : StructData) : Decidable r.ChecksOut := inferInstanceAs (Decidable (_ ∧ _ ∧ _))

variable {r : StructData}

theorem calculateCRC_of_stored (h : flash.read a size = r.bytes) :
    calculateCRC flash a = r.crcOf := by
  have hread : flash.read a 28 = flash.read a 20 ++ flash.read (a + 20) 8 := flash.read_add a 20 8
  have hfront : flash.read a 20 = (flash.read a 28).take 20 := by
    rw [hread, List.take_left' (Memory.length_read flash a 20)]
  rw [crcOf, ← h]
  exact congrArg Math.calculateCRC hfront

/-- **A stored record** checks as it does in memory. -/
theorem checks_iff_of_stored (h : flash.read a size = r.bytes) : Checks flash a ↔ r.ChecksOut := by
  have hbyte : ∀ i < 28, r.bytes[i]? = some (flash (a + i)) := fun i hi => stored_byte h hi
  have h20 := hbyte 20 (by decide)
  have h21 := hbyte 21 (by decide)
  have h22 := hbyte 22 (by decide)
  have h23 := hbyte 23 (by decide)
  have h24 := hbyte 24 (by decide)
  have h25 := hbyte 25 (by decide)
  simp only [bytes, Word.bytes, List.cons_append, List.nil_append, List.getElem?_cons_zero,
    List.getElem?_cons_succ, Option.some.injEq] at h20 h21 h22 h23 h24 h25
  have hcrc : flash.word (a + 20) = Word.ofUInt32 r.crc := by
    simp only [Memory.word, Nat.add_assoc, Nat.reduceAdd, ← h20, ← h21, ← h22, ← h23]
  rw [Checks, ChecksOut, hcrc, Word.toUInt32_ofUInt32, calculateCRC_of_stored h, h24, h25]

theorem timeSecsAt_of_stored (h : flash.read a size = r.bytes) :
    timeSecsAt flash a = r.timeSecs := by
  rw [timeSecsAt, stored_word h, Word.toUInt32_ofUInt32]

end StructData

namespace MemoryStorage

open StructData

/-- One turn of the loop of `GetOldest`. -/
def olderSlot (flash : Memory) (result : Option ℕ) (data : ℕ) : Option ℕ :=
  if isValid flash data then
    match result with
    | none => some data
    | some r => if timeSecsAt flash data < timeSecsAt flash r then some data else some r
  else result

/-- `MemoryStorage::Data::GetOldest`. -/
def getOldest (flash : Memory) : Option ℕ := slots.foldl (olderSlot flash) none

variable {flash : Memory} {a b : ℕ}

theorem eq_max_of_le {time : UInt32} (h : 0xFFFFFFFF ≤ time) : time = 0xFFFFFFFF := by
  have hlt := time.toNat_lt
  simp only [UInt32.le_iff_toNat_le, ← UInt32.toNat_inj, UInt32.reduceToNat] at h ⊢
  omega

/-- **`GetOldest` is `argmin`** over the slots that `IsValid` accepts. -/
theorem getOldest_eq (flash : Memory) :
    getOldest flash =
      (slots.filter (isValid flash)).argmin fun a => (timeSecsAt flash a).toNat := by
  rw [List.argmin, List.foldl_filter, getOldest]
  congr 1
  funext result data
  unfold olderSlot List.argAux
  by_cases hvalid : isValid flash data
  · rw [if_pos hvalid, if_pos hvalid]
    cases result with
    | none => rfl
    | some r => simp only [UInt32.lt_iff_toNat_lt]
  · rw [if_neg hvalid, if_neg hvalid]

/-- What `GetOldest` returns, is accepted and the smallest. -/
theorem getOldest_some (h : getOldest flash = some a) :
    a ∈ slots ∧ isValid flash a = true ∧
      ∀ b ∈ slots, isValid flash b = true → timeSecsAt flash a ≤ timeSecsAt flash b := by
  rw [getOldest_eq] at h
  have ha := List.argmin_mem h
  rw [List.mem_filter] at ha
  refine ⟨ha.1, ha.2, fun b hb hb' => ?_⟩
  have hb : b ∈ slots.filter (isValid flash) := List.mem_filter.mpr ⟨hb, hb'⟩
  have hle := List.le_of_mem_argmin hb h
  exact UInt32.le_iff_toNat_le.mpr hle

theorem getOldest_none (h : getOldest flash = none) :
    ∀ a ∈ slots, ¬ isValid flash a = true := by
  rw [getOldest_eq, List.argmin_eq_none] at h
  intro a ha
  exact List.filter_eq_nil_iff.mp h a ha

/-- **Among slots that begin with `0xFFFFFFFF`** the first one is returned. -/
theorem getOldest_eq_find? (h : getOldest flash = some a) (hmax : flash.word a = .erased) :
    slots.find? (fun b => flash.word b = .erased) = some a := by
  rw [getOldest_eq] at h
  have ha := List.argmin_mem h
  -- all of them are accepted
  have hfilter : slots.find? (fun b => flash.word b = .erased) =
      (slots.filter (isValid flash)).find? fun b => flash.word b = .erased := by
    rw [List.find?_filter]
    congr 1
    funext b
    rw [decide_eq_decide, decide_eq_true_iff]
    exact ⟨fun hb => ⟨isValid_iff.mpr (.inl hb), hb⟩, And.right⟩
  obtain ⟨c, hc⟩ : ∃ c, (slots.filter (isValid flash)).find? (fun b => flash.word b = .erased) =
      some c := by
    rw [← Option.isSome_iff_exists, List.find?_isSome]
    exact ⟨a, ha, decide_eq_true hmax⟩
  rw [hfilter, hc]
  have hcmax : flash.word c = .erased := by simpa using List.find?_some hc
  have hindex := List.index_of_argmin h (List.mem_of_find?_eq_some hc) (by
    rw [timeSecsAt, timeSecsAt, hmax, hcmax])
  obtain ⟨-, front, rest, hsplit, hfront⟩ := List.find?_eq_some_iff_append.mp hc
  rw [hsplit] at ha hindex
  -- the first of them stands in front of all others
  have hnot : ∀ b, flash.word b = .erased → b ∉ front := fun b hb hmem =>
    absurd (hfront b hmem) (by simp [hb])
  rw [List.idxOf_append_of_notMem (hnot a hmax), List.idxOf_append_of_notMem (hnot c hcmax),
    List.idxOf_cons_self] at hindex
  by_contra hne
  rw [List.idxOf_cons_ne _ (fun heq => hne (congrArg some heq))] at hindex
  omega

/-- **No erased slot checks** where the one returned is live: it would be smaller. -/
theorem not_erased_of_getOldest (h : getOldest flash = some a) (hlive : Live flash a)
    (hb : b ∈ slots) (hchecks : Checks flash b) : isErased flash b = false := by
  obtain ⟨-, -, hmin⟩ := getOldest_some h
  by_contra herased
  rw [Bool.not_eq_false, ← timeSecsAt_eq_zero_iff] at herased
  have hle := hmin b hb hchecks.isValid
  rw [herased, UInt32.le_zero_iff, timeSecsAt_eq_zero_iff, hlive.not_erased] at hle
  exact absurd hle (by decide)

/-- **The one returned checks** where a live record is smaller than `(uint)-1`, or the first slot
that begins with it checks. -/
theorem checks_of_getOldest (h : getOldest flash = some a)
    (hothers : (∃ b ∈ slots, Live flash b ∧ timeSecsAt flash b ≠ 0xFFFFFFFF) ∨
      ∀ b, slots.find? (fun c => flash.word c = .erased) = some b → Checks flash b) :
    Checks flash a := by
  obtain ⟨-, hvalid, hmin⟩ := getOldest_some h
  rcases isValid_iff.mp hvalid with hmax | hchecks
  · rcases hothers with ⟨b, hb, hlive, hless⟩ | hfirst
    · have hle := hmin b hb hlive.checks.isValid
      rw [timeSecsAt_eq_max_iff.mpr hmax] at hle
      exact absurd (eq_max_of_le hle) hless
    · exact hfirst a (getOldest_eq_find? h hmax)
  · exact hchecks

/-- **`GetOldest` finds the oldest record**: `nullptr` if there is no live one, else a live one
whose time is the smallest of all live ones. -/
def FindsOldest (flash : Memory) : Prop :=
  match getOldest flash with
  | none => ∀ a ∈ slots, ¬ Live flash a
  | some a => a ∈ slots ∧ Live flash a ∧
      ∀ b ∈ slots, Live flash b → timeSecsAt flash a ≤ timeSecsAt flash b

/-- **When `GetOldest` finds the oldest record.**  No erased slot checks; and a live record has a
time other than `(uint)-1`, or the first slot that begins with it, if there is one, checks. -/
theorem findsOldest_iff (flash : Memory) :
    FindsOldest flash ↔
      (∀ a ∈ slots, Checks flash a → isErased flash a = false) ∧
        ((∃ a ∈ slots, Live flash a ∧ timeSecsAt flash a ≠ 0xFFFFFFFF) ∨
          ∀ a, slots.find? (fun b => flash.word b = .erased) = some a → Checks flash a) := by
  unfold FindsOldest
  cases holdest : getOldest flash with
  | none =>
      have hnone := getOldest_none holdest
      refine iff_of_true (fun a ha hlive => hnone a ha hlive.checks.isValid) ⟨?_, .inr ?_⟩
      · intro a ha hchecks
        exact absurd hchecks.isValid (hnone a ha)
      · intro a hfind
        have herased : flash.word a = .erased := by simpa using List.find?_some hfind
        exact absurd (isValid_iff.mpr (.inl herased)) (hnone a (List.mem_of_find?_eq_some hfind))
  | some a =>
      obtain ⟨ha, -, hmin⟩ := getOldest_some holdest
      constructor
      · rintro ⟨-, hlive, -⟩
        refine ⟨fun b hb hchecks => not_erased_of_getOldest holdest hlive hb hchecks, ?_⟩
        by_cases hmax : timeSecsAt flash a = 0xFFFFFFFF
        · right
          intro b hfind
          rw [getOldest_eq_find? holdest (timeSecsAt_eq_max_iff.mp hmax)] at hfind
          obtain rfl := Option.some.inj hfind
          exact hlive.checks
        · exact .inl ⟨a, ha, hlive, hmax⟩
      · rintro ⟨herased, hothers⟩
        have hchecks : Checks flash a := checks_of_getOldest holdest hothers
        refine ⟨ha, live_iff.mpr ⟨hchecks, herased a ha hchecks⟩, fun b hb hlive => ?_⟩
        exact hmin b hb hlive.checks.isValid

theorem begin_mem_slots : BEGIN ∈ slots := mem_slots_iff.mpr ⟨0, by decide, rfl⟩

/-- **From an empty store** a slot is returned all the same. -/
theorem not_findsOldest_empty : ¬ ∀ flash, FindsOldest flash := by
  intro hall
  have hfinds := hall fun _ => 0xFF
  unfold FindsOldest at hfinds
  have hbegin := begin_mem_slots
  cases holdest : getOldest fun _ => 0xFF with
  | none => exact absurd (isValid_iff.mpr (.inl rfl)) (getOldest_none holdest BEGIN hbegin)
  | some a =>
      rw [holdest] at hfinds
      exact hfinds.2.1.not_empty fun _ _ _ => rfl

end MemoryStorage

end USKD
