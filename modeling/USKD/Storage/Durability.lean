import USKD.Lib.Run
import USKD.Storage.MemoryStorage

/-!
# Histories of the record store

A history is any sequence of `Data::Append`, `Data::Erase` and reboots
(`MemoryStorage::Init`).  Beside the flash the state keeps the list `live` of the
records given to the store and not erased since, each with the slot it went to;
`Durable` says that the store still has them: unchanged, and accepted by `IsValid`.

A record survives the boot scan only if `IsValid` accepts it, and for a record that
comes straight from the constructor `IsValid` looks at a control field nobody has
filled in (`StructData.isValid_iff_of_constructed`).  `durable_iff` says exactly which
histories that leaves.
-/

namespace USKD.MemoryStorage

open NorFlash LTS

/-- The flash, and the records stored and not erased since with their slots. -/
structure History where
  flash : Memory
  live : List (ℕ × StructData)

/-- A call into the store. -/
inductive Op
  /-- `MemoryStorage::Data::Append`. -/
  | append (r : StructData)
  /-- `MemoryStorage::Data::Erase` on the slot of a stored record. -/
  | erase (a : ℕ)
  /-- A reboot: `MemoryStorage::Init`. -/
  | reboot

/-- The number of records a history appends. -/
def appends (ops : List Op) : ℕ :=
  ops.countP fun op => op matches .append _

/-- One call.  `Data::Erase` is called with the pointer of a stored record.  `GetOldest` also
returns slots that are erased already, and ones that have never been used; what `Erase` does to
those is left out. -/
def step (chip : Chip) (isEmpty : Memory → ℕ → Bool) (h : History) : Op → Option History
  | .append r =>
      let stored := append chip isEmpty h.flash r
      some ⟨stored.1, h.live ++ [(stored.2, r)]⟩
  | .erase a =>
      if a ∈ h.live.map Prod.fst then
        some ⟨StructData.erase chip h.flash a, h.live.filter fun e => e.1 ≠ a⟩
      else none
  | .reboot => some ⟨init chip isEmpty h.flash, h.live⟩

/-- Every live record is in its slot with unchanged contents and satisfies `IsValid`. -/
def Durable (h : History) : Prop :=
  ∀ a r, (a, r) ∈ h.live →
    h.flash.read a StructData.size = r.bytes ∧ StructData.isValid h.flash a = true

/-- The record area as `EraseFull` leaves it. -/
def AreaErased (flash : Memory) : Prop := flash.ErasedOn BEGIN (END - BEGIN)

section

variable {chip : Chip} {isEmpty : Memory → ℕ → Bool}

theorem erasedOn_of_areaErased {flash : Memory} (h : AreaErased flash) {a : ℕ} (ha : a ∈ slots) :
    flash.ErasedOn a StructData.size := by
  have hb := slots_bounds ha
  intro x hx hx'
  exact h x (by omega) (by omega)

/-- The invariant of histories whose appended records all pass `IsValid`: live records
are stored and pass it, and every slot outside `used` is still erased. -/
structure Kept (used : List ℕ) (h : History) : Prop where
  slot : ∀ a r, (a, r) ∈ h.live → a ∈ slots ∧ a ∈ used
  stored : ∀ a r, (a, r) ∈ h.live → h.flash.read a StructData.size = r.bytes
  constructed : ∀ a r, (a, r) ∈ h.live → r.Constructed ∧ r.timeSecs = 0xFFFFFFFF
  fresh : ∀ a ∈ slots, a ∉ used → h.flash.ErasedOn a StructData.size

theorem Kept.isValid {used : List ℕ} {h : History} (hk : Kept used h) {a : ℕ} {r : StructData}
    (hmem : (a, r) ∈ h.live) : StructData.isValid h.flash a = true :=
  (StructData.isValid_iff_of_constructed (hk.constructed a r hmem).1 (hk.stored a r hmem)).mpr
    (hk.constructed a r hmem).2

theorem Kept.durable {used : List ℕ} {h : History} (hk : Kept used h) : Durable h :=
  fun a r hmem => ⟨hk.stored a r hmem, hk.isValid hmem⟩

/-- While some slot is unused, `FindFirstEmpty` finds an erased slot that no live record
occupies. -/
theorem Kept.findFirstEmpty (hE : IsEmptySpec isEmpty) {used : List ℕ} {h : History}
    (hk : Kept used h) (hroom : used.length < numSlots) :
    ∃ a, findFirstEmpty isEmpty h.flash = some a ∧ a ∈ slots ∧
      h.flash.ErasedOn a StructData.size ∧ ∀ b r, (b, r) ∈ h.live → a ≠ b := by
  have hsome : (MemoryStorage.findFirstEmpty isEmpty h.flash).isSome := by
    obtain ⟨a, ha, hfree⟩ : ∃ a ∈ slots, a ∉ used := by
      by_contra hall
      push Not at hall
      have hle := (nodup_slots.subperm hall).length_le
      rw [length_slots] at hle
      omega
    rw [MemoryStorage.findFirstEmpty, List.find?_isSome]
    exact ⟨a, ha, (hE _ _).mpr (hk.fresh a ha hfree)⟩
  obtain ⟨a, hfound⟩ := Option.isSome_iff_exists.mp hsome
  have hfind : slots.find? (isEmpty h.flash) = some a := hfound
  have herased := (hE _ _).mp (List.find?_some hfind)
  refine ⟨a, hfound, List.mem_of_find?_eq_some hfind, herased, ?_⟩
  rintro b r hmem rfl
  exact StructData.not_erasedOn (hk.constructed a r hmem).1 (hk.stored a r hmem) herased

/-- A flash that agrees on the slots of the live records still stores them. -/
theorem Kept.stored_of_agree {used : List ℕ} {h : History} (hk : Kept used h) (flash : Memory)
    {a : ℕ} {r : StructData} (hmem : (a, r) ∈ h.live)
    (hagree : ∀ x, a ≤ x → x < a + StructData.size → flash x = h.flash x) :
    flash.read a StructData.size = r.bytes := by
  rw [Memory.read_congr hagree, hk.stored a r hmem]

theorem Kept.append (hE : IsEmptySpec isEmpty) {used : List ℕ} {h h' : History} (hk : Kept used h)
    (hroom : used.length < numSlots) {r : StructData} (hr : r.Constructed)
    (ht : r.timeSecs = 0xFFFFFFFF) (hstep : step chip isEmpty h (.append r) = some h') :
    ∃ a, Kept (a :: used) h' := by
  obtain ⟨a, hfound, ha, herased, hother⟩ := hk.findFirstEmpty hE hroom
  simp only [step, MemoryStorage.append, hfound, Option.some.injEq] at hstep
  subst hstep
  -- what is written lies in one slot, which no live record has
  have hwrite : ∀ b ∈ slots, a ≠ b → ∀ x, b ≤ x → x < b + StructData.size →
      (r.write chip h.flash a).1 x = h.flash x := fun b hb hne x hx hx' => by
    have hdis := slots_disjoint ha hb hne
    exact StructData.write_of_outside chip h.flash r (by omega)
  refine ⟨a, ⟨?_, ?_, ?_, ?_⟩⟩
  · intro b s hmem
    rcases List.mem_append.mp hmem with hold | hnew
    · exact ⟨(hk.slot b s hold).1, List.mem_cons_of_mem _ (hk.slot b s hold).2⟩
    · obtain ⟨rfl, rfl⟩ : b = a ∧ s = r := by simpa using hnew
      exact ⟨ha, List.mem_cons_self⟩
  · intro b s hmem
    rcases List.mem_append.mp hmem with hold | hnew
    · exact hk.stored_of_agree _ hold (hwrite b (hk.slot b s hold).1 (hother b s hold))
    · obtain ⟨rfl, rfl⟩ : b = a ∧ s = r := by simpa using hnew
      exact StructData.read_write chip s herased
  · intro b s hmem
    rcases List.mem_append.mp hmem with hold | hnew
    · exact hk.constructed b s hold
    · obtain ⟨rfl, rfl⟩ : b = a ∧ s = r := by simpa using hnew
      exact ⟨hr, ht⟩
  · intro b hb hnot x hx hx'
    have hne : a ≠ b := by rintro rfl; exact hnot List.mem_cons_self
    refine (hwrite b hb hne x hx hx').trans ?_
    exact hk.fresh b hb (fun hu => hnot (List.mem_cons_of_mem _ hu)) x hx hx'

theorem Kept.erase {used : List ℕ} {h h' : History} (hk : Kept used h) {a : ℕ}
    (hstep : step chip isEmpty h (.erase a) = some h') : Kept used h' := by
  simp only [step] at hstep
  split at hstep
  · rename_i hlive
    obtain ⟨⟨a', r⟩, hmem, rfl⟩ := List.mem_map.mp hlive
    obtain rfl : _ = h' := by simpa using hstep
    obtain ⟨ha, hused⟩ := hk.slot a' r hmem
    have herase : ∀ b ∈ slots, a' ≠ b → ∀ x, b ≤ x → x < b + StructData.size →
        StructData.erase chip h.flash a' x = h.flash x := fun b hb hne x hx hx' => by
      have hdis := slots_disjoint ha hb hne
      exact StructData.erase_of_outside chip h.flash (by omega)
    refine ⟨?_, ?_, ?_, ?_⟩
    · intro b s hb
      exact hk.slot b s (List.mem_of_mem_filter hb)
    · intro b s hb
      obtain ⟨hold, hne⟩ := List.mem_filter.mp hb
      exact hk.stored_of_agree _ hold
        (herase b (hk.slot b s hold).1 fun heq => by simp [heq] at hne)
    · intro b s hb
      exact hk.constructed b s (List.mem_of_mem_filter hb)
    · intro b hb hnot x hx hx'
      have hne : a' ≠ b := by rintro rfl; exact hnot hused
      show StructData.erase chip h.flash a' x = 0xFF
      rw [herase b hb hne x hx hx']
      exact hk.fresh b hb hnot x hx hx'
  · exact absurd hstep (by simp)

theorem Kept.reboot (hE : IsEmptySpec isEmpty) {used : List ℕ} {h h' : History} (hk : Kept used h)
    (hstep : step chip isEmpty h .reboot = some h') : Kept used h' := by
  obtain rfl : _ = h' := by simpa [step] using hstep
  refine ⟨hk.slot, ?_, hk.constructed, ?_⟩
  · intro b s hmem
    exact hk.stored_of_agree (init chip isEmpty h.flash) hmem
      (init_of_kept chip hE h.flash (hk.slot b s hmem).1 (Or.inr (hk.isValid hmem)))
  · intro b hb hnot x hx hx'
    have herased := hk.fresh b hb hnot
    show init chip isEmpty h.flash x = 0xFF
    rw [init_of_kept chip hE h.flash hb (Or.inl ((hE _ _).mpr herased)) x hx hx', herased x hx hx']

/-- **One call keeps the invariant**, with one more slot used by an append. -/
theorem Kept.step (hE : IsEmptySpec isEmpty) {used : List ℕ} {h h' : History} (hk : Kept used h)
    (hroom : used.length < numSlots) {op : Op}
    (hop : ∀ r, op = .append r → r.Constructed ∧ r.timeSecs = 0xFFFFFFFF)
    (hstep : MemoryStorage.step chip isEmpty h op = some h') :
    ∃ used', used'.length = used.length + appends [op] ∧ Kept used' h' := by
  cases op with
  | append r =>
      obtain ⟨hr, ht⟩ := hop r rfl
      obtain ⟨a, ha⟩ := hk.append hE hroom hr ht hstep
      exact ⟨a :: used, rfl, ha⟩
  | erase a => exact ⟨used, rfl, hk.erase hstep⟩
  | reboot => exact ⟨used, rfl, hk.reboot hE hstep⟩

/-- **A whole history keeps the invariant** when every appended record carries the time
`(uint)-1` and fewer records are appended than there are slots. -/
theorem kept_run (hE : IsEmptySpec isEmpty) {flash : Memory} (herased : AreaErased flash)
    {ops : List Op} {h : History} (hrun : Run (stepOf (step chip isEmpty)) ⟨flash, []⟩ ops h)
    (hops : ∀ r, Op.append r ∈ ops → r.Constructed ∧ r.timeSecs = 0xFFFFFFFF)
    (hroom : appends ops < numSlots) :
    ∃ used, used.length = appends ops ∧ Kept used h := by
  induction hrun with
  | nil =>
      refine ⟨[], rfl, ⟨?_, ?_, ?_, fun a ha _ => erasedOn_of_areaErased herased ha⟩⟩ <;>
        simp
  | snoc _ hlast ih =>
      rename_i ops t w op _
      have hcount : appends (ops ++ [op]) = appends ops + appends [op] := by
        simp [appends]
      obtain ⟨used, hlen, hk⟩ := ih (fun r hr => hops r (by simp [hr])) (by omega)
      obtain ⟨used', hlen', hk'⟩ := hk.step hE (by omega)
        (fun r hr => hops r (by simp [hr])) hlast
      exact ⟨used', by omega, hk'⟩

/-- **When the record store is durable.**  Over histories that start from the erased
area, append records as the constructor makes them, and append fewer of them than there
are slots, every record is kept in every state reached if and only if every appended
record carries `time_secs == (uint)-1`: that is the only way `IsValid` accepts a record
whose `crc` and `control_field` were never computed. -/
theorem durable_iff (chip : Chip) (isEmpty : Memory → ℕ → Bool) (hE : IsEmptySpec isEmpty)
    (flash : Memory) (herased : AreaErased flash) (ops : List Op)
    (hcons : ∀ r, Op.append r ∈ ops → r.Constructed) (hroom : appends ops < numSlots)
    (final : History) (hrun : Run (stepOf (step chip isEmpty)) ⟨flash, []⟩ ops final) :
    (∀ pre h, pre <+: ops → Run (stepOf (step chip isEmpty)) ⟨flash, []⟩ pre h → Durable h) ↔
      ∀ r, Op.append r ∈ ops → r.timeSecs = 0xFFFFFFFF := by
  constructor
  · intro hdur r hmem
    obtain ⟨pre, post, rfl⟩ := List.append_of_mem hmem
    obtain ⟨t, hpre, hpost⟩ := Run.split pre _ hrun
    -- the state right behind the call of `Append`
    obtain ⟨stored, hstored⟩ : ∃ h', step chip isEmpty t (.append r) = some h' := ⟨_, rfl⟩
    have hd := hdur (pre ++ [.append r]) stored ⟨post, by simp⟩ (hpre.exec hstored)
    obtain rfl : _ = stored := by simpa [step] using hstored
    obtain ⟨hread, hvalid⟩ := hd (append chip isEmpty t.flash r).2 r (by simp)
    exact (StructData.isValid_iff_of_constructed (hcons r hmem) hread).mp hvalid
  · rintro htime pre h ⟨post, rfl⟩ hpre
    have happ : appends (pre ++ post) = appends pre + appends post := by simp [appends]
    obtain ⟨used, -, hk⟩ := kept_run hE herased hpre
      (fun r hr => ⟨hcons r (by simp [hr]), htime r (by simp [hr])⟩) (by omega)
    exact hk.durable

end

/-- The reading of `IsEmpty` as a check of all bytes of the slot. -/
def allErased (flash : Memory) (a : ℕ) : Bool :=
  (flash.read a StructData.size).all (· == 0xFF)

theorem allErased_spec : IsEmptySpec allErased := by
  intro flash a
  rw [allErased, List.all_eq_true]
  constructor
  · intro h
    exact Memory.erasedOn_of_read fun b hb => by simpa using h b hb
  · intro h b hb
    obtain ⟨i, hi⟩ := List.getElem?_of_mem hb
    have hlt : i < StructData.size := by
      have := (List.getElem?_eq_some_iff.mp hi).1
      simpa using this
    rw [Memory.getElem?_read flash a hlt] at hi
    simp [← Option.some.inj hi, h (a + i) (by omega) (by omega)]

/-- The empty record area. -/
def erasedFlash : Memory := fun _ => 0xFF

theorem areaErased_erasedFlash : AreaErased erasedFlash := fun _ _ _ => rfl

/-- A record measured at an ordinary time, with a zero where `crc` was never written. -/
def ordinaryRecord : StructData := .new 1700000000 0 0 0 90 20 40 0 0

/-- A record whose time is the error value of `mktime`. -/
def untimedRecord : StructData := .new 0xFFFFFFFF 0 0 0 90 20 40 0 0

theorem durable_iff_untimed :
    ∃ final, (∀ pre h, pre <+: [Op.append untimedRecord, .reboot] →
        Run (stepOf (step andChip allErased)) ⟨erasedFlash, []⟩ pre h → Durable h) ∧
      Run (stepOf (step andChip allErased)) ⟨erasedFlash, []⟩
        [.append untimedRecord, .reboot] final := by
  obtain ⟨final, hrun⟩ : ∃ final, Run (stepOf (step andChip allErased)) ⟨erasedFlash, []⟩
      ([] ++ [Op.append untimedRecord] ++ [.reboot]) final :=
    ⟨_, (Run.nil.exec rfl).exec rfl⟩
  refine ⟨final, ?_, hrun⟩
  refine (durable_iff andChip allErased allErased_spec erasedFlash areaErased_erasedFlash
    [.append untimedRecord, .reboot] ?_ (by decide) final hrun).mpr ?_
  · intro r hr
    obtain rfl : r = untimedRecord := by simpa using hr
    exact ⟨_, _, _, _, _, _, _, _, _, rfl⟩
  · intro r hr
    obtain rfl : r = untimedRecord := by simpa using hr
    rfl

/-- **Not every record given to the store is durable**: a record measured at an ordinary
time is not valid as soon as it is stored in the empty area. -/
theorem not_durable_ordinary :
    ¬ ∀ (ops : List Op) (h : History), (∀ r, Op.append r ∈ ops → r.Constructed) →
        appends ops < numSlots →
        Run (stepOf (step andChip allErased)) ⟨erasedFlash, []⟩ ops h → Durable h := by
  intro hall
  have hrun : Run (stepOf (step andChip allErased)) ⟨erasedFlash, []⟩
      ([] ++ [Op.append ordinaryRecord]) _ := Run.nil.exec rfl
  have hcons : ordinaryRecord.Constructed := ⟨_, _, _, _, _, _, _, _, _, rfl⟩
  obtain ⟨hread, hvalid⟩ := hall _ _ (by simpa using hcons) (by decide) hrun _ ordinaryRecord
    List.mem_cons_self
  exact absurd ((StructData.isValid_iff_of_constructed hcons hread).mp hvalid) (by decide)

end USKD.MemoryStorage
