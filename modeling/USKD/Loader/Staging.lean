import USKD.Loader.Programmer

/-!
# The staging area: clearing it and filling it

`Prepare` spares the pages that `PageIsEmpty` takes for empty.  That function looks at one
word in four, so a page is cleared for certain only where its left-over bytes **show** in
one of those words; elsewhere they stay (`cleared_iff_shows`).

A session then fills the area.  Between two calls the packing buffer carries what does not
make a word yet.  The invariant `Filled` says that what was programmed, followed by what is
carried, is what was handed over; each of the three branches of `WriteBytes` keeps it.
-/

namespace USKD

open NorFlash

namespace Programmer

open HAL_ROM

/-! ## Clearing -/

/-- The area from `start` on is erased in `rom'`, which is `rom` everywhere else. -/
structure Cleared (start : ℕ) (rom rom' : HAL_ROM) : Prop where
  erased : rom'.cells.ErasedOn start MAX_SIZE_STORAGE
  outside : ∀ x, x < start ∨ start + MAX_SIZE_STORAGE ≤ x → rom'.cells x = rom.cells x

/-- No page of the area is taken for empty without being erased. -/
def Shows (start : ℕ) (rom : HAL_ROM) : Prop :=
  ∀ i < MAX_SIZE_STORAGE / SIZE_PAGE, rom.pageIsEmpty (pageOf start + i) = true →
    rom.cells.ErasedOn (start + i * SIZE_PAGE) SIZE_PAGE

/-- `PageIsEmpty` does not look at what lies in front of its page. -/
theorem pageIsEmpty_congr {rom rom' : HAL_ROM} {numPage : ℕ}
    (h : ∀ x, pageAddress numPage ≤ x → rom'.cells x = rom.cells x) :
    rom'.pageIsEmpty numPage = rom.pageIsEmpty numPage := by
  unfold pageIsEmpty
  congr 1
  funext i
  have hword : rom'.cells.word (pageAddress numPage + 16 * i) =
      rom.cells.word (pageAddress numPage + 16 * i) := by
    simp only [Memory.word, h _ (Nat.le_add_right_of_le (Nat.le_add_right _ _)),
      h _ (Nat.le_add_right _ _)]
  rw [hword]

theorem cells_eraseUsedPage (rom : HAL_ROM) {numPage x : ℕ} (hx : pageAddress numPage ≤ x)
    (hx' : x < pageAddress numPage + SIZE_PAGE) :
    (eraseUsedPage rom numPage).cells x =
      if rom.pageIsEmpty numPage then rom.cells x else 0xFF := by
  unfold eraseUsedPage
  split
  · rfl
  · exact erasedOn_erasePage SIZE_PAGE rom.cells (pageAddress numPage) x hx hx'

/-- **What the loop of `Prepare` leaves** in a page depends on what the page held at first:
the pages in front of it are the only ones that have changed when its turn comes. -/
theorem cells_erasePages (rom : HAL_ROM) {page count i x : ℕ} (h : page + count < 2 ^ 20)
    (hi : i < count) (hx : pageAddress (page + i) ≤ x)
    (hx' : x < pageAddress (page + i) + SIZE_PAGE) :
    (erasePages rom page count).cells x =
      if rom.pageIsEmpty (page + i) then rom.cells x else 0xFF := by
  induction count with
  | zero => exact absurd hi (Nat.not_lt_zero i)
  | succ count ih =>
      have hless : page + count < 2 ^ 20 := Nat.lt_of_succ_lt h
      have hpage : Changed (pageAddress (page + count)) (pageAddress (page + count + 1))
          (erasePages rom page count) (eraseUsedPage (erasePages rom page count) (page + count)) :=
        changed_eraseUsedPage (erasePages rom page count) h
      rw [erasePages_succ]
      rcases Nat.lt_succ_iff_lt_or_eq.mp hi with hearlier | rfl
      · -- a page dealt with before is not touched again
        have hnext : pageAddress (page + i) + SIZE_PAGE ≤ pageAddress (page + count) := by
          rw [← pageAddress_succ (by omega)]
          exact pageAddress_mono (Nat.add_lt_add_left hearlier page) hless
        rw [hpage.cells x (.inl (hx'.trans_le hnext)), ih hless hearlier]
      · -- the page whose turn it is holds what it held at first
        have hbehind : ∀ y, pageAddress (page + i) ≤ y →
            (erasePages rom page i).cells y = rom.cells y :=
          fun y hy => (changed_erasePages rom hless).cells y (.inr hy)
        rw [cells_eraseUsedPage _ hx hx', pageIsEmpty_congr hbehind, hbehind x hx]

/-- A page of the area, as `Prepare` counts them. -/
theorem pageAddress_of_start {start : ℕ} (h : start = ADDR_STORAGE ∨ start = ADDR_APPLICATION)
    (i : ℕ) (hi : i < MAX_SIZE_STORAGE / SIZE_PAGE) :
    pageAddress (pageOf start + i) = start + i * SIZE_PAGE := by
  have hlast : i < 38 := hi
  rcases h with rfl | rfl
  · have hpage : pageOf ADDR_STORAGE = 38 := by decide
    rw [hpage, pageAddress_eq (by omega)]
    simp only [ADDR_BASE, ADDR_STORAGE, SIZE_PAGE]
    omega
  · have hpage : pageOf ADDR_APPLICATION = 0 := by decide
    rw [hpage, Nat.zero_add, pageAddress_eq (by omega)]
    rfl

theorem pageOf_fits {start : ℕ} (h : start = ADDR_STORAGE ∨ start = ADDR_APPLICATION) :
    pageOf start + MAX_SIZE_STORAGE / SIZE_PAGE < 2 ^ 20 := by
  rcases h with rfl | rfl <;> decide

/-- What `Prepare` leaves in the area, page by page. -/
theorem cells_prepare (p : Programmer) {start i x : ℕ}
    (h : start = ADDR_STORAGE ∨ start = ADDR_APPLICATION) (hi : i < MAX_SIZE_STORAGE / SIZE_PAGE)
    (hx : start + i * SIZE_PAGE ≤ x) (hx' : x < start + i * SIZE_PAGE + SIZE_PAGE) :
    (p.prepare start).rom.cells x =
      if p.rom.pageIsEmpty (pageOf start + i) then p.rom.cells x else 0xFF := by
  have hrom : (p.prepare start).rom =
      erasePages p.rom (pageOf start) (MAX_SIZE_STORAGE / SIZE_PAGE) := by
    rw [prepare]
  rw [hrom]
  rw [← pageAddress_of_start h i hi] at hx hx'
  exact cells_erasePages p.rom (pageOf_fits h) hi hx hx'

theorem outside_prepare (p : Programmer) {start : ℕ}
    (h : start = ADDR_STORAGE ∨ start = ADDR_APPLICATION) :
    Changed start (start + MAX_SIZE_STORAGE) p.rom (p.prepare start).rom := by
  rcases h with rfl | rfl
  · rw [addr_storage]
    exact changed_prepare p (by decide)
  · rw [addr_application]
    exact changed_prepare p (by decide)

/-- The area is the pages of the area. -/
theorem erasedOn_area (cells : Memory) (start : ℕ) :
    cells.ErasedOn start MAX_SIZE_STORAGE ↔
      ∀ i < MAX_SIZE_STORAGE / SIZE_PAGE, cells.ErasedOn (start + i * SIZE_PAGE) SIZE_PAGE := by
  constructor
  · intro h i hi x hx hx'
    have hlast : i < 38 := hi
    refine h x (le_trans (Nat.le_add_right _ _) hx) ?_
    simp only [SIZE_PAGE, MAX_SIZE_STORAGE] at hx' ⊢
    omega
  · intro h x hx hx'
    refine h ((x - start) / SIZE_PAGE) ?_ x ?_ ?_
    all_goals
      simp only [SIZE_PAGE, MAX_SIZE_STORAGE] at hx' ⊢
      omega

/-- `Prepare` clears an area whose pages show what they hold. -/
theorem cleared_of_shows (p : Programmer) {start : ℕ}
    (h : start = ADDR_STORAGE ∨ start = ADDR_APPLICATION) (hshows : Shows start p.rom) :
    Cleared start p.rom (p.prepare start).rom := by
  refine ⟨(erasedOn_area _ _).mpr fun i hi x hx hx' => ?_, (outside_prepare p h).cells⟩
  rw [cells_prepare p h hi hx hx']
  by_cases hempty : p.rom.pageIsEmpty (pageOf start + i)
  · rw [if_pos hempty]
    exact hshows i hi hempty x hx hx'
  · exact if_neg hempty

/-- **`Prepare`** clears the area if and only if no page is wrongly taken for empty. -/
theorem cleared_iff_shows (p : Programmer) {start : ℕ}
    (h : start = ADDR_STORAGE ∨ start = ADDR_APPLICATION) :
    Cleared start p.rom (p.prepare start).rom ↔ Shows start p.rom := by
  refine ⟨fun hclear i hi hempty x hx hx' => ?_, cleared_of_shows p h⟩
  have herased := (erasedOn_area _ _).mp hclear.erased i hi x hx hx'
  rwa [cells_prepare p h hi hx hx', if_pos hempty] at herased

/-- A programmer before the first session, over a given flash. -/
def idle (cells : Memory) : Programmer := ⟨0, 0, [], [], ⟨cells, []⟩⟩

/-- The flash that is erased but for the first byte of the staging area. -/
def marked : Memory := fun x => if x = ADDR_STORAGE then 0 else 0xFF

/-- The first word of the area holds the mark, and `PageIsEmpty` looks at it. -/
theorem pageIsEmpty_marked (trace : List FlashEvent) :
    HAL_ROM.pageIsEmpty ⟨marked, trace⟩ (pageOf ADDR_STORAGE) = false := by
  have hword : marked.word (pageAddress (pageOf ADDR_STORAGE) + 16 * 0) ≠ .erased := by decide
  exact List.all_eq_false.mpr ⟨0, List.mem_range.mpr (by decide), by simpa using hword⟩

/-- A page that is not empty is erased, and the area with it. -/
theorem cleared_marked :
    Cleared ADDR_STORAGE ⟨marked, []⟩ ((idle marked).prepare ADDR_STORAGE).rom := by
  refine (cleared_iff_shows (idle marked) (.inl rfl)).mpr fun i hi hempty x hx _ => if_neg ?_
  rintro rfl
  have hfirst : i = 0 := by
    simp only [ADDR_STORAGE, SIZE_PAGE] at hx
    omega
  subst hfirst
  exact absurd (hempty.symm.trans (pageIsEmpty_marked [])) Bool.noConfusion

/-- The mark is all that is erased. -/
theorem prepare_marked (p : Programmer) (trace : List FlashEvent) (h : p.rom = ⟨marked, trace⟩) :
    p.prepare ADDR_STORAGE =
      ⟨0, ADDR_STORAGE, [], [], ⟨fun _ => 0xFF, trace ++ [.erase ADDR_STORAGE]⟩⟩ := by
  have hblank : NorFlash.erasePage SIZE_PAGE marked ADDR_STORAGE = fun _ => 0xFF := by
    funext x
    by_cases hx : x = ADDR_STORAGE
    · subst hx
      exact erasedOn_erasePage SIZE_PAGE marked ADDR_STORAGE _ le_rfl (by decide)
    · rw [NorFlash.erasePage]
      split
      · rfl
      · exact if_neg hx
  have hpage : pageAddress (pageOf ADDR_STORAGE) = ADDR_STORAGE := by decide
  have hpages : ∀ count, erasePages ⟨marked, trace⟩ (pageOf ADDR_STORAGE) (count + 1) =
      ⟨fun _ => 0xFF, trace ++ [.erase ADDR_STORAGE]⟩ := by
    intro count
    induction count with
    | zero =>
        have hzero : erasePages ⟨marked, trace⟩ (pageOf ADDR_STORAGE) 0 = ⟨marked, trace⟩ := rfl
        rw [erasePages_succ, hzero, Nat.add_zero, eraseUsedPage, pageIsEmpty_marked,
          if_neg Bool.false_ne_true, HAL_ROM.erasePage, hpage, hblank]
    | succ count ih => rw [erasePages_succ, ih, eraseUsedPage_blank]
  have hcount : MAX_SIZE_STORAGE / SIZE_PAGE = 37 + 1 := by decide
  rw [prepare, h, hcount, hpages]

/-- The flash that is erased but for the second word of the staging area. -/
def stained : Memory := fun x => if x = ADDR_STORAGE + 4 then 0 else 0xFF

/-- No word that `PageIsEmpty` looks at holds the stain. -/
theorem pageIsEmpty_stained {i : ℕ} (hi : i < MAX_SIZE_STORAGE / SIZE_PAGE) :
    (idle stained).rom.pageIsEmpty (pageOf ADDR_STORAGE + i) = true := by
  refine List.all_eq_true.mpr fun j _ => decide_eq_true ?_
  refine Memory.word_eq_erased fun x hx hx' => if_neg ?_
  rw [pageAddress_of_start (.inl rfl) i hi] at hx hx'
  simp only [ADDR_STORAGE, SIZE_PAGE] at hx hx' ⊢
  omega

/-- **The stain stays.** -/
theorem not_cleared_stained :
    ¬ Cleared ADDR_STORAGE ⟨stained, []⟩ ((idle stained).prepare ADDR_STORAGE).rom := by
  intro hclear
  have hbyte := hclear.erased (ADDR_STORAGE + 4) (by decide) (by decide)
  rw [cells_prepare (i := 0) _ (.inl rfl) (by decide) (by decide) (by decide),
    if_pos (pageIsEmpty_stained (by decide))] at hbyte
  exact absurd hbyte (by decide)

/-! ## Filling -/

end Programmer

namespace FlashEvent

/-- The words a flash operation programs, each with its address. -/
def words : FlashEvent → List (ℕ × Word)
  | program address data => wordsAt address data
  | erase _ | staged .. | copied .. => []

/-- A call that programs whole words. -/
def WholeWords : FlashEvent → Prop
  | program _ data => data.length % 4 = 0
  | erase _ | staged .. | copied .. => False

end FlashEvent

namespace Programmer

open HAL_ROM

/-- `WriteBytes` on each block in turn. -/
def writeBlocks (chip : Chip) (p : Programmer) (blocks : List (List UInt8)) : Option Programmer :=
  blocks.foldlM (fun p block => p.writeBytes chip block) p

/-- The data filled up with `0xFF` to whole words. -/
def padded (data : List UInt8) : List UInt8 :=
  data ++ List.replicate ((4 - data.length % 4) % 4) 0xFF

theorem length_padded (data : List UInt8) : (padded data).length = (data.length + 3) / 4 * 4 := by
  unfold padded
  rw [List.length_append, List.length_replicate]
  omega

/-- Whole words in front do not count for the padding. -/
theorem padded_append {done : List UInt8} (h : done.length % 4 = 0) (data : List UInt8) :
    padded (done ++ data) = done ++ padded data := by
  unfold padded
  rw [List.length_append, Nat.add_mod, h, Nat.zero_add, Nat.mod_mod, List.append_assoc]

/-- From `rom` to `rom'` the bytes of `done` were programmed from `start` on, in calls with
whole words. -/
structure Programmed (chip : Chip) (start : ℕ) (rom : HAL_ROM) (done : List UInt8)
    (rom' : HAL_ROM) : Prop where
  trace : ∃ es, rom'.trace = rom.trace ++ es ∧ (∀ e ∈ es, e.WholeWords) ∧
    es.flatMap FlashEvent.words = wordsAt start done
  cells : rom'.cells = programBytes chip rom.cells start done

variable {chip : Chip} {start : ℕ} {rom rom' : HAL_ROM} {done data : List UInt8} {p : Programmer}

theorem Programmed.nil (chip : Chip) (start : ℕ) (rom : HAL_ROM) :
    Programmed chip start rom [] rom :=
  ⟨⟨[], by simp, by simp, rfl⟩, rfl⟩

/-- **One call of `WriteData`**, behind what is programmed already. -/
theorem Programmed.writeData (h : Programmed chip start rom done rom')
    (hdone : done.length % 4 = 0) (hdata : data.length % 4 = 0) (hsome : 0 < data.length)
    (hfits : start + done.length + data.length < 2 ^ 32) :
    Programmed chip start rom (done ++ data)
      (rom'.writeData chip (start + done.length) data) := by
  obtain ⟨es, htrace, hwhole, hwords⟩ := h.trace
  have hend : (start + done.length + data.length) % 2 ^ 32 = start + done.length + data.length :=
    Nat.mod_eq_of_lt hfits
  rw [HAL_ROM.writeData, hend, if_pos (Nat.lt_add_of_pos_right hsome)]
  constructor
  · refine ⟨es ++ [.program (start + done.length) data], ?_, ?_, ?_⟩
    · show rom'.trace ++ _ = _
      rw [htrace, List.append_assoc]
    · intro e he
      rcases List.mem_append.mp he with he | he
      · exact hwhole e he
      · obtain rfl := List.mem_singleton.mp he
        exact hdata
    · rw [List.flatMap_append, hwords, wordsAt_append start done data hdone, List.flatMap_singleton]
      rfl
  · show programBytes chip rom'.cells _ _ = _
    rw [h.cells, programBytes_append chip rom.cells start done data hdone]

/-- **The invariant of a session**: `done` is programmed, the packing buffer holds less than
a word. -/
structure Filled (chip : Chip) (start : ℕ) (rom : HAL_ROM) (done : List UInt8)
    (p : Programmer) : Prop where
  whole : done.length % 4 = 0
  few : p.bytes.length < 4
  written : p.writtenBytes = done.length
  address : p.address = start + done.length
  programmed : Programmed chip start rom done p.rom

theorem filled_prepare (chip : Chip) (p : Programmer) (start : ℕ) :
    Filled chip start (p.prepare start).rom [] (p.prepare start) where
  whole := rfl
  few := Nat.zero_lt_succ 3
  written := rfl
  address := rfl
  programmed := Programmed.nil chip start _

/-- **`Write`** of whole words; what stays in the packing buffer is the caller's choice. -/
theorem Filled.write (h : Filled chip start rom done p) (bytes data : List UInt8)
    (hdata : data.length % 4 = 0) (hsome : 0 < data.length)
    (hint : done.length + data.length < 2 ^ 31)
    (hfits : start + done.length + data.length < 2 ^ 32) :
    ∃ p', Programmer.write chip { p with bytes } data = some p' ∧ p'.bytes = bytes ∧
      p'.writtenBytes = (done ++ data).length ∧ p'.address = start + (done ++ data).length ∧
      Programmed chip start rom (done ++ data) p'.rom := by
  have hwritten : p.writtenBytes + data.length < 2 ^ 31 := by
    rw [h.written]
    exact hint
  refine ⟨_, if_pos hwritten, rfl, ?_, ?_, ?_⟩
  · show p.writtenBytes + data.length = _
    rw [h.written, List.length_append]
  · show (p.address + data.length) % 2 ^ 32 = _
    rw [h.address, Nat.mod_eq_of_lt hfits, List.length_append, Nat.add_assoc]
  · show Programmed chip start rom (done ++ data) (p.rom.writeData chip p.address data)
    rw [h.address]
    exact h.programmed.writeData h.whole hdata hsome hfits

/-- **The body of `WriteBytes`**: nothing is lost between what is programmed and what is
carried. -/
theorem Filled.pack (h : Filled chip start rom done p) (hsize : data.length ≤ SIZE_DATA_BUFFER)
    (hint : done.length + p.bytes.length + data.length < 2 ^ 31)
    (hfits : start + (done.length + p.bytes.length + data.length) < 2 ^ 32) :
    ∃ p' done', p.pack chip data = some p' ∧ Filled chip start rom done' p' ∧
      done' ++ p'.bytes = done ++ p.bytes ++ data := by
  have hfew := h.few
  have hwhole := h.whole
  have hlen : (p.bytes ++ data).length = p.bytes.length + data.length := List.length_append
  have hroom : ¬ SIZE_DATA_BUFFER + 4 < (p.bytes ++ data).length := by
    rw [hlen]
    exact Nat.not_lt.mpr (by omega)
  unfold Programmer.pack
  by_cases hnone : data.length = 0
  · refine ⟨p, done, if_pos hnone, h, ?_⟩
    rw [List.eq_nil_of_length_eq_zero hnone, List.append_nil]
  simp only [if_neg hnone, if_neg hroom]
  by_cases hwords : (p.bytes ++ data).length % 4 = 0
  · -- everything goes out
    obtain ⟨p', hwrite, hbytes, hwritten, haddress, hprogrammed⟩ :=
      h.write [] (p.bytes ++ data) hwords (by omega) (by omega) (by omega)
    refine ⟨p', done ++ (p.bytes ++ data), ?_, ⟨?_, ?_, hwritten, haddress, hprogrammed⟩, ?_⟩
    · rw [if_pos hwords, hwrite]
    · rw [List.length_append]
      omega
    · rw [hbytes]
      exact Nat.zero_lt_succ 3
    · rw [hbytes, List.append_nil, List.append_assoc]
  by_cases hmany : 3 < (p.bytes ++ data).length
  · -- the whole words go out, the rest moves to the front
    have hneed : (p.bytes ++ data).length - (p.bytes ++ data).length % 4 ≤
        (p.bytes ++ data).length := Nat.sub_le _ _
    generalize hneedBytes : (p.bytes ++ data).length - (p.bytes ++ data).length % 4 = needBytes
      at hneed
    have htake : ((p.bytes ++ data).take needBytes).length = needBytes :=
      List.length_take_of_le hneed
    obtain ⟨p', hwrite, hbytes, hwritten, haddress, hprogrammed⟩ :=
      h.write ((p.bytes ++ data).drop needBytes) ((p.bytes ++ data).take needBytes) (by omega)
        (by omega) (by omega) (by omega)
    refine ⟨p', done ++ (p.bytes ++ data).take needBytes, ?_,
      ⟨?_, ?_, hwritten, haddress, hprogrammed⟩, ?_⟩
    · rw [if_neg hwords, if_pos hmany, hwrite]
    · rw [List.length_append, htake]
      omega
    · rw [hbytes, List.length_drop]
      omega
    · rw [hbytes, List.append_assoc, List.take_append_drop, List.append_assoc]
  · -- not a word yet
    refine ⟨{ p with bytes := p.bytes ++ data }, done, ?_,
      ⟨h.whole, ?_, h.written, h.address, h.programmed⟩, ?_⟩
    · rw [if_neg hwords, if_neg hmany]
    · show (p.bytes ++ data).length < 4
      omega
    · exact (List.append_assoc done p.bytes data).symm

theorem Filled.writeBytes (h : Filled chip start rom done p)
    (hsize : data.length ≤ SIZE_DATA_BUFFER)
    (hint : done.length + p.bytes.length + data.length < 2 ^ 31)
    (hfits : start + (done.length + p.bytes.length + data.length) < 2 ^ 32) :
    ∃ p' done', p.writeBytes chip data = some p' ∧ Filled chip start rom done' p' ∧
      done' ++ p'.bytes = done ++ p.bytes ++ data := by
  have hblocks : Filled chip start rom done { p with blocks := p.blocks ++ [data] } :=
    ⟨h.whole, h.few, h.written, h.address, h.programmed⟩
  exact hblocks.pack hsize hint hfits

/-- **The blocks of a session.** -/
theorem Filled.writeBlocks (h : Filled chip start rom done p) (blocks : List (List UInt8))
    (hsizes : ∀ block ∈ blocks, block.length ≤ SIZE_DATA_BUFFER)
    (hint : done.length + p.bytes.length + blocks.flatten.length < 2 ^ 31)
    (hfits : start + (done.length + p.bytes.length + blocks.flatten.length) < 2 ^ 32) :
    ∃ p' done', p.writeBlocks chip blocks = some p' ∧ Filled chip start rom done' p' ∧
      done' ++ p'.bytes = done ++ p.bytes ++ blocks.flatten := by
  induction blocks generalizing p done with
  | nil =>
      refine ⟨p, done, rfl, h, ?_⟩
      rw [List.flatten_nil, List.append_nil]
  | cons block blocks ih =>
      rw [List.flatten_cons, List.length_append] at hint hfits
      obtain ⟨q, done₁, hblock, hfilled, hcarried⟩ :=
        h.writeBytes (hsizes block (by simp)) (by omega) (by omega)
      have hlen : done₁.length + q.bytes.length =
          done.length + p.bytes.length + block.length := by
        rw [← List.length_append, hcarried, List.length_append, List.length_append]
      obtain ⟨p', done₂, hblocks, hfilled', hcarried'⟩ :=
        ih hfilled (fun b hb => hsizes b (by simp [hb])) (by omega) (by omega)
      refine ⟨p', done₂, ?_, hfilled', ?_⟩
      · unfold Programmer.writeBlocks at hblocks ⊢
        rw [List.foldlM_cons, hblock]
        exact hblocks
      · rw [hcarried', hcarried, List.flatten_cons, List.append_assoc _ block]

/-- **`CloseSession`** programs the last word, filled up. -/
theorem Filled.closeSession (h : Filled chip start rom done p)
    (hint : (padded (done ++ p.bytes)).length < 2 ^ 31)
    (hfits : start + (padded (done ++ p.bytes)).length < 2 ^ 32) :
    ∃ p', p.closeSession chip = some p' ∧ p'.bytes.length ≤ SIZE_DATA_BUFFER + 4 ∧
      p'.writtenBytes = (padded (done ++ p.bytes)).length ∧
      Programmed chip start rom (padded (done ++ p.bytes)) p'.rom := by
  have hfew := h.few
  rw [padded_append h.whole] at hint hfits ⊢
  unfold Programmer.closeSession
  by_cases hnone : p.bytes.length = 0
  · have hnil : p.bytes = [] := List.eq_nil_of_length_eq_zero hnone
    have hpadded : done ++ padded p.bytes = done := by
      rw [hnil]
      exact List.append_nil done
    refine ⟨p, if_pos hnone, by omega, ?_, ?_⟩
    · rw [hpadded, h.written]
    · rw [hpadded]
      exact h.programmed
  · have hword : (padded p.bytes).length = 4 := by
      rw [length_padded]
      omega
    rw [List.length_append, hword] at hint hfits
    obtain ⟨p', hwrite, hbytes, hwritten, -, hprogrammed⟩ :=
      h.write (padded p.bytes) (padded p.bytes) (by omega) (by omega) (by omega) (by omega)
    refine ⟨p', ?_, ?_, hwritten, hprogrammed⟩
    · rw [if_neg hnone]
      exact hwrite
    · rw [hbytes, hword]
      exact Nat.le_add_left 4 SIZE_DATA_BUFFER

/-- A session did exactly what it is for: `blocks` are programmed from `start` on. -/
structure Exact (chip : Chip) (p : Programmer) (start : ℕ) (blocks : List (List UInt8)) : Prop where
  /-- After any number of blocks less than a word is held back. -/
  carried : ∀ k, ∃ q, (p.prepare start).writeBlocks chip (blocks.take k) = some q ∧
    q.bytes.length < 4
  /-- The calls are with whole words, the words lie one behind the other and are the blocks,
  filled up. -/
  programmed : ∃ q p' es, (p.prepare start).writeBlocks chip blocks = some q ∧
    q.closeSession chip = some p' ∧ p'.bytes.length ≤ SIZE_DATA_BUFFER + 4 ∧
    p'.writtenBytes = (padded blocks.flatten).length ∧
    p'.rom.trace = (p.prepare start).rom.trace ++ es ∧ (∀ e ∈ es, e.WholeWords) ∧
    (es.flatMap FlashEvent.words).map Prod.fst =
      (List.range ((padded blocks.flatten).length / 4)).map (fun i => start + 4 * i) ∧
    (es.flatMap FlashEvent.words).flatMap (fun w => w.2.bytes) = padded blocks.flatten ∧
    p'.rom.cells = programBytes chip (p.prepare start).rom.cells start (padded blocks.flatten)

/-- **A session programs what it is handed**, as long as the end of the data is an address and
their number an `int`. -/
theorem exact_of_fits (chip : Chip) (p : Programmer) {start : ℕ} {blocks : List (List UInt8)}
    (hsizes : ∀ block ∈ blocks, block.length ≤ SIZE_DATA_BUFFER)
    (hint : (padded blocks.flatten).length < 2 ^ 31)
    (hfits : start + (padded blocks.flatten).length < 2 ^ 32) : Exact chip p start blocks := by
  have hfirst := filled_prepare chip p start
  have hnil : (p.prepare start).bytes.length = 0 := rfl
  have hlen : blocks.flatten.length ≤ (padded blocks.flatten).length := by
    rw [length_padded]
    omega
  constructor
  · intro k
    have htake : (blocks.take k).flatten.length ≤ blocks.flatten.length := by
      conv_rhs => rw [← List.take_append_drop k blocks, List.flatten_append, List.length_append]
      exact Nat.le_add_right _ _
    obtain ⟨q, done, hblocks, hfilled, -⟩ := hfirst.writeBlocks (blocks.take k)
      (fun b hb => hsizes b (List.mem_of_mem_take hb)) (by simp only [List.length_nil]; omega)
      (by simp only [List.length_nil]; omega)
    exact ⟨q, hblocks, hfilled.few⟩
  · obtain ⟨q, done, hblocks, hfilled, hcarried⟩ := hfirst.writeBlocks blocks hsizes
      (by simp only [List.length_nil]; omega) (by simp only [List.length_nil]; omega)
    have htotal : done ++ q.bytes = blocks.flatten := hcarried
    rw [← htotal] at hint hfits ⊢
    obtain ⟨p', hclose, hroom, hwritten, hprogrammed⟩ := hfilled.closeSession hint hfits
    obtain ⟨es, htrace, hwhole, hwords⟩ := hprogrammed.trace
    have hpadded : (padded (done ++ q.bytes)).length % 4 = 0 := by
      rw [length_padded]
      omega
    refine ⟨q, p', es, hblocks, hclose, hroom, hwritten, htrace, hwhole, ?_, ?_,
      hprogrammed.cells⟩
    · rw [hwords, addresses_wordsAt start hpadded]
    · rw [hwords, bytes_wordsAt start hpadded]

/-- Five bytes in two blocks, behind the application. -/
theorem exact_five :
    Exact andChip (idle fun _ => 0xFF) ADDR_STORAGE [[1, 2, 3], [], [4, 5]] :=
  exact_of_fits andChip _ (by decide) (by decide) (by decide)

/-- The last word of the address space is not programmed: the end of the data wraps. -/
theorem not_exact_lastWord : ¬ Exact andChip (idle fun _ => 0xFF) 0xFFFFFFFC [[1, 2, 3, 4]] := by
  intro hexact
  obtain ⟨q, p', es, hblocks, hclose, -, -, htrace, -, -, hbytes, -⟩ := hexact.programmed
  rw [prepare_blank _ [] _ rfl] at hblocks htrace
  obtain rfl := Option.some.inj hblocks
  obtain rfl := Option.some.inj hclose
  obtain rfl : [] = es := htrace
  exact absurd hbytes (by decide)

end Programmer

end USKD
