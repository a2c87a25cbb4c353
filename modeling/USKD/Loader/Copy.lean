import USKD.Loader.Staging
import USKD.Loader.Updater

/-!
# Copying the staged image

`CopyFirmware` saves the length of the staged image, and `Prepare` clears the very counters
that hold it.  The copy goes through `WriteBytes` again, which counts once more:

* the invariant is `Filled` over the application, with nothing held back between two turns of
  the loop, since a turn hands over whole words;
* the application lies in front of the staging area, so that the bytes read are those of the
  image (`Filled.read`);
* the length counted is therefore the length saved, and the next copy begins where this one
  did (`Staged.copyFirmware`).
-/

namespace USKD

open NorFlash

namespace Programmer

open HAL_ROM

variable {chip : Chip} {start : ℕ} {rom : HAL_ROM} {done : List UInt8} {p : Programmer}

/-! ## One copy -/

/-- What is programmed lies in front of what is read. -/
theorem Filled.read (h : Filled chip start rom done p) {addr : ℕ}
    (hbehind : start + done.length ≤ addr) (n : ℕ) :
    p.rom.cells.read addr n = rom.cells.read addr n := by
  apply Memory.read_congr
  intro x hx _
  rw [h.programmed.cells, programBytes_of_outside chip _ _ _ (.inr (hbehind.trans hx))]

/-- **A turn of the loop**: whole words go out, and nothing is held back. -/
theorem Filled.copyTurn (h : Filled chip start rom done p) (hheld : p.bytes = []) {addr n : ℕ}
    (hsize : n ≤ SIZE_DATA_BUFFER) (hwords : n % 4 = 0) (hbehind : start + done.length + n ≤ addr)
    (haddr : addr < 2 ^ 31) :
    ∃ p', p.writeBytes chip (p.rom.cells.read addr n) = some p' ∧ p'.bytes = [] ∧
      Filled chip start rom (done ++ rom.cells.read addr n) p' := by
  have hread : (rom.cells.read addr n).length = n := Memory.length_read _ _ _
  rw [h.read (by omega)]
  obtain ⟨p', done', hwrite, hfilled, hcarried⟩ :=
    h.writeBytes (show (rom.cells.read addr n).length ≤ SIZE_DATA_BUFFER by rw [hread]; exact hsize)
      (by rw [hread, hheld, List.length_nil]; omega)
      (by rw [hread, hheld, List.length_nil]; omega)
  rw [hheld, List.append_nil] at hcarried
  have hlen := congrArg List.length hcarried
  have hwhole := h.whole
  have hwhole' := hfilled.whole
  have hfew := hfilled.few
  simp only [List.length_append, hread] at hlen
  have hnone : p'.bytes = [] := List.eq_nil_of_length_eq_zero (by omega)
  rw [hnone, List.append_nil] at hcarried
  exact ⟨p', hwrite, hnone, hcarried ▸ hfilled⟩

/-- **The loop of `CopyFirmware`** programs what lies from `addr` on. -/
theorem Filled.copyLoop (h : Filled chip start rom done p) (hheld : p.bytes = [])
    {addr needBytes : ℕ} (hwords : needBytes % 4 = 0)
    (hbehind : start + done.length + needBytes ≤ addr) (haddr : addr + needBytes < 2 ^ 31) :
    ∃ p', p.copyLoop chip addr needBytes = some p' ∧ p'.bytes = [] ∧
      Filled chip start rom (done ++ rom.cells.read addr needBytes) p' := by
  induction p, addr, needBytes using Programmer.copyLoop.induct generalizing done with
  | case1 p addr needBytes hmore ih =>
      obtain ⟨q, hwrite, hnone, hfilled⟩ := h.copyTurn hheld (n := 64) le_rfl rfl (by omega)
        (Nat.lt_of_le_of_lt (Nat.le_add_right _ _) haddr)
      obtain ⟨p', hrest, hnone', hfilled'⟩ := ih q hfilled hnone (by omega)
        (by rw [List.length_append, Memory.length_read]; omega) (by omega)
      refine ⟨p', ?_, hnone', ?_⟩
      · rw [Programmer.copyLoop, if_pos hmore, hwrite]
        exact hrest
      · have hsplit : needBytes = 64 + (needBytes - 64) := by omega
        rw [hsplit, Memory.read_add, ← List.append_assoc]
        exact hfilled'
  | case2 p addr hless =>
      refine ⟨p, ?_, hheld, ?_⟩
      · rw [Programmer.copyLoop, if_neg hless, if_pos rfl]
      · exact (List.append_nil done).symm ▸ h
  | case3 p addr needBytes hless hsome =>
      rw [Programmer.copyLoop, if_neg hless, if_neg hsome]
      exact h.copyTurn hheld (Nat.le_of_lt (Nat.not_le.mp hless)) hwords hbehind
        (Nat.lt_of_le_of_lt (Nat.le_add_right _ _) haddr)

/-- `Prepare` erases pages of its area, and does nothing else. -/
theorem trace_erasePages (rom : HAL_ROM) (page count : ℕ) :
    ∃ erases, (erasePages rom page count).trace = rom.trace ++ erases ∧
      ∀ e ∈ erases, ∃ i < count, e = .erase (pageAddress (page + i)) := by
  induction count with
  | zero => exact ⟨[], (List.append_nil _).symm, fun e he => absurd he (List.not_mem_nil)⟩
  | succ count ih =>
      obtain ⟨erases, htrace, hpages⟩ := ih
      have hearlier : ∀ e ∈ erases, ∃ i < count + 1, e = .erase (pageAddress (page + i)) := by
        intro e he
        obtain ⟨i, hi, rfl⟩ := hpages e he
        exact ⟨i, Nat.lt_succ_of_lt hi, rfl⟩
      rw [erasePages_succ, eraseUsedPage]
      split
      · exact ⟨erases, htrace, hearlier⟩
      · refine ⟨erases ++ [.erase (pageAddress (page + count))], ?_, ?_⟩
        · rw [HAL_ROM.erasePage, htrace, List.append_assoc]
        · intro e he
          rcases List.mem_append.mp he with he | he
          · exact hearlier e he
          · exact ⟨count, Nat.lt_succ_self count, List.mem_singleton.mp he⟩

/-- A page of the area that is not empty is erased. -/
theorem mem_trace_erasePages (rom : HAL_ROM) {page count i : ℕ} (h : page + count < 2 ^ 20)
    (hi : i < count) (hused : rom.pageIsEmpty (page + i) = false) :
    .erase (pageAddress (page + i)) ∈ (erasePages rom page count).trace := by
  induction count with
  | zero => exact absurd hi (Nat.not_lt_zero i)
  | succ count ih =>
      have hless : page + count < 2 ^ 20 := Nat.lt_of_succ_lt h
      rw [erasePages_succ, eraseUsedPage]
      rcases Nat.lt_succ_iff_lt_or_eq.mp hi with hearlier | rfl
      · split
        · exact ih hless hearlier
        · exact List.mem_append_left _ (ih hless hearlier)
      · -- the page holds what it held at first
        have hbehind : ∀ x, pageAddress (page + i) ≤ x →
            (erasePages rom page i).cells x = rom.cells x :=
          fun x hx => (changed_erasePages rom hless).cells x (.inr hx)
        rw [pageIsEmpty_congr hbehind, hused, if_neg Bool.false_ne_true]
        exact List.mem_append_right _ (List.mem_singleton_self _)

/-! ## Copy after copy -/

/-- The staging area holds the first `size` bytes of `image`, and `size` is what is counted. -/
structure Staged (image : Memory) (size : ℕ) (p : Programmer) : Prop where
  written : p.writtenBytes = size
  words : size % 4 = 0
  fits : size ≤ MAX_SIZE_STORAGE
  cells : ∀ x, ADDR_STORAGE ≤ x → p.rom.cells x = image x

/-- **A copy of the image**: pages of the application are erased, and then the words of the
image are programmed into it, in order and nothing else.  The staging area is as it was, the
length is counted again, and nothing is held back. -/
structure Copied (image : Memory) (size : ℕ) (p p' : Programmer) : Prop where
  programmed : ∃ erases es, p'.rom.trace = p.rom.trace ++ erases ++ es ∧
    (∀ e ∈ erases, ∃ i < MAX_SIZE_STORAGE / SIZE_PAGE,
      e = .erase (ADDR_APPLICATION + i * SIZE_PAGE)) ∧
    (∀ e ∈ es, e.WholeWords) ∧
    es.flatMap FlashEvent.words = (List.range (size / 4)).map fun j =>
      (ADDR_APPLICATION + 4 * j, image.word (ADDR_STORAGE + 4 * j))
  staged : ∀ x, ADDR_STORAGE ≤ x → p'.rom.cells x = image x
  written : p'.writtenBytes = size
  held : p'.bytes = []

variable {image : Memory} {size : ℕ} {p' : Programmer}

/-- The next copy finds what this one found. -/
theorem Copied.again (h : Copied image size p p') (hs : Staged image size p) :
    Staged image size p' :=
  ⟨h.written, hs.words, hs.fits, h.staged⟩

/-- **`CopyFirmware`** copies the image. -/
theorem Staged.copyFirmware (h : Staged image size p) (chip : Chip) :
    ∃ p', p.copyFirmware chip = some p' ∧ Copied image size p p' := by
  have hwords := h.words
  have hfits := h.fits
  have hroom : ADDR_APPLICATION + size ≤ ADDR_STORAGE := by
    simp only [ADDR_APPLICATION, ADDR_STORAGE, MAX_SIZE_STORAGE] at hfits ⊢
    omega
  -- erasing the application leaves the image
  have hprepared : ∀ x, ADDR_STORAGE ≤ x → (p.prepare ADDR_APPLICATION).rom.cells x = image x := by
    intro x hx
    rw [(outside_prepare p (.inr rfl)).cells x (.inr hx), h.cells x hx]
  have himage : ∀ n, (p.prepare ADDR_APPLICATION).rom.cells.read ADDR_STORAGE n =
      image.read ADDR_STORAGE n :=
    fun n => Memory.read_congr fun x hx _ => hprepared x hx
  have hend : ADDR_STORAGE + size < 2 ^ 31 := by
    simp only [ADDR_STORAGE, MAX_SIZE_STORAGE] at hfits ⊢
    omega
  obtain ⟨p', hcopy, hheld, hfilled⟩ :=
    (filled_prepare chip p ADDR_APPLICATION).copyLoop rfl hwords hroom hend
  rw [List.nil_append, himage] at hfilled
  obtain ⟨erases, htrace, hpages⟩ :=
    trace_erasePages p.rom (pageOf ADDR_APPLICATION) (MAX_SIZE_STORAGE / SIZE_PAGE)
  obtain ⟨es, htrace', hwhole, hes⟩ := hfilled.programmed.trace
  refine ⟨p', ?_, ⟨erases, es, ?_, ?_, hwhole, ?_⟩, ?_, ?_, hheld⟩
  · rw [Programmer.copyFirmware, h.written]
    exact hcopy
  · rw [htrace', ← htrace]
    rfl
  · intro e he
    obtain ⟨i, hi, rfl⟩ := hpages e he
    exact ⟨i, hi, by rw [pageAddress_of_start (.inr rfl) i hi]⟩
  · have hsize : size = 4 * (size / 4) := by omega
    rw [hes, hsize, wordsAt_read, ← hsize]
  · intro x hx
    rw [hfilled.programmed.cells, programBytes_of_outside chip _ _ _ (.inr ?_), hprepared x hx]
    rw [Memory.length_read]
    exact hroom.trans hx
  · rw [hfilled.written, Memory.length_read]

/-- **A copy over pages that are erased** is the image, word for word. -/
theorem Staged.read_copyFirmware (h : Staged image size p) (chip : Chip)
    (hshows : Shows ADDR_APPLICATION p.rom) :
    ∃ p', p.copyFirmware chip = some p' ∧
      p'.rom.cells.read ADDR_APPLICATION size = image.read ADDR_STORAGE size ∧
      ∃ es, p'.rom.trace = (p.prepare ADDR_APPLICATION).rom.trace ++ es ∧
        es.flatMap FlashEvent.words = wordsAt ADDR_APPLICATION (image.read ADDR_STORAGE size) := by
  have hfits := h.fits
  have hwords := h.words
  have hroom : ADDR_APPLICATION + size ≤ ADDR_STORAGE := by
    simp only [ADDR_APPLICATION, ADDR_STORAGE, MAX_SIZE_STORAGE] at hfits ⊢
    omega
  have hend : ADDR_STORAGE + size < 2 ^ 31 := by
    simp only [ADDR_STORAGE, MAX_SIZE_STORAGE] at hfits ⊢
    omega
  have hcleared := cleared_of_shows p (.inr rfl) hshows
  have himage : (p.prepare ADDR_APPLICATION).rom.cells.read ADDR_STORAGE size =
      image.read ADDR_STORAGE size := by
    refine Memory.read_congr fun x hx _ => ?_
    rw [hcleared.outside x (.inr hx), h.cells x hx]
  obtain ⟨p', hcopy, -, hfilled⟩ :=
    (filled_prepare chip p ADDR_APPLICATION).copyLoop rfl hwords hroom hend
  rw [List.nil_append, himage] at hfilled
  obtain ⟨es, htrace, -, hes⟩ := hfilled.programmed.trace
  refine ⟨p', ?_, ?_, es, htrace, hes⟩
  · rw [Programmer.copyFirmware, h.written]
    exact hcopy
  · have hlen : (image.read ADDR_STORAGE size).length = size := Memory.length_read _ _ _
    have hread := read_programBytes chip (p.prepare ADDR_APPLICATION).rom.cells ADDR_APPLICATION
      (image.read ADDR_STORAGE size) (by rw [hlen]; exact hwords) fun x hx hx' =>
        hcleared.erased x hx (by omega)
    rw [hlen] at hread
    rw [hfilled.programmed.cells, hread]

/-- A round of the loop in `Updater::Update` is a copy, also the round that leaves it. -/
theorem Staged.copyRound {s : Loader} (h : Staged image size s.programmer) (chip : Chip) (n : ℕ) :
    ∃ s', s.copyRound chip n = some s' ∧ Staged image size s'.programmer := by
  obtain ⟨p', hcopy, hcopied⟩ := h.copyFirmware chip
  have hagain := hcopied.again h
  rw [Loader.copyRound, hcopy, Option.map_some]
  split
  · exact ⟨_, rfl, hagain.written, hagain.words, hagain.fits, hagain.cells⟩
  · exact ⟨_, rfl, hagain⟩

/-- `CopyFirmware`, a number of times. -/
def copies (chip : Chip) : ℕ → Programmer → Option Programmer
  | 0, p => some p
  | n + 1, p => (copies chip n p).bind (copyFirmware chip)

theorem Staged.copies (h : Staged image size p) (chip : Chip) (n : ℕ) :
    ∃ q, Programmer.copies chip n p = some q ∧ Staged image size q := by
  induction n with
  | zero => exact ⟨p, rfl, h⟩
  | succ n ih =>
      obtain ⟨q, hcopies, hstaged⟩ := ih
      obtain ⟨q', hcopy, hcopied⟩ := hstaged.copyFirmware chip
      refine ⟨q', ?_, hcopied.again hstaged⟩
      rw [Programmer.copies, hcopies]
      exact hcopy

/-! ## The image of a session -/

theorem writeBlocks_spec (hstart : start ≤ 2 ^ 31) (h : Session start p)
    (hheld : p.bytes.length < 4) {blocks : List (List UInt8)}
    (hblocks : p.writeBlocks chip blocks = some p') :
    Session start p' ∧ p'.bytes.length < 4 := by
  induction blocks generalizing p with
  | nil =>
      obtain rfl := Option.some.inj hblocks
      exact ⟨h, hheld⟩
  | cons block blocks ih =>
      unfold Programmer.writeBlocks at hblocks ih
      rw [List.foldlM_cons] at hblocks
      obtain ⟨q, hwrite, hrest⟩ := Option.bind_eq_some_iff.mp hblocks
      obtain ⟨hwrote, hfew, -⟩ := writeBytes_spec hstart h hheld hwrite
      exact ih hwrote.session hfew hrest

/-- A session leaves whole words. -/
theorem staged_of_session {p₀ q : Programmer} {blocks : List (List UInt8)}
    (hblocks : (p₀.prepare ADDR_STORAGE).writeBlocks chip blocks = some q)
    (hclose : q.closeSession chip = some p) (hfits : p.writtenBytes ≤ MAX_SIZE_STORAGE) :
    Staged p.rom.cells p.writtenBytes p := by
  have hstart : ADDR_STORAGE ≤ 2 ^ 31 := by decide
  obtain ⟨hsession, -⟩ := writeBlocks_spec hstart (session_prepare p₀ ADDR_STORAGE)
    (Nat.zero_lt_succ 3) hblocks
  obtain ⟨hwrote, -⟩ := closeSession_spec hstart hsession hclose
  exact ⟨rfl, hwrote.session.aligned, hfits, fun _ _ => rfl⟩

/-- **The copy of a staged image**, again and again. -/
theorem copied_of_session {p₀ q : Programmer} {blocks : List (List UInt8)}
    (hblocks : (p₀.prepare ADDR_STORAGE).writeBlocks chip blocks = some q)
    (hclose : q.closeSession chip = some p) (hfits : p.writtenBytes ≤ MAX_SIZE_STORAGE) (n : ℕ) :
    ∃ s t, copies chip n p = some s ∧ s.copyFirmware chip = some t ∧
      Copied p.rom.cells p.writtenBytes s t := by
  have hstaged := staged_of_session hblocks hclose hfits
  obtain ⟨s, hcopies, hagain⟩ := hstaged.copies chip n
  obtain ⟨t, hcopy, hcopied⟩ := hagain.copyFirmware chip
  exact ⟨s, t, hcopies, hcopy, hcopied⟩

/-- Five bytes are staged as two words, and copied as two words. -/
theorem copied_of_five :
    ∃ q p, ((idle fun _ => 0xFF).prepare ADDR_STORAGE).writeBlocks andChip [[1, 2, 3], [], [4, 5]] =
        some q ∧ q.closeSession andChip = some p ∧ p.writtenBytes = 8 ∧
      ∀ n, ∃ s t, copies andChip n p = some s ∧ s.copyFirmware andChip = some t ∧
        Copied p.rom.cells 8 s t := by
  have hfirst := filled_prepare andChip (idle fun _ => 0xFF) ADDR_STORAGE
  obtain ⟨q, done, hblocks, hfilled, hcarried⟩ :=
    hfirst.writeBlocks [[1, 2, 3], [], [4, 5]] (by decide) (by decide) (by decide)
  have hdone : done ++ q.bytes = [1, 2, 3, 4, 5] := hcarried
  obtain ⟨p, hclose, -, hwritten, -⟩ := hfilled.closeSession
    (by rw [hdone]; decide) (by rw [hdone]; decide)
  have height : p.writtenBytes = 8 := by
    rw [hwritten, hdone]
    rfl
  have hcopied := copied_of_session hblocks hclose (by rw [height]; decide)
  rw [height] at hcopied
  exact ⟨q, p, hblocks, hclose, height, hcopied⟩

end Programmer

end USKD
