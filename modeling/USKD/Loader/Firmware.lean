import USKD.Loader.Copy
import USKD.Loader.HandlerBIN
import USKD.Loader.Header

/-!
# What a session leaves in the flash

What a session does to the flash is the invariant `Staging`, beside the one of `Download`: the
programmer is as it was until the checksum of the file is taken; from then on the bytes handed
over are programmed into the staging area or held back.

At the end of the file the staging area holds the image, filled up (`Staging.endOfFile`), and a
round of the copy loop makes it the application (`Accepted.copy`).  Both suppose that the pages
`Prepare` takes for empty are: of the staging area when the session begins, and of the application
by what stands in them, since `PageIsEmpty` looks beyond the page.
-/

namespace USKD

open NorFlash Transducer ReaderFTP

/-! ## What a poll does to the programmer -/

namespace Loader

variable {chip : Chip} {s t : Loader} {now : UInt32} {answer : List UInt8}
  {commands : List Transmit}

/-- **A poll of a session**, as far as the programmer and the header are concerned. -/
inductive Polled (chip : Chip) (s t : Loader) : Prop
  /-- The session is left, or the copy loop entered. -/
  | left (h : t.inModeReceiveDataFromFTP = false ∨ t.copying ≠ none)
  | idle (h : t = s)
  /-- The version is taken. -/
  | version (hstate : s.updater.state = .GET_BYTES_VER) (hstate' : t.updater.state = .GET_BYTES_CRC)
      (hprogrammer : t.programmer = s.programmer)
  /-- The checksum is taken, and the staging area prepared. -/
  | sourceCrc (hstate : s.updater.state = .GET_BYTES_CRC)
      (hstate' : t.updater.state = .GET_BYTES_FIRMWARE)
      (hprogrammer : t.programmer = s.programmer.prepare HAL_ROM.ADDR_STORAGE)
  /-- A chunk is handed over. -/
  | chunk (hstate : s.updater.state = .GET_BYTES_FIRMWARE)
      (hcomplete : s.reader.requestedBytesReceived)
      (hwrite : s.programmer.writeBytes chip s.reader.received = some t.programmer)
      (hupdater : t.updater.state = .GET_BYTES_FIRMWARE ∧
        t.updater.sourceCrc = s.updater.sourceCrc)

theorem polled_getBytesVer (hstate : s.updater.state = .GET_BYTES_VER)
    (h : s.getBytesVer now = some (commands, t)) : Polled chip s t := by
  rcases meterIsRunning_cases h with h | ⟨-, h⟩
  · obtain ⟨-, rfl⟩ := Prod.mk.inj h
    exact .left (Or.inl Download.reset_inactive)
  simp only at h
  split at h
  · obtain ⟨-, rfl⟩ := Prod.mk.inj (Option.some.inj h)
    exact .version hstate rfl rfl
  · obtain ⟨-, rfl⟩ := Prod.mk.inj (Option.some.inj h)
    exact .idle rfl

theorem polled_getBytesCrc (hstate : s.updater.state = .GET_BYTES_CRC)
    (h : s.getBytesCrc now = some (commands, t)) : Polled chip s t := by
  rcases meterIsRunning_cases h with h | ⟨-, h⟩
  · obtain ⟨-, rfl⟩ := Prod.mk.inj h
    exact .left (Or.inl Download.reset_inactive)
  simp only at h
  split at h
  · obtain ⟨-, rfl⟩ := Prod.mk.inj (Option.some.inj h)
    exact .sourceCrc hstate rfl rfl
  · obtain ⟨-, rfl⟩ := Prod.mk.inj (Option.some.inj h)
    exact .idle rfl

theorem polled_getBytesFirmware (hstate : s.updater.state = .GET_BYTES_FIRMWARE)
    (h : s.getBytesFirmware chip now = some (commands, t)) : Polled chip s t := by
  rcases meterIsRunning_cases h with h | ⟨-, h⟩
  · obtain ⟨-, rfl⟩ := Prod.mk.inj h
    exact .left (Or.inl Download.reset_inactive)
  simp only at h
  split at h
  · exact .left (Download.poll_endOfFile h).1
  split at h
  · rename_i hcomplete
    obtain ⟨p, hwrite, h⟩ := Option.map_eq_some_iff.mp h
    obtain ⟨-, rfl⟩ := Prod.mk.inj h
    exact .chunk hstate hcomplete hwrite ⟨hstate, rfl⟩
  · obtain ⟨-, rfl⟩ := Prod.mk.inj (Option.some.inj h)
    exact .idle rfl

theorem polled_updateUpdater (hmode : s.inModeReceiveDataFromFTP)
    (h : s.updateUpdater chip now answer = some (commands, t)) : Polled chip s t := by
  have hstate : s.updater.state = .GET_BYTES_VER ∨ s.updater.state = .GET_BYTES_CRC ∨
      s.updater.state = .GET_BYTES_FIRMWARE := by
    simpa [inModeReceiveDataFromFTP] using hmode
  rcases hstate with hstate | hstate | hstate
  · simp only [updateUpdater, hstate] at h
    exact polled_getBytesVer hstate h
  · simp only [updateUpdater, hstate] at h
    exact polled_getBytesCrc hstate h
  · simp only [updateUpdater, hstate] at h
    exact polled_getBytesFirmware hstate h

end Loader

/-! ## The flash during a session -/

namespace Download

open Programmer HAL_ROM

variable {chip : Chip} {file : List UInt8} {p₀ : Programmer} {c c' : Download}

/-- **The flash during a session** that found the programmer `p₀`. -/
structure Staging (chip : Chip) (file : List UInt8) (p₀ : Programmer) (c : Download) : Prop where
  untouched : c.Active → c.loader.updater.state ≠ .GET_BYTES_FIRMWARE → c.loader.programmer = p₀
  sourceCrc : c.Active → c.loader.updater.state = .GET_BYTES_FIRMWARE →
    ∃ w : Word, (file.drop 4).take 4 = w.bytes ∧ c.loader.updater.sourceCrc = w.toUInt32
  /-- What was handed over is programmed or held back. -/
  filled : c.Active → c.loader.updater.state = .GET_BYTES_FIRMWARE → ∃ done,
    Filled chip ADDR_STORAGE (p₀.prepare ADDR_STORAGE).rom done c.loader.programmer ∧
      done ++ c.loader.programmer.bytes = c.loader.programmer.blocks.flatten

/-- What does not touch the updater and the programmer keeps the invariant. -/
theorem Staging.congr (h : Staging chip file p₀ c) (hactive : c'.Active → c.Active)
    (hupdater : c'.loader.updater = c.loader.updater)
    (hprogrammer : c'.loader.programmer = c.loader.programmer) : Staging chip file p₀ c' where
  untouched ha hstate := by
    rw [hprogrammer]
    exact h.untouched (hactive ha) (hupdater ▸ hstate)
  sourceCrc ha hstate := by
    rw [hupdater]
    exact h.sourceCrc (hactive ha) (hupdater ▸ hstate)
  filled ha hstate := by
    rw [hprogrammer]
    exact h.filled (hactive ha) (hupdater ▸ hstate)

/-- A chunk fits the buffer of the reader. -/
theorem length_received_le (r : ReaderFTP) : r.received.length ≤ SIZE_DATA_BUFFER := by
  rw [received, List.length_take, Vector.length_toList]
  exact Nat.min_le_right _ _

/-- **Handing over** what the reader holds, as long as the file fits an `int`. -/
theorem Staging.writeBytes (h : Staging chip file p₀ c) (hinv : Inv file c) (hactive : c.Active)
    (hstate : c.loader.updater.state = .GET_BYTES_FIRMWARE)
    (hready : c.loader.reader.requestedBytesReceived ∨ c.loader.reader.receivedFTPGET_1_0)
    (hlen : (file.drop 8).length < 2 ^ 30) :
    ∃ p done, c.loader.programmer.writeBytes chip c.loader.reader.received = some p ∧
      Filled chip ADDR_STORAGE (p₀.prepare ADDR_STORAGE).rom done p ∧
      done ++ p.bytes = p.blocks.flatten := by
  obtain ⟨done, hfilled, hcarried⟩ := h.filled hactive hstate
  have hprefix := ((hinv.blocks hactive hstate).2 hready).length_le
  rw [List.flatten_append, List.flatten_singleton, ← hcarried, List.length_append,
    List.length_append] at hprefix
  have haddr : ADDR_STORAGE < 2 ^ 31 := by decide
  obtain ⟨p, done', hwrite, hfilled', hcarried'⟩ :=
    hfilled.writeBytes (length_received_le c.loader.reader) (by omega)
      (by omega)
  refine ⟨p, done', hwrite, hfilled', ?_⟩
  rw [blocks_writeBytes hwrite, List.flatten_append, List.flatten_singleton, ← hcarried, hcarried']

/-- Only a poll touches the updater and the programmer. -/
theorem updater_of_step {act : Act} (hact : ∀ now answer, act ≠ .poll now answer)
    (hstep : c.step chip act = some c') :
    (c'.Active → c.Active) ∧ c'.loader.updater = c.loader.updater ∧
      c'.loader.programmer = c.loader.programmer := by
  cases act with
  | poll now answer => exact absurd rfl (hact now answer)
  | receive =>
      rw [Download.step] at hstep
      split at hstep
      · exact absurd hstep (by simp)
      obtain ⟨⟨commands, loader⟩, hreceive, rfl⟩ := Option.map_eq_some_iff.mp hstep
      rw [Loader.receive] at hreceive
      split at hreceive
      · obtain ⟨⟨sent, reader⟩, -, hreceive⟩ := Option.map_eq_some_iff.mp hreceive
        obtain ⟨rfl, rfl⟩ := Prod.mk.inj hreceive
        exact ⟨id, rfl, rfl⟩
      · obtain ⟨-, rfl⟩ := Prod.mk.inj (Option.some.inj hreceive)
        exact ⟨id, rfl, rfl⟩
  | answer n =>
      rw [Download.step] at hstep
      split at hstep
      · exact absurd hstep (by simp)
      split at hstep
      · obtain rfl := Option.some.inj hstep
        exact ⟨id, rfl, rfl⟩
      · exact absurd hstep (by simp)
  | ready =>
      rw [Download.step] at hstep
      split at hstep
      · obtain rfl := Option.some.inj hstep
        exact ⟨id, rfl, rfl⟩
      · exact absurd hstep (by simp)
  | finish =>
      rw [Download.step] at hstep
      split at hstep
      · obtain rfl := Option.some.inj hstep
        exact ⟨id, rfl, rfl⟩
      · exact absurd hstep (by simp)

theorem Staging.poll (h : Staging chip file p₀ c) (hinv : Inv file c)
    (hlen : (file.drop 8).length < 2 ^ 30) {now : UInt32} {answer : List UInt8}
    (hstep : c.step chip (.poll now answer) = some c') : Staging chip file p₀ c' := by
  have htaken := hinv.taken hstep
  rw [Download.step] at hstep
  split at hstep
  · rename_i hactive
    obtain ⟨⟨commands, t⟩, hupdate, rfl⟩ := Option.map_eq_some_iff.mp hstep
    rcases Loader.polled_updateUpdater hactive.1 hupdate with hleft | rfl |
      ⟨hstate, hstate', hprogrammer⟩ | ⟨hstate, hstate', hprogrammer⟩ |
      ⟨hstate, hcomplete, hwrite, hfirmware, hcrc⟩
    · -- behind the session nothing is said
      have hnot : ¬ (t.inModeReceiveDataFromFTP ∧ t.copying = none) := by
        rintro ⟨hmode, hcopying⟩
        rcases hleft with hleft | hleft
        · exact absurd hmode (Bool.eq_false_iff.mp hleft)
        · exact absurd hcopying hleft
      exact ⟨fun ha => absurd ha hnot, fun ha => absurd ha hnot, fun ha => absurd ha hnot⟩
    · exact h.congr id rfl rfl
    · have hother : t.updater.state ≠ .GET_BYTES_FIRMWARE := by
        rw [hstate']
        decide
      refine ⟨fun _ _ => ?_, fun _ hfirmware => absurd hfirmware hother,
        fun _ hfirmware => absurd hfirmware hother⟩
      exact hprogrammer.trans (h.untouched hactive (by rw [hstate]; decide))
    · refine ⟨fun _ hother => absurd hstate' hother, fun _ _ => ?_, fun _ _ => ⟨[], ?_, ?_⟩⟩
      · obtain ⟨w, hword, -, hvalue⟩ := htaken.sourceCrc hstate hstate'
        exact ⟨w, hword, hvalue⟩
      · show Filled _ _ _ _ t.programmer
        rw [hprogrammer, h.untouched hactive (by rw [hstate]; decide)]
        exact filled_prepare chip p₀ ADDR_STORAGE
      · show [] ++ t.programmer.bytes = t.programmer.blocks.flatten
        rw [hprogrammer]
        rfl
    · obtain ⟨p, done, hwrite', hfilled, hcarried⟩ :=
        h.writeBytes hinv hactive hstate (Or.inl hcomplete) hlen
      obtain rfl := Option.some.inj (hwrite'.symm.trans hwrite)
      obtain ⟨w, hword, hvalue⟩ := h.sourceCrc hactive hstate
      exact ⟨fun _ hother => absurd hfirmware hother, fun _ _ => ⟨w, hword, hcrc.trans hvalue⟩,
        fun _ _ => ⟨done, hfilled, hcarried⟩⟩
  · exact absurd hstep (by simp)

/-- **Step lemma.** -/
theorem Staging.step (h : Staging chip file p₀ c) (hinv : Inv file c)
    (hlen : (file.drop 8).length < 2 ^ 30) {act : Act} (hstep : c.step chip act = some c') :
    Staging chip file p₀ c' := by
  cases act with
  | poll now answer => exact h.poll hinv hlen hstep
  | receive | answer | ready | finish =>
      obtain ⟨hactive, hupdater, hprogrammer⟩ := updater_of_step (by nofun) hstep
      exact h.congr hactive hupdater hprogrammer

/-- A session begins with the programmer of the loader. -/
theorem staging_start {file wire : List UInt8} {connected : List Transmit × Loader}
    (hver : connected.2.updater.state = .GET_BYTES_VER) :
    Staging chip file connected.2.programmer (start file wire connected) where
  untouched _ _ := rfl
  sourceCrc _ hstate := absurd (hver.symm.trans hstate) (by decide)
  filled _ hstate := absurd (hver.symm.trans hstate) (by decide)

/-- **Run lemma.** -/
theorem staging_of_run {acts : List Act} {c₀ : Download} (hinv : Inv file c₀)
    (h : Staging chip file p₀ c₀) (hlen : (file.drop 8).length < 2 ^ 30)
    (hrun : LTS.Run (LTS.stepOf (step chip)) c₀ acts c) : Inv file c ∧ Staging chip file p₀ c := by
  induction hrun with
  | nil => exact ⟨hinv, h⟩
  | snoc _ hlast ih => exact ⟨ih.1.step hlast, ih.2.step ih.1 hlen hlast⟩

/-! ## The end of the file -/

/-- What the last block leaves: the staging area holds the padded image, and nothing in front of
it has changed. -/
theorem Staging.closeSession (h : Staging chip file p₀ c) (hinv : Inv file c) {now : UInt32}
    (hend : c.AtEndOfFile now) (hfits : (padded (file.drop 8)).length ≤ MAX_SIZE_STORAGE)
    (hshows : Shows ADDR_STORAGE p₀.rom) :
    ∃ p q, c.loader.programmer.writeBytes chip c.loader.reader.received = some p ∧
      p.closeSession chip = some q ∧ q.writtenBytes = (padded (file.drop 8)).length ∧
      q.rom.cells.read ADDR_STORAGE (padded (file.drop 8)).length = padded (file.drop 8) ∧
      ∀ x < ADDR_STORAGE, q.rom.cells x = p₀.rom.cells x := by
  obtain ⟨hactive, hstate, -, hflag⟩ := id hend
  have hsmall : MAX_SIZE_STORAGE < 2 ^ 30 := by decide
  have haddr : ADDR_STORAGE < 2 ^ 31 := by decide
  have hlen : (file.drop 8).length ≤ (padded (file.drop 8)).length := by
    rw [length_padded]
    omega
  obtain ⟨p, done, hwrite, hfilled, hcarried⟩ :=
    h.writeBytes hinv hactive hstate (Or.inr hflag) (by omega)
  have himage : done ++ p.bytes = file.drop 8 := by
    rw [hcarried, blocks_writeBytes hwrite, List.flatten_append, List.flatten_singleton]
    exact (hinv.payload hend).symm
  obtain ⟨q, hclose, -, hwritten, hprogrammed⟩ :=
    hfilled.closeSession (by rw [himage]; omega) (by rw [himage]; omega)
  rw [himage] at hwritten hprogrammed
  have hcleared := cleared_of_shows p₀ (.inl rfl) hshows
  refine ⟨p, q, hwrite, hclose, hwritten, ?_, fun x hx => ?_⟩
  · rw [hprogrammed.cells]
    refine read_programBytes chip _ _ _ (by rw [length_padded]; omega) fun x hx hx' => ?_
    exact hcleared.erased x hx (by omega)
  · rw [hprogrammed.cells, programBytes_of_outside chip _ _ _ (.inl hx)]
    exact hcleared.outside x (.inl hx)

/-- The image is in the staging area, and the copy loop is entered for it. -/
structure Accepted (image : List UInt8) (rom : HAL_ROM) (s : Loader) : Prop where
  copying : s.copying = some image.length
  written : s.programmer.writtenBytes = image.length
  staged : s.rom.cells.read ADDR_STORAGE image.length = image
  sourceCrc : s.updater.sourceCrc = Math.calculateCRC image
  application : ∀ x < ADDR_STORAGE, s.rom.cells x = rom.cells x

/-- The update begins again, and the application is as it was. -/
structure Rejected (rom : HAL_ROM) (s : Loader) : Prop where
  copying : s.copying = none
  restarted : s.updater.state = .IDLE ∧ s.sim868.state = .START
  application : ∀ x < ADDR_STORAGE, s.rom.cells x = rom.cells x

/-- **The end of the file** `frm version crc image`. -/
theorem Staging.endOfFile {version crc : UInt32} {image : List UInt8}
    (h : Staging chip (HandlerBIN.frm version crc image) p₀ c)
    (hinv : Inv (HandlerBIN.frm version crc image) c) {now : UInt32} (hend : c.AtEndOfFile now)
    (hfits : (padded image).length ≤ MAX_SIZE_STORAGE) (hshows : Shows ADDR_STORAGE p₀.rom)
    (answer : List UInt8) :
    ∃ c', c.step chip (.poll now answer) = some c' ∧
      if Math.calculateCRC (padded image) = crc then Accepted (padded image) p₀.rom c'.loader
      else Rejected p₀.rom c'.loader := by
  obtain ⟨hactive, hstate, htime, hflag⟩ := id hend
  obtain ⟨p, q, hwrite, hclose, hwritten, hread, hframe⟩ := h.closeSession hinv hend hfits hshows
  rw [HandlerBIN.drop_frm] at hwritten hread
  obtain ⟨w, hword, hvalue⟩ := h.sourceCrc hactive hstate
  have hsource : c.loader.updater.sourceCrc = crc := by
    rw [HandlerBIN.take_drop_frm, Word.bytes_inj] at hword
    rw [hvalue, ← hword, Word.toUInt32_ofUInt32]
  have hupdate : c.loader.updateUpdater chip now answer = c.loader.endOfFile chip := by
    simp only [Loader.updateUpdater, hstate, Loader.getBytesFirmware, Loader.meterIsRunning,
      if_pos htime, if_pos hflag]
  rw [Download.step, if_pos hactive, hupdate]
  simp only [Loader.endOfFile, Option.bind_eq_bind, hwrite, hclose, Option.bind_some, hwritten,
    hread, hsource]
  by_cases hcrc : Math.calculateCRC (padded image) = crc
  · simp only [if_pos hcrc]
    exact ⟨_, rfl, rfl, rfl, hread, hcrc.symm, hframe⟩
  · simp only [if_neg hcrc]
    exact ⟨_, rfl, hactive.2, ⟨rfl, rfl⟩, hframe⟩

/-! ## The copy -/

/-- A page of the area that holds anything shows it in a word of its own that `PageIsEmpty` looks
at. -/
def ShowsWithin (start : ℕ) (cells : Memory) : Prop :=
  ∀ i < MAX_SIZE_STORAGE / SIZE_PAGE,
    (∀ j < SIZE_PAGE / 16, cells.word (start + i * SIZE_PAGE + 16 * j) = .erased) →
      cells.ErasedOn (start + i * SIZE_PAGE) SIZE_PAGE

/-- What lies behind the application does not matter then. -/
theorem ShowsWithin.shows {cells : Memory} {rom : HAL_ROM} (h : ShowsWithin ADDR_APPLICATION cells)
    (hsame : ∀ x < ADDR_STORAGE, rom.cells x = cells x) : Shows ADDR_APPLICATION rom := by
  intro i hi hempty
  have hpage : ∀ x, x < ADDR_APPLICATION + i * SIZE_PAGE + SIZE_PAGE → rom.cells x = cells x := by
    intro x hx
    apply hsame
    simp only [ADDR_APPLICATION, ADDR_STORAGE, SIZE_PAGE, MAX_SIZE_STORAGE] at hi hx ⊢
    omega
  have herased : cells.ErasedOn (ADDR_APPLICATION + i * SIZE_PAGE) SIZE_PAGE := by
    refine h i hi fun j hj => ?_
    have hword := of_decide_eq_true (List.all_eq_true.mp hempty j (List.mem_range.mpr ?_))
    · rw [pageAddress_of_start (.inr rfl) i hi] at hword
      simp only [SIZE_PAGE] at hj
      simp only [Memory.word] at hword ⊢
      rw [← hpage _ (by simp only [SIZE_PAGE]; omega), ← hpage _ (by simp only [SIZE_PAGE]; omega),
        ← hpage _ (by simp only [SIZE_PAGE]; omega), ← hpage _ (by simp only [SIZE_PAGE]; omega)]
      exact hword
    · simp only [SIZE_PAGE] at hj ⊢
      omega
  intro x hx hx'
  rw [hpage x hx']
  exact herased x hx hx'

variable {image : List UInt8} {rom : HAL_ROM} {s t : Loader}

/-- A symbol that arrives while the image is copied goes to the reader, if anywhere. -/
theorem Accepted.receive (h : Accepted image rom s) {symbol : UInt8}
    (hnext : s.next chip (.receive symbol) = some t) : Accepted image rom t := by
  obtain ⟨⟨commands, u⟩, hstep, rfl⟩ := Option.map_eq_some_iff.mp hnext
  rw [Loader.step, Loader.receive] at hstep
  split at hstep
  · obtain ⟨⟨sent, reader⟩, -, hstep⟩ := Option.map_eq_some_iff.mp hstep
    obtain ⟨-, rfl⟩ := Prod.mk.inj hstep
    exact ⟨h.copying, h.written, h.staged, h.sourceCrc, h.application⟩
  · obtain ⟨-, rfl⟩ := Prod.mk.inj (Option.some.inj hstep)
    exact h

theorem Accepted.symbols (h : Accepted image rom s) {received : List UInt8}
    (hrun : LTS.Run (LTS.stepOf (Loader.next chip)) s (Loader.symbols received) t) :
    Accepted image rom t := by
  induction received generalizing s with
  | nil =>
      obtain rfl := hrun.eq_of_nil
      exact h
  | cons b received ih =>
      obtain ⟨u, hfirst, hrest⟩ := hrun.uncons
      exact ih (h.receive hfirst) hrest

/-- The image is the application, and the update over. -/
structure Installed (image : List UInt8) (s : Loader) : Prop where
  completed : s.isCompleted
  copying : s.copying = none
  application : s.rom.cells.read ADDR_APPLICATION image.length = image

/-- **A round of the copy loop** is enough. -/
theorem Accepted.copy (h : Accepted image rom s) (hwords : image.length % 4 = 0)
    (hfits : image.length ≤ MAX_SIZE_STORAGE) (hshows : ShowsWithin ADDR_APPLICATION rom.cells)
    (chip : Chip) : ∃ t, s.next chip .copy = some t ∧ Installed image t := by
  have hstaged : Staged s.rom.cells image.length s.programmer :=
    ⟨h.written, hwords, hfits, fun _ _ => rfl⟩
  obtain ⟨p, hcopy, hread, -⟩ := hstaged.read_copyFirmware chip (hshows.shows h.application)
  rw [h.staged] at hread
  obtain ⟨t, hround, ht⟩ : ∃ t, s.copyRound chip image.length = some t ∧ Installed image t := by
    rw [Loader.copyRound, hcopy, Option.map_some, hread, h.sourceCrc, if_pos rfl]
    exact ⟨_, rfl, rfl, rfl, hread⟩
  refine ⟨t, ?_, ht⟩
  rw [Loader.next, Loader.step, h.copying, Option.bind_some, hround]
  rfl

end Download

end USKD
