import USKD.Loader.Verified

/-!
# Where a download and a copy write

The staging area ends where the code of the loader begins.  Nothing compares the length of
the image with it: `inside_of_fits` says that a download stays in the staging area and a copy
in the application if in every attempt the image, as far as it is handed to `WriteBytes`, fits
the staging area, and `not_inside_longImage` is a session that overwrites the loader.
-/

namespace USKD

open NorFlash Programmer HAL_ROM FlashEvent

/-- The address that the loader is linked at. -/
def ADDR_LOADER : ℕ := 0x08026000

namespace FlashEvent

/-- The area that is written behind a trace: the application in an open copy, else the
staging area. -/
def area (pre : List FlashEvent) : ℕ × ℕ :=
  if (openCopy pre).isSome then (ADDR_APPLICATION, ADDR_APPLICATION + MAX_SIZE_STORAGE)
  else (ADDR_STORAGE, ADDR_STORAGE + MAX_SIZE_STORAGE)

/-- Every byte that is erased or programmed lies in the area of its phase. -/
def Inside (pre : List FlashEvent) (e : FlashEvent) : Prop :=
  ∀ x, e.Touches x → (area pre).1 ≤ x ∧ x < (area pre).2

/-- Operations in the area of the current phase. -/
theorem inside_changed {a b : ℕ} {rom rom' : HAL_ROM} (h : Trace.Each Inside rom.trace)
    (hchanged : Changed a b rom rom') (ha : (area rom.trace).1 ≤ a) (hb : b ≤ (area rom.trace).2) :
    Trace.Each Inside rom'.trace := by
  obtain ⟨es, htrace, hes⟩ := hchanged.trace
  rw [htrace]
  refine h.append fun pre hpre e he x hx => ?_
  have harea : area (rom.trace ++ pre) = area rom.trace := by
    rw [area, area, openCopy_append fun d hd => hes d (hpre.subset hd)]
  rw [harea]
  have hin := (hes e he).touches hx
  exact ⟨ha.trans hin.1, hin.2.trans_le hb⟩

theorem area_of_closed {pre : List FlashEvent} (h : openCopy pre = none) :
    area pre = (ADDR_STORAGE, ADDR_STORAGE + MAX_SIZE_STORAGE) := by
  rw [area, h]
  rfl

theorem area_of_open {pre : List FlashEvent} {c : ℕ × UInt32} (h : openCopy pre = some c) :
    area pre = (ADDR_APPLICATION, ADDR_APPLICATION + MAX_SIZE_STORAGE) := by
  rw [area, h]
  rfl

end FlashEvent

namespace Loader

variable {chip : Chip} {cells : Memory} {s t : Loader}

/-- The invariant behind `inside_of_fits`. -/
structure Bounded (cells : Memory) (s : Loader) : Prop where
  sound : Sound cells s
  download : s.updater.state = .GET_BYTES_FIRMWARE → s.copying = none →
    s.programmer.writtenBytes ≤ MAX_SIZE_STORAGE
  copy : ∀ n, s.copying = some n → n ≤ MAX_SIZE_STORAGE
  inside : Trace.Each Inside s.rom.trace
  loader : ∀ x, ADDR_LOADER ≤ x → s.rom.cells x = cells x

theorem bounded_boot (cells : Memory) : Bounded cells (boot cells) where
  sound := sound_boot cells
  download h := absurd h (by simp [boot])
  copy n h := absurd h (by simp [boot])
  inside := Trace.each_nil
  loader _ _ := rfl

theorem loader_eq : ADDR_LOADER = ADDR_STORAGE + MAX_SIZE_STORAGE := by decide

theorem storage_eq : ADDR_STORAGE = ADDR_APPLICATION + MAX_SIZE_STORAGE := by decide

/-- Outside of the copy loop, operations in the staging area keep the bounds. -/
theorem Bounded.changed (h : Bounded cells s) (hs : s.copying = none)
    {a b : ℕ} {rom' : HAL_ROM} (hchanged : Changed a b s.rom rom') (ha : ADDR_STORAGE ≤ a)
    (hb : b ≤ ADDR_STORAGE + MAX_SIZE_STORAGE) :
    Trace.Each Inside rom'.trace ∧ ∀ x, ADDR_LOADER ≤ x → rom'.cells x = cells x := by
  have harea : area s.rom.trace = (ADDR_STORAGE, ADDR_STORAGE + MAX_SIZE_STORAGE) := by
    refine area_of_closed ?_
    rw [h.sound.opened, hs]
    rfl
  refine ⟨inside_changed h.inside hchanged ?_ ?_, fun x hx => ?_⟩
  · rw [harea]
    exact ha
  · rw [harea]
    exact hb
  · rw [loader_eq] at hx
    rw [hchanged.cells x (Or.inr (hb.trans hx))]
    exact h.loader x (loader_eq ▸ hx)

/-- What writing the last piece of an image leaves. -/
theorem Bounded.write (hsound : Sound cells s) (hs : s.copying = none)
    (hstate : s.updater.state = .GET_BYTES_FIRMWARE) {p : Programmer}
    (hwrite : s.programmer.writeBytes chip s.reader.received = some p) :
    p.writtenBytes = s.imageSize / 4 * 4 ∧ p.writtenBytes + p.bytes.length = s.imageSize := by
  obtain ⟨hsession, hheld⟩ := hsound.download hstate hs
  obtain ⟨hwrote, hfew, hsum⟩ := writeBytes_spec storage_le hsession hheld hwrite
  have haligned := hwrote.session.aligned
  rw [← imageSize] at hsum
  exact ⟨by omega, hsum⟩

theorem Bounded.close (hsound : Sound cells s) (hs : s.copying = none)
    (hstate : s.updater.state = .GET_BYTES_FIRMWARE) {p q : Programmer}
    (hwrite : s.programmer.writeBytes chip s.reader.received = some p)
    (hclose : p.closeSession chip = some q) (hfits : s.imageSize ≤ MAX_SIZE_STORAGE) :
    q.writtenBytes ≤ MAX_SIZE_STORAGE := by
  obtain ⟨-, hsum⟩ := Bounded.write hsound hs hstate hwrite
  have hsession := (hsound.write hs hstate hwrite).1.session
  have hclosed := (closeSession_spec storage_le hsession hclose).2
  have hwhole : MAX_SIZE_STORAGE % 4 = 0 := by decide
  omega

/-- A round of the copy loop stays in the application. -/
theorem Bounded.copyFirmware (h : Bounded cells s) {n : ℕ}
    (hs : s.copying = some n) {p : Programmer} (hcopy : s.programmer.copyFirmware chip = some p) :
    Trace.Each Inside p.rom.trace ∧ ∀ x, ADDR_LOADER ≤ x → p.rom.cells x = cells x := by
  obtain ⟨hwritten, haligned⟩ := h.sound.size n hs
  obtain ⟨-, -, hchanged⟩ := copyFirmware_spec (hwritten ▸ haligned) hcopy
  rw [hwritten, max_eq_left (h.copy n hs), ← storage_eq] at hchanged
  have harea : area s.rom.trace = (ADDR_APPLICATION, ADDR_APPLICATION + MAX_SIZE_STORAGE) := by
    refine area_of_open (c := (n, s.updater.sourceCrc)) ?_
    rw [h.sound.opened, hs]
    rfl
  refine ⟨inside_changed h.inside hchanged ?_ ?_, fun x hx => ?_⟩
  · rw [harea]
  · rw [harea, storage_eq]
  · have habove : ADDR_STORAGE ≤ x := by
      rw [loader_eq] at hx
      exact le_trans (Nat.le_add_right _ _) hx
    rw [hchanged.cells x (Or.inr habove)]
    exact h.loader x hx

/-- **Step lemma.** -/
theorem Bounded.next (h : Bounded cells s) {op : Op} (hfits : s.Fits op)
    (hnext : s.next chip op = some t) : Bounded cells t := by
  have hsound := h.sound
  have hsound' := hsound.next hnext
  rcases effect_of_next hnext with hquiet | ⟨hs, ht, hprepare⟩ |
    ⟨hs, ht, hop, hmore, hreader, hwrite⟩ |
    ⟨hs, ht, hop, hend, p, hwrite, hclose, hidle⟩ |
    ⟨hs, hop, hend, p, q, hwrite, hclose, hcrc, ht, hprogrammer, -⟩ |
    ⟨n, -, hs, ht, hcopy, -⟩ | ⟨n, -, hs, ht, p, hcopy, hcrc, hprogrammer, hcompleted⟩
  -- nothing is programmed
  · have hrom : t.rom = s.rom := by rw [rom, hquiet.programmer, rom]
    refine ⟨hsound', fun hstate hidle => ?_, fun n hn => h.copy n (hquiet.copying ▸ hn), ?_, ?_⟩
    · rw [hquiet.programmer]
      exact h.download (hquiet.state hstate) (hquiet.copying ▸ hidle)
    · rw [hrom]
      exact h.inside
    · rw [hrom]
      exact h.loader
  -- the staging area is erased
  · obtain ⟨hinside, hloader⟩ := h.changed hs (changed_rom_prepare hprepare) le_rfl le_rfl
    refine ⟨hsound', fun _ _ => ?_, fun n hn => absurd (ht.symm.trans hn) (by simp), hinside,
      hloader⟩
    rw [hprepare]
    exact Nat.zero_le _
  -- a chunk is written, and more are to come
  · obtain ⟨hwhole, -⟩ := Bounded.write hsound hs hop.state hwrite
    have hsize := hfits hop
    rw [if_neg (by simp [hmore])] at hsize
    have hmax : t.programmer.writtenBytes ≤ MAX_SIZE_STORAGE := by
      have hless := hsize hreader
      have hmax4 : MAX_SIZE_STORAGE % 4 = 0 := by decide
      omega
    obtain ⟨hinside, hloader⟩ := h.changed hs (hsound.write hs hop.state hwrite).1.changed
      (Nat.le_add_right _ _) (Nat.add_le_add_left hmax _)
    exact ⟨hsound', fun _ _ => hmax, fun n hn => absurd (ht.symm.trans hn) (by simp), hinside,
      hloader⟩
  -- the file has ended, with a wrong checksum
  · have hsize := hfits hop
    rw [if_pos hend] at hsize
    have hmax := Bounded.close hsound hs hop.state hwrite hclose hsize
    obtain ⟨hinside, hloader⟩ := h.changed hs (hsound.close hs hop.state hwrite hclose).changed
      (Nat.le_add_right _ _) (Nat.add_le_add_left hmax _)
    exact ⟨hsound', fun _ _ => hmax, fun n hn => absurd (ht.symm.trans hn) (by simp), hinside,
      hloader⟩
  -- the file has ended, and the copy loop is entered
  · have hsize := hfits hop
    rw [if_pos hend] at hsize
    have hmax := Bounded.close hsound hs hop.state hwrite hclose hsize
    obtain ⟨hinside, hloader⟩ := h.changed hs (hsound.close hs hop.state hwrite hclose).changed
      (Nat.le_add_right _ _) (Nat.add_le_add_left hmax _)
    refine ⟨hsound', fun _ hidle => absurd (ht.symm.trans hidle) (by simp), fun n hn => ?_, ?_, ?_⟩
    · obtain rfl : q.writtenBytes = n := Option.some.inj (ht.symm.trans hn)
      exact hmax
    · rw [rom, hprogrammer]
      exact Trace.each_snoc.mpr ⟨hinside, fun x htouch => htouch.elim⟩
    · rw [rom, hprogrammer]
      exact hloader
  -- a round of the copy loop, which is entered again
  · obtain ⟨hinside, hloader⟩ := h.copyFirmware hs hcopy
    refine ⟨hsound', fun _ hidle => absurd (ht.symm.trans hidle) (by simp), fun m hm => ?_,
      hinside, hloader⟩
    obtain rfl : n = m := Option.some.inj (ht.symm.trans hm)
    exact h.copy n hs
  -- the last round
  · obtain ⟨hinside, hloader⟩ := h.copyFirmware hs hcopy
    refine ⟨hsound', fun hfirmware _ => absurd (hcompleted.symm.trans hfirmware) (by decide),
      fun m hm => absurd (ht.symm.trans hm) (by simp), ?_, ?_⟩
    · rw [rom, hprogrammer]
      exact Trace.each_snoc.mpr ⟨hinside, fun x htouch => htouch.elim⟩
    · rw [rom, hprogrammer]
      exact hloader

theorem bounded_of_run {ops : List Op}
    (hrun : LTS.Run (LTS.Guarded Fits (LTS.stepOf (next chip))) (boot cells) ops s) :
    Bounded cells s :=
  hrun.invariant (bounded_boot cells) fun _ _ _ h hstep => h.next hstep.1 hstep.2

/-- **A loader whose images fit stays inside its areas**: in every run whose steps all meet
`Fits`, everything erased or programmed lies in the staging area, in an open copy in the
application, and the code of the loader is as at boot. -/
theorem inside_of_fits (chip : Chip) (cells : Memory) {ops : List Op} {s : Loader}
    (hrun : LTS.Run (LTS.Guarded Fits (LTS.stepOf (next chip))) (boot cells) ops s) :
    Trace.Each Inside s.rom.trace ∧ ∀ x, ADDR_LOADER ≤ x → s.rom.cells x = cells x :=
  ⟨(bounded_of_run hrun).inside, (bounded_of_run hrun).loader⟩

/-- The bounds at the end of a session in which both areas are erased and programmed. -/
theorem inside_oneBlock : ∃ s,
    LTS.Run (LTS.Guarded Fits (LTS.stepOf (next andChip))) (boot marked) oneBlock s ∧
      Busy s.rom.trace ∧ Trace.Each Inside s.rom.trace ∧
      ∀ x, ADDR_LOADER ≤ x → s.rom.cells x = marked x := by
  obtain ⟨s, hrun, -, hbusy⟩ := run_oneBlock andChip
  obtain ⟨hinside, hloader⟩ := inside_of_fits andChip marked hrun
  exact ⟨s, hrun, hbusy, hinside, hloader⟩

/-! ## An image that is too long -/

/-- One more block. -/
theorem run_block (chip : Chip) {bytesFromFTP : ℤ} (h : bytesFromFTP = 4 ∨ bytesFromFTP = 64)
    {k : ℕ} (hk : k ≤ 1216) (rom : HAL_ROM) :
    ∃ rom', LTS.Run (LTS.stepOf (next chip)) (firmware bytesFromFTP k rom) block
        (firmware 64 (k + 1) rom') ∧
      rom'.trace =
        rom.trace ++ [FlashEvent.program (ADDR_STORAGE + 64 * k) (List.replicate 64 0)] := by
  obtain ⟨rom', hwrite, htrace, -⟩ := writeBytes_block chip hk rom
  have hsymbols := run_symbols chip (s := firmware bytesFromFTP k rom) rfl (feed_block h)
  have hstep := next_firmware chip hwrite
  exact ⟨rom', (hsymbols.mono fun _ _ _ hstep => hstep.step).append (LTS.Run.single hstep), htrace⟩

/-- Any number of blocks up to the first one behind the staging area. -/
theorem run_blocks (chip : Chip) {k : ℕ} (hk : k ≤ 1217) (rom : HAL_ROM) :
    ∃ bytesFromFTP rom', (bytesFromFTP = 4 ∨ bytesFromFTP = 64) ∧
      LTS.Run (LTS.stepOf (next chip)) (firmware 4 0 rom) (List.replicate k block).flatten
        (firmware bytesFromFTP k rom') ∧
      ∀ j < k, .program (ADDR_STORAGE + 64 * j) (List.replicate 64 0) ∈ rom'.trace := by
  induction k with
  | zero => exact ⟨4, rom, Or.inl rfl, LTS.Run.nil, fun j hj => absurd hj (Nat.not_lt_zero j)⟩
  | succ k ih =>
      obtain ⟨bytesFromFTP, rom', hbytes, hrun, hmem⟩ := ih (by omega)
      obtain ⟨rom'', hblock, htrace⟩ := run_block chip hbytes (k := k) (by omega) rom'
      refine ⟨64, rom'', Or.inr rfl, ?_, fun j hj => ?_⟩
      · rw [List.replicate_succ', List.flatten_append, List.flatten_singleton]
        exact hrun.append hblock
      · rw [htrace, List.mem_append]
        rcases Nat.lt_succ_iff_lt_or_eq.mp hj with hlt | rfl
        · exact Or.inl (hmem j hlt)
        · exact Or.inr (List.mem_singleton_self _)

/-- A session over an image of 1217 blocks of zeros, 64 bytes more than the staging area. -/
def longImage : List Op := connecting ++ header ++ (List.replicate 1217 block).flatten

/-- **The loader overwrites itself**: with an erased flash, the last block of this session is
programmed over the first bytes of the loader. -/
theorem not_inside_longImage :
    ∃ s, LTS.Run (LTS.stepOf (next andChip)) (boot fun _ => 0xFF) longImage s ∧
      ¬ Trace.Each Inside s.rom.trace ∧ ∃ e ∈ s.rom.trace, e.Touches ADDR_LOADER := by
  obtain ⟨bytesFromFTP, rom, -, hblocks, hmem⟩ :=
    run_blocks andChip (k := 1217) le_rfl ⟨fun _ => 0xFF, []⟩
  have hstart := ((run_connecting andChip).append (run_header andChip)).mono
    fun _ _ _ hstep => hstep.step
  have hlast := hmem 1216 (by omega)
  have htouch : (FlashEvent.program (ADDR_STORAGE + 64 * 1216) (List.replicate 64 0)).Touches
      ADDR_LOADER := by
    have hloader : ADDR_LOADER = ADDR_STORAGE + 64 * 1216 := by decide
    refine ⟨hloader.ge, ?_⟩
    rw [hloader, List.length_replicate]
    exact Nat.lt_add_of_pos_right (by decide)
  refine ⟨_, hstart.append hblocks, fun h => ?_, _, hlast, htouch⟩
  obtain ⟨pre, post, hsplit⟩ := List.append_of_mem hlast
  have hin := (h pre _ post hsplit ADDR_LOADER htouch).2
  rw [area] at hin
  split at hin
  · exact absurd hin (by decide)
  · exact absurd hin (by decide)

end Loader

end USKD
