import USKD.Lib.Feed
import USKD.Loader.Copy
import USKD.Loader.Effect

/-!
# The application is only ever a verified one

The copy loop is *open* in a trace from a `staged` event to the `copied` event behind it
(`openCopy`).  Erasing and programming of the application happens only there, and whenever
the copy loop is not open the application is the one of boot or the last copy, whose checksum
was the one of the staged image.  The invariant is `Sound`: it ties `openCopy` to the local
data of the copy loop and keeps the write address of a download behind the application.
-/

namespace USKD

open NorFlash Programmer HAL_ROM

namespace FlashEvent

/-- The byte at `x` belongs to the application. -/
def InApplication (x : ℕ) : Prop := ADDR_APPLICATION ≤ x ∧ x < ADDR_STORAGE

/-- The copy that is under way after a trace: the size and the checksum of the staged image
it was started for. -/
def openCopy (trace : List FlashEvent) : Option (ℕ × UInt32) :=
  trace.foldl (fun current e => match e with
    | staged size crc _ => some (size, crc)
    | copied .. => none
    | erase _ | program .. => current) none

/-- The application is touched in an open copy only, and a copy is opened for an image whose
checksum is the one expected. -/
def AfterCheck (pre : List FlashEvent) (e : FlashEvent) : Prop :=
  (∀ x, InApplication x → e.Touches x → (openCopy pre).isSome) ∧
    ∀ size crc cells, e = staged size crc cells →
      Math.calculateCRC (cells.read ADDR_STORAGE size) = crc

/-- Erasing or programming behind the application. -/
def Behind (e : FlashEvent) : Prop := ∃ b, e.Within ADDR_STORAGE b

theorem openCopy_concat (trace : List FlashEvent) (e : FlashEvent) :
    openCopy (trace ++ [e]) = match e with
      | staged size crc _ => some (size, crc)
      | copied .. => none
      | erase _ | program .. => openCopy trace := by
  rw [openCopy, List.foldl_append]
  cases e <;> rfl

/-- Flash operations neither open nor close a copy. -/
theorem openCopy_append {a b : ℕ} {trace es : List FlashEvent} (hes : ∀ e ∈ es, e.Within a b) :
    openCopy (trace ++ es) = openCopy trace := by
  induction es using List.reverseRecOn with
  | nil => simp
  | append_singleton es e ih =>
      rw [← List.append_assoc, openCopy_concat, ← ih fun d hd => hes d (by simp [hd])]
      have hwithin := hes e (by simp)
      cases e with
      | erase | program => rfl
      | staged | copied => exact hwithin.elim

theorem Behind.not_touches {e : FlashEvent} (h : e.Behind) {x : ℕ} (hx : InApplication x) :
    ¬ e.Touches x := by
  intro htouch
  obtain ⟨b, hb⟩ := h
  have hlow := (hb.touches htouch).1
  have hhigh := hx.2
  omega

theorem Within.not_staged {a b : ℕ} {e : FlashEvent} (h : e.Within a b) (size : ℕ)
    (crc : UInt32) (cells : Memory) : e ≠ staged size crc cells := by
  rintro rfl
  exact h

end FlashEvent

open FlashEvent

/-- **The application is intact**: nothing touched it since boot, or the last copy had the
checksum of the staged image and nothing touched it since. -/
def HAL_ROM.Intact (cells : Memory) (rom : HAL_ROM) : Prop :=
  ((∀ e ∈ rom.trace, e.Behind) ∧ ∀ x, InApplication x → rom.cells x = cells x) ∨
    ∃ pre size crc copy post, rom.trace = pre ++ .copied size crc copy :: post ∧
      openCopy pre = some (size, crc) ∧
      Math.calculateCRC (copy.read ADDR_APPLICATION size) = crc ∧
      (∀ e ∈ post, e.Behind) ∧ ∀ x, InApplication x → rom.cells x = copy x

namespace HAL_ROM

variable {cells : Memory} {a b : ℕ} {rom rom' : HAL_ROM}

/-- Operations behind the application leave it intact. -/
theorem Intact.changed (h : Intact cells rom) (hchanged : Changed a b rom rom')
    (ha : ADDR_STORAGE ≤ a) : Intact cells rom' := by
  obtain ⟨es, htrace, hes⟩ := hchanged.trace
  have hbehind : ∀ e ∈ es, e.Behind := fun e he => ⟨b, (hes e he).mono ha le_rfl⟩
  have hcells : ∀ x, InApplication x → rom'.cells x = rom.cells x := fun x hx => by
    refine hchanged.cells x (Or.inl ?_)
    have hlow := hx.2
    omega
  rcases h with ⟨hall, happlication⟩ |
    ⟨pre, size, crc, copy, post, hsplit, hopen, hcrc, hpost, hcopy⟩
  · refine Or.inl ⟨fun e he => ?_, fun x hx => (hcells x hx).trans (happlication x hx)⟩
    rw [htrace, List.mem_append] at he
    exact he.elim (hall e) (hbehind e)
  · refine Or.inr ⟨pre, size, crc, copy, post ++ es, ?_, hopen, hcrc, fun e he => ?_,
      fun x hx => (hcells x hx).trans (hcopy x hx)⟩
    · rw [htrace, hsplit, List.append_assoc, List.cons_append]
    · exact (List.mem_append.mp he).elim (hpost e) (hbehind e)

/-- Operations behind the application need no check. -/
theorem afterCheck_of_behind (h : Trace.Each AfterCheck rom.trace)
    (hchanged : Changed a b rom rom') (ha : ADDR_STORAGE ≤ a) :
    Trace.Each AfterCheck rom'.trace := by
  obtain ⟨es, htrace, hes⟩ := hchanged.trace
  rw [htrace]
  refine h.append fun pre _ e he => ⟨fun x hx htouch => ?_, fun size crc copy hstaged => ?_⟩
  · exact absurd htouch (Behind.not_touches ⟨b, (hes e he).mono ha le_rfl⟩ hx)
  · exact absurd hstaged ((hes e he).not_staged size crc copy)

/-- In an open copy every operation is allowed. -/
theorem afterCheck_of_open (h : Trace.Each AfterCheck rom.trace)
    (hchanged : Changed a b rom rom') (hopen : (openCopy rom.trace).isSome) :
    Trace.Each AfterCheck rom'.trace := by
  obtain ⟨es, htrace, hes⟩ := hchanged.trace
  rw [htrace]
  refine h.append fun pre hpre e he => ⟨fun x _ _ => ?_, fun size crc copy hstaged => ?_⟩
  · rw [openCopy_append fun d hd => hes d (hpre.subset hd)]
    exact hopen
  · exact absurd hstaged ((hes e he).not_staged size crc copy)

theorem openCopy_changed (hchanged : Changed a b rom rom') :
    openCopy rom'.trace = openCopy rom.trace := by
  obtain ⟨es, htrace, hes⟩ := hchanged.trace
  rw [htrace, openCopy_append hes]

end HAL_ROM

namespace Loader

variable {chip : Chip} {cells : Memory} {s t : Loader}

/-- A download writes behind what it has written. -/
def Downloading (s : Loader) : Prop :=
  s.updater.state = .GET_BYTES_FIRMWARE → s.copying = none →
    Session ADDR_STORAGE s.programmer ∧ s.programmer.bytes.length < 4

/-- The invariant of the loader. -/
structure Sound (cells : Memory) (s : Loader) : Prop where
  download : s.Downloading
  state : s.copying ≠ none → s.updater.state = .GET_BYTES_FIRMWARE
  size : ∀ n, s.copying = some n → s.programmer.writtenBytes = n ∧ n % 4 = 0
  opened : openCopy s.rom.trace = s.copying.map fun n => (n, s.updater.sourceCrc)
  checked : Trace.Each AfterCheck s.rom.trace
  intact : s.copying = none → s.rom.Intact cells

theorem sound_boot (cells : Memory) : Sound cells (boot cells) where
  download h := absurd h (by simp [boot])
  state h := absurd rfl h
  size n h := absurd h (by simp [boot])
  opened := rfl
  checked := Trace.each_nil
  intact _ := Or.inl ⟨fun e he => absurd he (by simp [rom, boot]), fun _ _ => rfl⟩

theorem storage_le : ADDR_STORAGE ≤ 2 ^ 31 := by decide

theorem Sound.quiet (h : Sound cells s) (hquiet : Quiet s t) : Sound cells t where
  download hstate hidle := by
    rw [hquiet.programmer]
    exact h.download (hquiet.state hstate) (hquiet.copying ▸ hidle)
  state hcopying := by
    rw [hquiet.copying] at hcopying
    rw [hquiet.updater hcopying]
    exact h.state hcopying
  size n hn := by
    rw [hquiet.programmer]
    exact h.size n (hquiet.copying ▸ hn)
  opened := by
    rw [rom, hquiet.programmer, hquiet.copying, ← rom, h.opened]
    cases hcopying : s.copying with
    | none => rfl
    | some n => rw [hquiet.updater (by simp [hcopying])]
  checked := by
    rw [rom, hquiet.programmer]
    exact h.checked
  intact hidle := by
    rw [rom, hquiet.programmer]
    exact h.intact (hquiet.copying ▸ hidle)

/-- Outside of the copy loop, operations behind the application keep the invariant. -/
theorem Sound.changed (h : Sound cells s) (hs : s.copying = none) (ht : t.copying = none)
    {a b : ℕ} (hchanged : Changed a b s.rom t.rom) (ha : ADDR_STORAGE ≤ a)
    (hdownload : t.Downloading) : Sound cells t where
  download := hdownload
  state hcopying := absurd ht hcopying
  size n hn := absurd (ht.symm.trans hn) (by simp)
  opened := by
    rw [openCopy_changed hchanged, h.opened, hs, ht]
    rfl
  checked := afterCheck_of_behind h.checked hchanged ha
  intact _ := (h.intact hs).changed hchanged ha

/-- `Prepare(ADDR_STORAGE)` erases the staging area. -/
theorem changed_rom_prepare (h : t.programmer = s.programmer.prepare ADDR_STORAGE) :
    Changed ADDR_STORAGE (ADDR_STORAGE + MAX_SIZE_STORAGE) s.rom t.rom := by
  rw [rom, rom, h, addr_storage]
  exact changed_prepare s.programmer (by decide)

theorem Sound.prepared (h : Sound cells s) (hs : s.copying = none) (ht : t.copying = none)
    (hprogrammer : t.programmer = s.programmer.prepare ADDR_STORAGE) : Sound cells t := by
  refine h.changed hs ht (changed_rom_prepare hprogrammer) le_rfl fun _ _ => ?_
  rw [hprogrammer]
  refine ⟨session_prepare _ _, ?_⟩
  show 0 < 4
  decide

/-- What is left of the download when a chunk was written. -/
theorem Sound.write (h : Sound cells s) (hs : s.copying = none)
    (hstate : s.updater.state = .GET_BYTES_FIRMWARE) {p : Programmer} {data : List UInt8}
    (hwrite : s.programmer.writeBytes chip data = some p) :
    Wrote ADDR_STORAGE s.programmer p ∧ p.bytes.length < 4 := by
  obtain ⟨hsession, hheld⟩ := h.download hstate hs
  obtain ⟨hwrote, hfew, -⟩ := writeBytes_spec storage_le hsession hheld hwrite
  exact ⟨hwrote, hfew⟩

theorem Sound.close (h : Sound cells s) (hs : s.copying = none)
    (hstate : s.updater.state = .GET_BYTES_FIRMWARE) {p q : Programmer} {data : List UInt8}
    (hwrite : s.programmer.writeBytes chip data = some p) (hclose : p.closeSession chip = some q) :
    Wrote ADDR_STORAGE s.programmer q := by
  obtain ⟨hwrote, hfew⟩ := h.write hs hstate hwrite
  exact hwrote.trans (closeSession_spec storage_le hwrote.session hclose).1

theorem InFirmware.state {op : Op} (h : s.InFirmware op) :
    s.updater.state = .GET_BYTES_FIRMWARE := by
  cases op with
  | answer now answer => exact h.2.2.1
  | receive | modem | copy => exact h.elim

/-- The checksum of the staged image is right: the copy is opened. -/
theorem Sound.staged (h : Sound cells s) {q : Programmer}
    (hwrote : Wrote ADDR_STORAGE s.programmer q)
    (hcrc : Math.calculateCRC (q.rom.cells.read ADDR_STORAGE q.writtenBytes) =
      s.updater.sourceCrc)
    (ht : t.copying = some q.writtenBytes)
    (hprogrammer : t.programmer = { q with rom := { q.rom with
      trace := q.rom.trace ++ [.staged q.writtenBytes s.updater.sourceCrc q.rom.cells] } })
    (hstate : t.updater.state = .GET_BYTES_FIRMWARE)
    (hsource : t.updater.sourceCrc = s.updater.sourceCrc) : Sound cells t where
  download _ hidle := absurd (ht.symm.trans hidle) (by simp)
  state _ := hstate
  size n hn := by
    obtain rfl : q.writtenBytes = n := Option.some.inj (ht.symm.trans hn)
    rw [hprogrammer]
    exact ⟨rfl, hwrote.session.aligned⟩
  opened := by
    rw [rom, hprogrammer, openCopy_concat, ht, hsource]
    rfl
  checked := by
    rw [rom, hprogrammer]
    refine Trace.each_snoc.mpr ⟨?_, fun x _ htouch => htouch.elim, fun size crc copy hstaged => ?_⟩
    · exact afterCheck_of_behind h.checked hwrote.changed (Nat.le_add_right _ _)
    · obtain ⟨rfl, rfl, rfl⟩ := FlashEvent.staged.inj hstaged
      exact hcrc
  intact hidle := absurd (ht.symm.trans hidle) (by simp)

/-- A round of the copy loop works on the application, with the copy open. -/
theorem Sound.copyFirmware (h : Sound cells s) {n : ℕ} (hs : s.copying = some n)
    {p : Programmer} (hcopy : s.programmer.copyFirmware chip = some p) :
    p.writtenBytes = n ∧ openCopy p.rom.trace = some (n, s.updater.sourceCrc) ∧
      Trace.Each AfterCheck p.rom.trace := by
  obtain ⟨hwritten, haligned⟩ := h.size n hs
  obtain ⟨hsize, -, hchanged⟩ := copyFirmware_spec (hwritten ▸ haligned) hcopy
  have hopen : openCopy s.rom.trace = some (n, s.updater.sourceCrc) := by
    rw [h.opened, hs]
    rfl
  refine ⟨hsize.trans hwritten, (openCopy_changed hchanged).trans hopen, ?_⟩
  exact afterCheck_of_open h.checked hchanged (by rw [hopen]; rfl)

theorem Sound.round (h : Sound cells s) {n : ℕ} (hs : s.copying = some n)
    (ht : t.copying = some n) (hcopy : s.programmer.copyFirmware chip = some t.programmer)
    (hupdater : t.updater = s.updater) : Sound cells t := by
  obtain ⟨hsize, hopen, hchecked⟩ := h.copyFirmware hs hcopy
  exact {
    download := fun _ hidle => absurd (ht.symm.trans hidle) (by simp)
    state := fun _ => hupdater ▸ h.state (by simp [hs])
    size := fun m hm => by
      obtain rfl : n = m := Option.some.inj (ht.symm.trans hm)
      exact ⟨hsize, (h.size n hs).2⟩
    opened := by
      rw [rom, hopen, ht, hupdater]
      rfl
    checked := hchecked
    intact := fun hidle => absurd (ht.symm.trans hidle) (by simp) }

/-- The copy has the checksum: it is closed. -/
theorem Sound.copied (h : Sound cells s) {n : ℕ} (hs : s.copying = some n)
    (ht : t.copying = none) {p : Programmer} (hcopy : s.programmer.copyFirmware chip = some p)
    (hcrc : Math.calculateCRC (p.rom.cells.read ADDR_APPLICATION n) = s.updater.sourceCrc)
    (hprogrammer : t.programmer = { p with rom := { p.rom with
      trace := p.rom.trace ++ [.copied n s.updater.sourceCrc p.rom.cells] } })
    (hstate : t.updater.state = .COMPLETED) : Sound cells t := by
  obtain ⟨-, hopen, hchecked⟩ := h.copyFirmware hs hcopy
  exact {
    download := fun hfirmware _ => absurd (hstate.symm.trans hfirmware) (by decide)
    state := fun hcopying => absurd ht hcopying
    size := fun m hm => absurd (ht.symm.trans hm) (by simp)
    opened := by
      rw [rom, hprogrammer, openCopy_concat, ht]
      rfl
    checked := by
      rw [rom, hprogrammer]
      exact Trace.each_snoc.mpr ⟨hchecked, fun x _ htouch => htouch.elim,
        fun _ _ _ hstaged => absurd hstaged (by simp)⟩
    intact := fun _ => by
      rw [rom, hprogrammer]
      refine Or.inr ⟨p.rom.trace, n, s.updater.sourceCrc, p.rom.cells, [], rfl, hopen, hcrc, ?_,
        fun _ _ => rfl⟩
      simp }

/-- **Step lemma.** -/
theorem Sound.next (h : Sound cells s) {op : Op} (hnext : s.next chip op = some t) :
    Sound cells t := by
  rcases effect_of_next hnext with hquiet | ⟨hs, ht, hprepare⟩ | ⟨hs, ht, hop, -, -, hwrite⟩ |
    ⟨hs, ht, hop, -, p, hwrite, hclose, hidle⟩ |
    ⟨hs, hop, -, p, q, hwrite, hclose, hcrc, ht, hprogrammer, hfirmware, hsource⟩ |
    ⟨n, -, hs, ht, hcopy, hupdater⟩ | ⟨n, -, hs, ht, p, hcopy, hcrc, hprogrammer, hcompleted⟩
  · exact h.quiet hquiet
  · exact h.prepared hs ht hprepare
  · obtain ⟨hwrote, hfew⟩ := h.write hs hop.state hwrite
    exact h.changed hs ht hwrote.changed (Nat.le_add_right _ _) fun _ _ => ⟨hwrote.session, hfew⟩
  · have hwrote := h.close hs hop.state hwrite hclose
    refine h.changed hs ht hwrote.changed (Nat.le_add_right _ _) fun hfirmware _ => ?_
    exact absurd (hidle.symm.trans hfirmware) (by decide)
  · exact h.staged (h.close hs hop.state hwrite hclose) hcrc ht hprogrammer hfirmware hsource
  · exact h.round hs ht hcopy hupdater
  · exact h.copied hs ht hcopy hcrc hprogrammer hcompleted

/-- Every state that the loader reaches is sound. -/
theorem sound_of_run {ops : List Op} (hrun : LTS.Run (LTS.stepOf (next chip)) (boot cells) ops s) :
    Sound cells s :=
  hrun.invariant (sound_boot cells) fun _ _ _ h hnext => h.next hnext

/-- The application changes in rounds of the copy loop only. -/
theorem Sound.application_of_next (h : Sound cells s) {op : Op}
    (hnext : s.next chip op = some t) {x : ℕ} (hx : InApplication x)
    (hchange : t.rom.cells x ≠ s.rom.cells x) : op = .copy ∧ s.copying.isSome := by
  -- outside of the copy loop the address stands behind the application
  have hbehind : ∀ {a b rom'}, Changed a b s.rom rom' → ADDR_STORAGE ≤ a →
      rom'.cells x = s.rom.cells x := fun hchanged ha =>
    hchanged.cells x (Or.inl (hx.2.trans_le ha))
  rcases effect_of_next hnext with hquiet | ⟨hs, ht, hprepare⟩ | ⟨hs, ht, hop, -, -, hwrite⟩ |
    ⟨hs, ht, hop, -, p, hwrite, hclose, hidle⟩ |
    ⟨hs, hop, -, p, q, hwrite, hclose, hcrc, ht, hprogrammer, -⟩ |
    ⟨n, hop, hs, -⟩ | ⟨n, hop, hs, -⟩
  · exact absurd (by rw [rom, hquiet.programmer, rom]) hchange
  · have hchanged : Changed ADDR_STORAGE (ADDR_STORAGE + MAX_SIZE_STORAGE) s.rom t.rom :=
      changed_rom_prepare hprepare
    exact absurd (hbehind hchanged le_rfl) hchange
  · exact absurd (hbehind (h.write hs hop.state hwrite).1.changed (Nat.le_add_right _ _)) hchange
  · exact absurd (hbehind (h.close hs hop.state hwrite hclose).changed (Nat.le_add_right _ _))
      hchange
  · rw [rom, hprogrammer] at hchange
    exact absurd (hbehind (h.close hs hop.state hwrite hclose).changed (Nat.le_add_right _ _))
      hchange
  · exact ⟨hop, by simp [hs]⟩
  · exact ⟨hop, by simp [hs]⟩

/-- **The loader never runs a half-copied or an unverified application.**  In every run the
application is erased and programmed only inside a copy that was opened for a staged image
with the expected checksum, its bytes change in rounds of the copy loop only, and whenever
`IsCompleted()` holds it is intact. -/
theorem application_verified (chip : Chip) (cells : Memory) {ops : List Op} {s : Loader}
    (hrun : LTS.Run (LTS.stepOf (next chip)) (boot cells) ops s) :
    Trace.Each AfterCheck s.rom.trace ∧
      (∀ op t x, s.next chip op = some t → InApplication x → t.rom.cells x ≠ s.rom.cells x →
        op = .copy ∧ (openCopy s.rom.trace).isSome) ∧
      (s.isCompleted → s.rom.Intact cells) := by
  have hsound := sound_of_run hrun
  refine ⟨hsound.checked, fun op t x hnext hx hchange => ?_, fun hcompleted => ?_⟩
  · obtain ⟨hop, hcopying⟩ := hsound.application_of_next hnext hx hchange
    rw [hsound.opened, Option.isSome_map]
    exact ⟨hop, hcopying⟩
  · refine hsound.intact (Decidable.byContradiction fun hcopying => ?_)
    have hstate : s.updater.state = .COMPLETED := by simpa [isCompleted] using hcompleted
    exact absurd (hstate.symm.trans (hsound.state hcopying)) (by decide)

/-! ## A session

The flash is erased at boot, or erased but for a mark; version, checksum and image of the file are
zero. -/

/-- Answers, all at time 0. -/
def answers (texts : List String) : List Op := texts.map fun text => .answer 0 (ascii text)

/-- Symbols of the modem. -/
def symbols (bytes : List UInt8) : List Op := bytes.map .receive

/-- `+FTPGET: 2,n`, the bytes, and `OK`. -/
def chunk (line : String) (data : List UInt8) : List UInt8 :=
  ascii line ++ [0x0D, 0x0A] ++ data ++ [0x0D, 0x0A] ++ ascii "OK" ++ [0x0D, 0x0A]

/-- From boot to the request for the version. -/
def connecting : List Op :=
  (⟨0, false, false⟩ :: Modem.powerUp 0).map .modem ++
    answers ["", "OK", "RDY", "OK", "OK", "+CREG: 1", "STATE: IP INITIAL", "", "", "OK", "OK", "OK",
      "OK", "OK", "OK", "OK", "OK", "OK", "OK", "OK", "+FTPGET: 1,1"]

/-- Version and checksum are received. -/
def header : List Op :=
  symbols (chunk "+FTPGET: 2,4" [0, 0, 0, 0]) ++ answers [""] ++
    symbols (chunk "+FTPGET: 2,4" [0, 0, 0, 0]) ++ answers [""]

/-- The loader during these sessions. -/
def during (state : Updater.State) (reader : ReaderFTP) (programmer : Programmer) : Loader where
  modem := ⟨.HARDWARE_IS_OK, .reset 4753⟩
  sim868 := ⟨.RUNNING_UPDATER, .reset 0, ascii "0"⟩
  updater := ⟨state, .reset 0, 0, 0, 0⟩
  reader := reader
  programmer := programmer
  copying := none

/-- The reader before a request is answered, and after it. -/
def asking (needBytes : ℕ) (bytesFromFTP : ℤ) : ReaderFTP :=
  { ReaderFTP.boot with needBytes, bytesFromFTP }

def answered (needBytes : ℕ) : ReaderFTP :=
  { asking needBytes needBytes with pointerData := needBytes, requestedBytesReceived := true }

/-- Symbols go to the reader, and no guard is in their way. -/
theorem run_symbols (chip : Chip) {s : Loader} (hmode : s.inModeReceiveDataFromFTP)
    {bytes : List UInt8}
    {sent : List (List Transmit)} {reader : ReaderFTP}
    (hfeed : Transducer.feed ReaderFTP.appendByte s.reader bytes = some (sent, reader)) :
    LTS.Run (LTS.Guarded Fits (LTS.stepOf (next chip))) s (symbols bytes) { s with reader } := by
  induction bytes generalizing s sent with
  | nil =>
      obtain ⟨-, rfl⟩ := Prod.mk.inj (Option.some.inj hfeed)
      exact LTS.Run.nil
  | cons b bytes ih =>
      rw [Transducer.feed_cons, Option.bind_eq_some_iff] at hfeed
      obtain ⟨⟨commands, r⟩, hfirst, hfeed⟩ := hfeed
      obtain ⟨⟨sent', r'⟩, hrest, hfeed⟩ := Option.map_eq_some_iff.mp hfeed
      obtain ⟨-, rfl⟩ := Prod.mk.inj hfeed
      have hstep : s.next chip (.receive b) = some { s with reader := r } := by
        rw [next, step, receive, if_pos hmode, hfirst]
        rfl
      have hone : LTS.Guarded Fits (LTS.stepOf (next chip)) s (.receive b) { s with reader := r } :=
        ⟨fun h => h.elim, hstep⟩
      exact (LTS.Run.single hone).append (ih (s := { s with reader := r }) hmode hrest)

set_option maxRecDepth 20000 in
theorem run_connecting (chip : Chip) :
    LTS.Run (LTS.Guarded Fits (LTS.stepOf (next chip))) (boot fun _ => 0xFF) connecting
      (during .GET_BYTES_VER (asking 4 0) ⟨0, 0, [], [], ⟨fun _ => 0xFF, []⟩⟩) :=
  LTS.run_of_execRun_guardedBy rfl

set_option maxRecDepth 20000 in
theorem run_connecting_marked (chip : Chip) :
    LTS.Run (LTS.Guarded Fits (LTS.stepOf (next chip))) (boot marked) connecting
      (during .GET_BYTES_VER (asking 4 0) (idle marked)) :=
  LTS.run_of_execRun_guardedBy rfl

/-- A chunk of zeros is read, whatever the reader was last given. -/
theorem feed_header {bytesFromFTP : ℤ} (h : bytesFromFTP = 0 ∨ bytesFromFTP = 4) :
    Transducer.feed ReaderFTP.appendByte (asking 4 bytesFromFTP)
      (chunk "+FTPGET: 2,4" [0, 0, 0, 0]) = some (List.replicate 24 [], answered 4) := by
  rcases h with rfl | rfl
  · decide
  · decide

/-- Version and checksum are received, and the checksum is not taken yet. -/
theorem run_checksum (chip : Chip) {cells : Memory} (h : cells = (fun _ => 0xFF) ∨ cells = marked) :
    LTS.Run (LTS.Guarded Fits (LTS.stepOf (next chip)))
      (during .GET_BYTES_VER (asking 4 0) (idle cells)) header.dropLast
      (during .GET_BYTES_CRC (answered 4) (idle cells)) := by
  have hversion := run_symbols chip (s := during .GET_BYTES_VER (asking 4 0) (idle cells)) rfl
    (feed_header (Or.inl rfl))
  have hask : LTS.Run (LTS.Guarded Fits (LTS.stepOf (next chip)))
      (during .GET_BYTES_VER (answered 4) (idle cells)) (answers [""])
      (during .GET_BYTES_CRC (asking 4 4) (idle cells)) := by
    rcases h with rfl | rfl
    · exact LTS.run_of_execRun_guardedBy rfl
    · exact LTS.run_of_execRun_guardedBy rfl
  have hcrc := run_symbols chip (s := during .GET_BYTES_CRC (asking 4 4) (idle cells)) rfl
    (feed_header (Or.inr rfl))
  exact (hversion.append hask).append hcrc

/-- The checksum is taken, and the staging area prepared. -/
theorem run_header_of (chip : Chip) {cells : Memory} {p : Programmer}
    (h : cells = (fun _ => 0xFF) ∨ cells = marked)
    (hprepare : (idle cells).prepare ADDR_STORAGE = p) :
    LTS.Run (LTS.Guarded Fits (LTS.stepOf (next chip)))
      (during .GET_BYTES_VER (asking 4 0) (idle cells)) header
      (during .GET_BYTES_FIRMWARE (asking 64 4) p) := by
  have hlast : next chip (during .GET_BYTES_CRC (answered 4) (idle cells)) (.answer 0 (ascii "")) =
      some (during .GET_BYTES_FIRMWARE (asking 64 4) ((idle cells).prepare ADDR_STORAGE)) := by
    rcases h with rfl | rfl <;> rfl
  have hops : header = header.dropLast ++ answers [""] := rfl
  have hfits : (during .GET_BYTES_CRC (answered 4) (idle cells)).Fits (.answer 0 (ascii "")) :=
    fun hfirmware => absurd hfirmware.2.2.1 Updater.State.noConfusion
  rw [hops, ← hprepare]
  exact (run_checksum chip h).snoc ⟨hfits, hlast⟩

theorem run_header (chip : Chip) :
    LTS.Run (LTS.Guarded Fits (LTS.stepOf (next chip)))
      (during .GET_BYTES_VER (asking 4 0) ⟨0, 0, [], [], ⟨fun _ => 0xFF, []⟩⟩) header
      (during .GET_BYTES_FIRMWARE (asking 64 4) ⟨0, ADDR_STORAGE, [], [], ⟨fun _ => 0xFF, []⟩⟩) :=
  run_header_of chip (Or.inl rfl) (prepare_blank _ [] _ rfl)

/-- The end of the file, and one round of the copy loop. -/
def ending : List Op := symbols (ascii "+FTPGET: 1,0" ++ [0x0D, 0x0A]) ++ answers [""] ++ [Op.copy]

/-- What is left in the reader at the end of the file. -/
def ended : ReaderFTP :=
  { asking 64 4 with
    command := ⟨ascii "+FTPGET: 1,0" ++ [0], by decide⟩
    receivedFTPGET_1_0 := true }

theorem feed_ending : Transducer.feed ReaderFTP.appendByte (asking 64 4)
    (ascii "+FTPGET: 1,0" ++ [0x0D, 0x0A]) = some (List.replicate 14 [], ended) := by
  decide

/-- The trace of the session: an image without a byte is checked and copied. -/
def emptyTrace : List FlashEvent := [.staged 0 0 fun _ => 0xFF, .copied 0 0 fun _ => 0xFF]

/-- The image without a byte is staged. -/
def stagedEmpty : Loader :=
  { during .GET_BYTES_FIRMWARE ended
      ⟨0, ADDR_STORAGE, [], [[]], ⟨fun _ => 0xFF, [.staged 0 0 fun _ => 0xFF]⟩⟩ with
    copying := some 0 }

theorem run_ending (chip : Chip) :
    LTS.Run (LTS.Guarded Fits (LTS.stepOf (next chip)))
      (during .GET_BYTES_FIRMWARE (asking 64 4) ⟨0, ADDR_STORAGE, [], [], ⟨fun _ => 0xFF, []⟩⟩)
      ending
      (during .COMPLETED ended ⟨0, ADDR_APPLICATION, [], [], ⟨fun _ => 0xFF, emptyTrace⟩⟩) := by
  have hend := run_symbols chip
    (s := during .GET_BYTES_FIRMWARE (asking 64 4) ⟨0, ADDR_STORAGE, [], [], ⟨fun _ => 0xFF, []⟩⟩)
    rfl feed_ending
  have hstaged : LTS.Run (LTS.Guarded Fits (LTS.stepOf (next chip)))
      (during .GET_BYTES_FIRMWARE ended ⟨0, ADDR_STORAGE, [], [], ⟨fun _ => 0xFF, []⟩⟩)
      (answers [""]) stagedEmpty :=
    LTS.run_of_execRun_guardedBy rfl
  have hcopy : stagedEmpty.programmer.copyFirmware chip =
      some ⟨0, ADDR_APPLICATION, [], [], ⟨fun _ => 0xFF, [.staged 0 0 fun _ => 0xFF]⟩⟩ := by
    rw [copyFirmware, prepare_blank _ [.staged 0 0 fun _ => 0xFF] _ rfl, copyLoop]
    rfl
  refine (hend.append hstaged).snoc ⟨fun h => h.elim, ?_⟩
  show Option.map _ (Option.map _ (Option.map _ (stagedEmpty.programmer.copyFirmware chip))) = _
  rw [hcopy]
  rfl

/-- Boot, an empty image, and its copy. -/
theorem run_emptyImage (chip : Chip) :
    LTS.Run (LTS.Guarded Fits (LTS.stepOf (next chip))) (boot fun _ => 0xFF)
      (connecting ++ header ++ ending)
      (during .COMPLETED ended ⟨0, ADDR_APPLICATION, [], [], ⟨fun _ => 0xFF, emptyTrace⟩⟩) :=
  ((run_connecting chip).append (run_header chip)).append (run_ending chip)

set_option maxRecDepth 20000 in
theorem feed_block {bytesFromFTP : ℤ} (h : bytesFromFTP = 4 ∨ bytesFromFTP = 64) :
    Transducer.feed ReaderFTP.appendByte (asking 64 bytesFromFTP)
      (chunk "+FTPGET: 2,64" (List.replicate 64 0)) = some (List.replicate 85 [], answered 64) := by
  rcases h with rfl | rfl
  · decide
  · decide

/-- A block of 64 bytes is on its way. -/
def firmware (bytesFromFTP : ℤ) (k : ℕ) (rom : HAL_ROM) : Loader :=
  during .GET_BYTES_FIRMWARE (asking 64 bytesFromFTP)
    ⟨64 * k, ADDR_STORAGE + 64 * k, [], List.replicate k (List.replicate 64 0), rom⟩

/-- Its symbols, and the call that writes it. -/
def block : List Op := symbols (chunk "+FTPGET: 2,64" (List.replicate 64 0)) ++ answers [""]

theorem next_getBytesFirmware (chip : Chip) (reader : ReaderFTP) (p : Programmer) :
    next chip (during .GET_BYTES_FIRMWARE reader p) (.answer 0 (ascii "")) =
      ((during .GET_BYTES_FIRMWARE reader p).getBytesFirmware chip 0).map Prod.snd := rfl

/-- The session takes no time. -/
theorem elapsedTime_during (state : Updater.State) (reader : ReaderFTP) (p : Programmer) :
    (during state reader p).updater.stateMeter.elapsedTime 0 < 75000 := by
  show (TimeMeterMS.reset 0).elapsedTime 0 < 75000
  decide

theorem next_firmware (chip : Chip) {p p' : Programmer}
    (h : p.writeBytes chip (List.replicate 64 0) = some p') :
    next chip (during .GET_BYTES_FIRMWARE (answered 64) p) (.answer 0 (ascii "")) =
      some (during .GET_BYTES_FIRMWARE (asking 64 64) p') := by
  have hreceived : (answered 64).received = List.replicate 64 0 := by decide
  rw [next_getBytesFirmware, getBytesFirmware_of_requested (elapsedTime_during _ _ _) rfl rfl]
  show Option.map Prod.snd (Option.map _ (p.writeBytes chip (answered 64).received)) = _
  rw [hreceived, h]
  rfl

theorem writeBytes_block (chip : Chip) {k : ℕ} (hk : k ≤ 1216) (rom : HAL_ROM) :
    ∃ rom', writeBytes chip
        ⟨64 * k, ADDR_STORAGE + 64 * k, [], List.replicate k (List.replicate 64 0), rom⟩
        (List.replicate 64 0) =
      some ⟨64 * (k + 1), ADDR_STORAGE + 64 * (k + 1), [],
        List.replicate (k + 1) (List.replicate 64 0), rom'⟩ ∧
      rom'.trace =
        rom.trace ++ [FlashEvent.program (ADDR_STORAGE + 64 * k) (List.replicate 64 0)] ∧
      rom'.cells = programBytes chip rom.cells (ADDR_STORAGE + 64 * k) (List.replicate 64 0) := by
  have hstorage : ADDR_STORAGE < 2 ^ 31 := by decide
  have hend : (ADDR_STORAGE + 64 * k + 64) % 2 ^ 32 = ADDR_STORAGE + 64 * (k + 1) := by omega
  have hless : ADDR_STORAGE + 64 * k < ADDR_STORAGE + 64 * (k + 1) := by omega
  refine ⟨rom.writeData chip (ADDR_STORAGE + 64 * k) (List.replicate 64 0), ?_, ?_, ?_⟩
  · rw [writeBytes, ← List.replicate_succ', pack, List.nil_append, List.length_replicate,
      if_neg (by decide), if_neg (by decide), if_pos (by decide), write, List.length_replicate,
      if_pos (by show 64 * k + 64 < 2 ^ 31; omega)]
    simp only [hend, Nat.mul_succ]
  · rw [HAL_ROM.writeData, List.length_replicate, hend, if_pos hless]
  · rw [HAL_ROM.writeData, List.length_replicate, hend, if_pos hless]

/-- What is left in the reader at the end of the file, behind a block. -/
def endedBlock : ReaderFTP := { ended with bytesFromFTP := 64 }

theorem feed_endedBlock : Transducer.feed ReaderFTP.appendByte (asking 64 64)
    (ascii "+FTPGET: 1,0" ++ [0x0D, 0x0A]) = some (List.replicate 14 [], endedBlock) := by
  decide

/-- The image is staged. -/
def stagedOf (p : Programmer) : Loader :=
  { during .GET_BYTES_FIRMWARE endedBlock
      { p with
        blocks := p.blocks ++ [[]]
        rom := { p.rom with trace := p.rom.trace ++ [.staged p.writtenBytes 0 p.rom.cells] } } with
    copying := some p.writtenBytes }

theorem next_endOfFile (chip : Chip) {p : Programmer} (hbytes : p.bytes = [])
    (hcrc : Math.calculateCRC (p.rom.cells.read ADDR_STORAGE p.writtenBytes) = 0) :
    next chip (during .GET_BYTES_FIRMWARE endedBlock p) (.answer 0 (ascii "")) =
      some (stagedOf p) := by
  have hflag : (during .GET_BYTES_FIRMWARE endedBlock p).reader.receivedFTPGET_1_0 = true := rfl
  have hwrite : p.writeBytes chip (during .GET_BYTES_FIRMWARE endedBlock p).reader.received =
      some { p with blocks := p.blocks ++ [[]] } := rfl
  have hclose : closeSession chip { p with blocks := p.blocks ++ [[]] } =
      some { p with blocks := p.blocks ++ [[]] } := by
    rw [closeSession, if_pos (by simp [hbytes])]
  rw [next_getBytesFirmware, getBytesFirmware, meterIsRunning,
    if_pos (elapsedTime_during _ _ _), if_pos hflag, endOfFile]
  show Option.map Prod.snd ((p.writeBytes chip _).bind _) = _
  rw [hwrite, Option.bind_some]
  show Option.map Prod.snd ((closeSession chip _).bind _) = _
  rw [hclose, Option.bind_some]
  simp only [hcrc]
  rfl

/-- A session with one block of zeros, over a flash with a mark. -/
def oneBlock : List Op := connecting ++ header ++ block ++ ending

/-- Pages and words of both areas are erased and programmed. -/
structure Busy (trace : List FlashEvent) : Prop where
  erasedStorage : .erase ADDR_STORAGE ∈ trace
  programmedStorage : .program ADDR_STORAGE (List.replicate 64 0) ∈ trace
  /-- The last page of the application: `PageIsEmpty` looks into the staged image. -/
  erasedApplication : .erase (ADDR_STORAGE - SIZE_PAGE) ∈ trace
  programmedApplication : ∃ e ∈ trace, (ADDR_APPLICATION, Word.zero) ∈ e.words

/-- The block is written. -/
theorem run_firstBlock (chip : Chip) (rom : HAL_ROM) : ∃ rom',
    LTS.Run (LTS.Guarded Fits (LTS.stepOf (next chip))) (firmware 4 0 rom) block
        (firmware 64 1 rom') ∧
      rom'.trace = rom.trace ++ [.program ADDR_STORAGE (List.replicate 64 0)] ∧
      rom'.cells = programBytes chip rom.cells ADDR_STORAGE (List.replicate 64 0) := by
  obtain ⟨rom', hwrite, htrace, hcells⟩ := @writeBytes_block chip 0 (Nat.zero_le _) rom
  have hsymbols := run_symbols chip (s := firmware 4 0 rom) rfl (feed_block (Or.inl rfl))
  have hsize : (during .GET_BYTES_FIRMWARE (answered 64) (firmware 4 0 rom).programmer).imageSize <
      MAX_SIZE_STORAGE + 4 := by
    show 0 + 0 + (answered 64).received.length < MAX_SIZE_STORAGE + 4
    decide
  exact ⟨rom', hsymbols.snoc ⟨fun _ _ => hsize, next_firmware chip hwrite⟩, htrace, hcells⟩

/-- The file ends behind it, and its checksum is right. -/
theorem run_staged (chip : Chip) {rom : HAL_ROM}
    (hread : rom.cells.read ADDR_STORAGE 64 = List.replicate 64 0) :
    LTS.Run (LTS.Guarded Fits (LTS.stepOf (next chip))) (firmware 64 1 rom) ending.dropLast
      (stagedOf (firmware 64 1 rom).programmer) := by
  have hcrc : Math.calculateCRC (List.replicate 64 0) = 0 := by decide +kernel
  have hsymbols := run_symbols chip (s := firmware 64 1 rom) rfl feed_endedBlock
  have hsize : (during .GET_BYTES_FIRMWARE endedBlock (firmware 64 1 rom).programmer).imageSize ≤
      MAX_SIZE_STORAGE := by
    show 64 + 0 + endedBlock.received.length ≤ MAX_SIZE_STORAGE
    decide
  exact hsymbols.snoc ⟨fun _ => hsize, next_endOfFile chip rfl (hread.symm ▸ hcrc)⟩

/-- `PageIsEmpty` of the last page of the application looks into the staged image. -/
theorem pageIsEmpty_last {rom : HAL_ROM}
    (hread : rom.cells.read ADDR_STORAGE 64 = List.replicate 64 0) :
    rom.pageIsEmpty (pageOf ADDR_APPLICATION + 37) = false := by
  have haddress : pageAddress (pageOf ADDR_APPLICATION + 37) + 16 * 128 = ADDR_STORAGE := by decide
  have hfirst : rom.cells.read ADDR_STORAGE 4 = List.replicate 4 0 := by
    have hsplit := (Memory.read_add rom.cells ADDR_STORAGE 4 60).symm.trans hread
    replace hsplit := congrArg (List.take 4) hsplit
    rwa [List.take_left' (Memory.length_read _ _ _)] at hsplit
  have hword : rom.cells.word ADDR_STORAGE ≠ .erased := by
    intro herased
    rw [Memory.read_four, herased] at hfirst
    exact absurd hfirst (by decide)
  refine List.all_eq_false.mpr ⟨128, List.mem_range.mpr (by decide), ?_⟩
  rw [haddress]
  simpa using hword

/-- The image is copied in one round. -/
theorem run_copied (chip : Chip) {rom : HAL_ROM}
    (hread : rom.cells.read ADDR_STORAGE 64 = List.replicate 64 0)
    (hblank : ∀ x < ADDR_STORAGE, rom.cells x = 0xFF) : ∃ s,
    LTS.Run (LTS.Guarded Fits (LTS.stepOf (next chip))) (stagedOf (firmware 64 1 rom).programmer)
        [.copy] s ∧
      s.isCompleted ∧ rom.trace ⊆ s.rom.trace ∧ .erase (ADDR_STORAGE - SIZE_PAGE) ∈ s.rom.trace ∧
      ∃ e ∈ s.rom.trace, (ADDR_APPLICATION, Word.zero) ∈ e.words := by
  generalize hp : (stagedOf (firmware 64 1 rom).programmer).programmer = p
  have hcells : p.rom.cells = rom.cells := by
    rw [← hp]
    rfl
  have hstaged : Staged rom.cells 64 p := by
    rw [← hp]
    exact ⟨rfl, rfl, by decide, fun _ _ => rfl⟩
  have hshows : Shows ADDR_APPLICATION p.rom := by
    intro i hi _ x _ hx
    rw [hcells]
    apply hblank
    simp only [ADDR_APPLICATION, ADDR_STORAGE, SIZE_PAGE, MAX_SIZE_STORAGE] at hi hx ⊢
    omega
  obtain ⟨p', hcopy, hcopied, es, htrace, hes⟩ := hstaged.read_copyFirmware chip hshows
  have hcrc : (stagedOf (firmware 64 1 rom).programmer).updater.sourceCrc =
      Math.calculateCRC (p'.rom.cells.read ADDR_APPLICATION 64) := by
    show 0 = _
    rw [hcopied, hread]
    decide +kernel
  have hpages : p.rom.trace ⊆ (p.prepare ADDR_APPLICATION).rom.trace := by
    obtain ⟨erases, hprepared, -⟩ :=
      trace_erasePages p.rom (pageOf ADDR_APPLICATION) (MAX_SIZE_STORAGE / SIZE_PAGE)
    rw [prepare, hprepared]
    exact List.subset_append_left _ _
  have hlast : .erase (ADDR_STORAGE - SIZE_PAGE) ∈ (p.prepare ADDR_APPLICATION).rom.trace := by
    have haddress : pageAddress (pageOf ADDR_APPLICATION + 37) = ADDR_STORAGE - SIZE_PAGE := by
      decide
    have herased := @mem_trace_erasePages p.rom (pageOf ADDR_APPLICATION)
      (MAX_SIZE_STORAGE / SIZE_PAGE) 37 (by decide) (by decide)
      (pageIsEmpty_last (by rw [hcells]; exact hread))
    rwa [haddress] at herased
  have hprogram : ∃ e ∈ es, (ADDR_APPLICATION, Word.zero) ∈ e.words := by
    rw [← List.mem_flatMap, hes, hread]
    exact List.mem_cons_self
  have hround : next chip (stagedOf (firmware 64 1 rom).programmer) .copy =
      ((stagedOf (firmware 64 1 rom).programmer).copyRound chip 64).map id := by
    show ((stagedOf (firmware 64 1 rom).programmer).copyRound chip 64 |>.map fun s =>
      (([] : List Transmit), s)).map Prod.snd = _
    rw [Option.map_map]
    rfl
  rw [copyRound, hp, hcopy, Option.map_some, if_pos hcrc] at hround
  have hkept : p'.rom.trace ⊆ p'.rom.trace ++
      [.copied 64 (stagedOf (firmware 64 1 rom).programmer).updater.sourceCrc p'.rom.cells] :=
    List.subset_append_left _ _
  have hprepared : (p.prepare ADDR_APPLICATION).rom.trace ⊆ p'.rom.trace := by
    rw [htrace]
    exact List.subset_append_left _ _
  have hbefore : rom.trace ⊆ p.rom.trace := by
    rw [← hp]
    exact List.subset_append_left _ _
  refine ⟨_, LTS.Run.single ⟨fun h => h.elim, hround⟩, rfl, ?_, hkept (hprepared hlast), ?_⟩
  · exact fun _ he => hkept (hprepared (hpages (hbefore he)))
  · obtain ⟨e, he, hword⟩ := hprogram
    exact ⟨e, hkept (htrace ▸ List.mem_append_right _ he), hword⟩

theorem run_oneBlock (chip : Chip) : ∃ s,
    LTS.Run (LTS.Guarded Fits (LTS.stepOf (next chip))) (boot marked) oneBlock s ∧
      s.isCompleted ∧ Busy s.rom.trace := by
  have hheader := run_header_of chip (Or.inr rfl) (prepare_marked (idle marked) [] rfl)
  obtain ⟨rom, hblock, htrace, hcells⟩ :=
    run_firstBlock chip ⟨fun _ => 0xFF, [.erase ADDR_STORAGE]⟩
  have hread : rom.cells.read ADDR_STORAGE 64 = List.replicate 64 0 := by
    rw [hcells]
    exact read_programBytes chip _ ADDR_STORAGE (List.replicate 64 0) rfl fun _ _ _ => rfl
  have hblank : ∀ x < ADDR_STORAGE, rom.cells x = 0xFF := by
    intro x hx
    rw [hcells]
    exact programBytes_of_outside chip _ _ _ (Or.inl hx)
  obtain ⟨s, hcopy, hcompleted, hsub, herased, hprogrammed⟩ := run_copied chip hread hblank
  refine ⟨s, ?_, hcompleted, ⟨?_, ?_, herased, hprogrammed⟩⟩
  · have hops : oneBlock = (((connecting ++ header) ++ block) ++ ending.dropLast) ++ [.copy] := rfl
    rw [hops]
    exact ((((run_connecting_marked chip).append hheader).append hblock).append
      (run_staged chip hread)).append hcopy
  · exact hsub (htrace ▸ List.mem_append_left _ (List.mem_singleton_self _))
  · exact hsub (htrace ▸ List.mem_append_right _ (List.mem_singleton_self _))

/-- The invariant seen at the end of this session: the copy of the image is complete. -/
theorem application_verified_oneBlock : ∃ s,
    LTS.Run (LTS.stepOf (next andChip)) (boot marked) oneBlock s ∧ Busy s.rom.trace ∧
      Trace.Each AfterCheck s.rom.trace ∧ HAL_ROM.Intact marked s.rom := by
  obtain ⟨s, hrun, hcompleted, hbusy⟩ := run_oneBlock andChip
  have hrun' := hrun.mono fun _ _ _ hstep => hstep.step
  obtain ⟨hchecked, -, hintact⟩ := application_verified andChip marked hrun'
  exact ⟨s, hrun', hbusy, hchecked, hintact hcompleted⟩

end Loader

end USKD
