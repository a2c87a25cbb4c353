import USKD.Lib.NorFlash
import USKD.Lib.Trace

/-!
# `Programmer`: the flash side of an update

The loader receives a new firmware into the staging area behind the application and copies
it over the application.  `HAL_ROM` is the flash with the list of everything that was done
to it, so that a statement can speak of each operation of a run; besides erasing and
programming the list notes when the staged image was found correct and when the copy was.

`written_bytes` is an `int`: an overflow is `none`.  Addresses are `uint` and wrap.
-/

namespace USKD

open NorFlash

/-- What happened to the flash. -/
inductive FlashEvent
  /-- The page at `address` was erased. -/
  | erase (address : ℕ)
  /-- The words of `data` were programmed from `address` on. -/
  | program (address : ℕ) (data : List UInt8)
  /-- The first `size` bytes of the staging area had the checksum `crc`. -/
  | staged (size : ℕ) (crc : UInt32) (cells : Memory)
  /-- The first `size` bytes of the application had the checksum `crc`. -/
  | copied (size : ℕ) (crc : UInt32) (cells : Memory)

/-- The flash, and what was done to it since boot. -/
structure HAL_ROM where
  cells : Memory
  trace : List FlashEvent

namespace HAL_ROM

def ADDR_BASE : ℕ := 0x08000000
def ADDR_APPLICATION : ℕ := 0x08000000
def ADDR_STORAGE : ℕ := 0x08013000
def SIZE_PAGE : ℕ := 2 * 1024

/-- The address of a page.  The sum is a `uint`. -/
def pageAddress (numPage : ℕ) : ℕ := (ADDR_BASE + numPage * SIZE_PAGE) % 2 ^ 32

/-- `HAL_ROM::ErasePage`. -/
def erasePage (rom : HAL_ROM) (numPage : ℕ) : HAL_ROM where
  cells := NorFlash.erasePage SIZE_PAGE rom.cells (pageAddress numPage)
  trace := rom.trace ++ [.erase (pageAddress numPage)]

/-- `HAL_ROM::PageIsEmpty`.  Pointers to `uint` count in words: the loop looks at one word
in four, and goes on to the end of the third page behind. -/
def pageIsEmpty (rom : HAL_ROM) (numPage : ℕ) : Bool :=
  (List.range (SIZE_PAGE / 4)).all fun i => rom.cells.word (pageAddress numPage + 16 * i) = .erased

/-- `HAL_ROM::WriteData`, of whole words.  If the end wraps, the loop is not entered. -/
def writeData (chip : Chip) (rom : HAL_ROM) (address : ℕ) (data : List UInt8) : HAL_ROM :=
  if address < (address + data.length) % 2 ^ 32 then
    { cells := programBytes chip rom.cells address data
      trace := rom.trace ++ [.program address data] }
  else rom

end HAL_ROM

/-- The static data of `Programmer`: `bytes` are the first `num_bytes` bytes of the packing
buffer.  `blocks` are the blocks handed to `WriteBytes` since `Prepare`; nothing reads them. -/
structure Programmer where
  writtenBytes : ℕ
  address : ℕ
  bytes : List UInt8
  blocks : List (List UInt8)
  rom : HAL_ROM

namespace Programmer

open HAL_ROM

def MAX_SIZE_STORAGE : ℕ := 1024 * 76

/-- `ReaderFTP::SIZE_DATA_BUFFER`. -/
def SIZE_DATA_BUFFER : ℕ := 64

/-- `Write`. -/
def write (chip : Chip) (p : Programmer) (data : List UInt8) : Option Programmer :=
  if p.writtenBytes + data.length < 2 ^ 31 then
    some { p with
      rom := p.rom.writeData chip p.address data
      address := (p.address + data.length) % 2 ^ 32
      writtenBytes := p.writtenBytes + data.length }
  else none

/-- The body of the loop of `Prepare`. -/
def eraseUsedPage (rom : HAL_ROM) (numPage : ℕ) : HAL_ROM :=
  if rom.pageIsEmpty numPage then rom else rom.erasePage numPage

/-- The loop of `Prepare`. -/
def erasePages (rom : HAL_ROM) (page count : ℕ) : HAL_ROM :=
  (List.range count).foldl (fun rom i => eraseUsedPage rom (page + i)) rom

/-- The page an address lies in.  The difference is a `uint`. -/
def pageOf (startAddress : ℕ) : ℕ := (startAddress + 2 ^ 32 - ADDR_BASE) % 2 ^ 32 / SIZE_PAGE

/-- `Programmer::Prepare`. -/
def prepare (p : Programmer) (startAddress : ℕ) : Programmer where
  rom := erasePages p.rom (pageOf startAddress) (MAX_SIZE_STORAGE / SIZE_PAGE)
  address := startAddress
  writtenBytes := 0
  bytes := []
  blocks := []

/-- The body of `WriteBytes`: whole words are programmed, up to three bytes stay for later.
The packing buffer has 68 bytes. -/
def pack (chip : Chip) (p : Programmer) (data : List UInt8) : Option Programmer :=
  if data.length = 0 then some p
  else
    let bytes := p.bytes ++ data
    if SIZE_DATA_BUFFER + 4 < bytes.length then none
    else if bytes.length % 4 = 0 then write chip { p with bytes := [] } bytes
    else if 3 < bytes.length then
      let needBytes := bytes.length - bytes.length % 4
      write chip { p with bytes := bytes.drop needBytes } (bytes.take needBytes)
    else some { p with bytes }

/-- `Programmer::WriteBytes` of the first `size` bytes of its array. -/
def writeBytes (chip : Chip) (p : Programmer) (data : List UInt8) : Option Programmer :=
  pack chip { p with blocks := p.blocks ++ [data] } data

/-- `Programmer::CloseSession`: the last word is filled up with `0xFF`.  `num_bytes` is
not cleared. -/
def closeSession (chip : Chip) (p : Programmer) : Option Programmer :=
  if p.bytes.length = 0 then some p
  else
    let bytes := p.bytes ++ List.replicate ((4 - p.bytes.length % 4) % 4) 0xFF
    write chip { p with bytes } bytes

/-- The loop of `CopyFirmware`, and the rest behind it. -/
def copyLoop (chip : Chip) (p : Programmer) (addr needBytes : ℕ) : Option Programmer :=
  if 64 ≤ needBytes then
    (p.writeBytes chip (p.rom.cells.read addr 64)).bind fun p =>
      copyLoop chip p (addr + 64) (needBytes - 64)
  else if needBytes = 0 then some p
  else p.writeBytes chip (p.rom.cells.read addr needBytes)
termination_by needBytes

/-- `Programmer::CopyFirmware`. -/
def copyFirmware (chip : Chip) (p : Programmer) : Option Programmer :=
  copyLoop chip (p.prepare ADDR_APPLICATION) ADDR_STORAGE p.writtenBytes

end Programmer

/-! ## Where an operation lies -/

namespace FlashEvent

/-- A flash operation that erases or programs the byte at `x`. -/
def Touches (x : ℕ) : FlashEvent → Prop
  | erase a => a ≤ x ∧ x < a + HAL_ROM.SIZE_PAGE
  | program a data => a ≤ x ∧ x < a + data.length
  | staged .. | copied .. => False

/-- A flash operation that lies in `[a, b)`. -/
def Within (a b : ℕ) : FlashEvent → Prop
  | erase p => a ≤ p ∧ p + HAL_ROM.SIZE_PAGE ≤ b
  | program p data => a ≤ p ∧ p + data.length ≤ b
  | staged .. | copied .. => False

variable {a b a' b' x : ℕ} {e : FlashEvent}

theorem Within.mono (h : e.Within a b) (ha : a' ≤ a) (hb : b ≤ b') : e.Within a' b' := by
  cases e with
  | erase p => exact ⟨ha.trans h.1, h.2.trans hb⟩
  | program p data => exact ⟨ha.trans h.1, h.2.trans hb⟩
  | staged | copied => exact h

theorem Within.touches (h : e.Within a b) (hx : e.Touches x) : a ≤ x ∧ x < b := by
  cases e with
  | erase p => exact ⟨h.1.trans hx.1, hx.2.trans_le h.2⟩
  | program p data => exact ⟨h.1.trans hx.1, hx.2.trans_le h.2⟩
  | staged | copied => exact h.elim

end FlashEvent

namespace HAL_ROM

/-- From `rom` to `rom'` some operations were carried out, all of them in `[a, b)`. -/
structure Changed (a b : ℕ) (rom rom' : HAL_ROM) : Prop where
  trace : ∃ es, rom'.trace = rom.trace ++ es ∧ ∀ e ∈ es, e.Within a b
  cells : ∀ x, x < a ∨ b ≤ x → rom'.cells x = rom.cells x

variable {a b a' b' : ℕ} {rom rom' rom'' : HAL_ROM}

theorem Changed.refl (a b : ℕ) (rom : HAL_ROM) : Changed a b rom rom :=
  ⟨⟨[], by simp, by simp⟩, fun _ _ => rfl⟩

theorem Changed.mono (h : Changed a b rom rom') (ha : a' ≤ a) (hb : b ≤ b') :
    Changed a' b' rom rom' := by
  obtain ⟨es, htrace, hes⟩ := h.trace
  refine ⟨⟨es, htrace, fun e he => (hes e he).mono ha hb⟩, fun x hx => h.cells x ?_⟩
  omega

theorem Changed.trans (h : Changed a b rom rom') (h' : Changed a b rom' rom'') :
    Changed a b rom rom'' := by
  obtain ⟨es, htrace, hes⟩ := h.trace
  obtain ⟨es', htrace', hes'⟩ := h'.trace
  refine ⟨⟨es ++ es', by rw [htrace', htrace, List.append_assoc], ?_⟩, fun x hx => ?_⟩
  · intro e he
    rcases List.mem_append.mp he with he | he
    · exact hes e he
    · exact hes' e he
  · rw [h'.cells x hx, h.cells x hx]

/-- The pages of the flash do not wrap. -/
theorem pageAddress_eq {numPage : ℕ} (h : numPage < 2 ^ 20) :
    pageAddress numPage = ADDR_BASE + numPage * SIZE_PAGE := by
  refine Nat.mod_eq_of_lt ?_
  simp only [ADDR_BASE, SIZE_PAGE]
  omega

theorem pageAddress_succ {numPage : ℕ} (h : numPage + 1 < 2 ^ 20) :
    pageAddress (numPage + 1) = pageAddress numPage + SIZE_PAGE := by
  rw [pageAddress_eq h, pageAddress_eq (Nat.lt_of_succ_lt h), Nat.succ_mul, Nat.add_assoc]

theorem changed_erasePage (rom : HAL_ROM) {numPage : ℕ} (h : numPage + 1 < 2 ^ 20) :
    Changed (pageAddress numPage) (pageAddress (numPage + 1)) rom (rom.erasePage numPage) := by
  rw [pageAddress_succ h]
  refine ⟨⟨[.erase (pageAddress numPage)], rfl, ?_⟩, fun x hx => ?_⟩
  · intro e he
    obtain rfl := List.mem_singleton.mp he
    exact ⟨le_rfl, le_rfl⟩
  · exact erasePage_of_outside SIZE_PAGE rom.cells hx

theorem changed_writeData (chip : Chip) (rom : HAL_ROM) (address : ℕ) (data : List UInt8) :
    Changed address (address + data.length) rom (rom.writeData chip address data) := by
  rw [writeData]
  split
  · refine ⟨⟨[.program address data], rfl, ?_⟩, fun x hx => ?_⟩
    · intro e he
      obtain rfl := List.mem_singleton.mp he
      exact ⟨le_rfl, le_rfl⟩
    · exact programBytes_of_outside chip rom.cells address data hx
  · exact Changed.refl _ _ _

theorem pageAddress_mono {m n : ℕ} (h : m ≤ n) (hn : n < 2 ^ 20) :
    pageAddress m ≤ pageAddress n := by
  rw [pageAddress_eq hn, pageAddress_eq (h.trans_lt hn)]
  exact Nat.add_le_add_left (Nat.mul_le_mul_right _ h) _

end HAL_ROM

namespace Programmer

open HAL_ROM

theorem changed_eraseUsedPage (rom : HAL_ROM) {numPage : ℕ} (h : numPage + 1 < 2 ^ 20) :
    Changed (pageAddress numPage) (pageAddress (numPage + 1)) rom (eraseUsedPage rom numPage) := by
  rw [eraseUsedPage]
  split
  · exact Changed.refl _ _ _
  · exact changed_erasePage rom h

theorem erasePages_succ (rom : HAL_ROM) (page count : ℕ) :
    erasePages rom page (count + 1) = eraseUsedPage (erasePages rom page count) (page + count) := by
  simp only [erasePages, List.range_succ, List.foldl_append, List.foldl_cons, List.foldl_nil]

theorem changed_erasePages (rom : HAL_ROM) {page count : ℕ} (h : page + count < 2 ^ 20) :
    Changed (pageAddress page) (pageAddress (page + count)) rom (erasePages rom page count) := by
  induction count with
  | zero => exact Changed.refl _ _ _
  | succ count ih =>
      have hless : page + count < 2 ^ 20 := Nat.lt_of_succ_lt h
      rw [erasePages_succ]
      have hfirst := (ih hless).mono le_rfl (pageAddress_mono (Nat.le_succ (page + count)) h)
      have hpage := changed_eraseUsedPage (erasePages rom page count) h
      exact hfirst.trans (hpage.mono (pageAddress_mono (Nat.le_add_right _ _) hless) le_rfl)

theorem pageOf_pageAddress {page : ℕ} (h : page < 2 ^ 20) : pageOf (pageAddress page) = page := by
  rw [pageOf, pageAddress_eq h]
  simp only [ADDR_BASE, SIZE_PAGE]
  omega

/-- `Prepare` stays inside the area it prepares. -/
theorem changed_prepare (p : Programmer) {page : ℕ}
    (h : page + MAX_SIZE_STORAGE / SIZE_PAGE < 2 ^ 20) :
    Changed (pageAddress page) (pageAddress page + MAX_SIZE_STORAGE) p.rom
      (p.prepare (pageAddress page)).rom := by
  have hpage : page < 2 ^ 20 := (Nat.le_add_right _ _).trans_lt h
  have hend : pageAddress page + MAX_SIZE_STORAGE =
      pageAddress (page + MAX_SIZE_STORAGE / SIZE_PAGE) := by
    rw [pageAddress_eq hpage, pageAddress_eq h]
    simp only [SIZE_PAGE, MAX_SIZE_STORAGE]
    omega
  have hrom : (p.prepare (pageAddress page)).rom =
      erasePages p.rom page (MAX_SIZE_STORAGE / SIZE_PAGE) := by
    simp only [prepare, pageOf_pageAddress hpage]
  rw [hrom, hend]
  exact changed_erasePages _ h

theorem addr_storage : ADDR_STORAGE = pageAddress 38 := by decide

theorem addr_application : ADDR_APPLICATION = pageAddress 0 := by decide

theorem eraseUsedPage_blank (trace : List FlashEvent) (numPage : ℕ) :
    eraseUsedPage ⟨fun _ => 0xFF, trace⟩ numPage = ⟨fun _ => 0xFF, trace⟩ := by
  refine if_pos (List.all_eq_true.mpr fun i _ => ?_)
  exact decide_eq_true rfl

/-- An erased flash has nothing to erase. -/
theorem prepare_blank (p : Programmer) (trace : List FlashEvent) (start : ℕ)
    (h : p.rom = ⟨fun _ => 0xFF, trace⟩) :
    p.prepare start = ⟨0, start, [], [], ⟨fun _ => 0xFF, trace⟩⟩ := by
  have hpages : ∀ (page count : ℕ),
      erasePages ⟨fun _ => 0xFF, trace⟩ page count = ⟨fun _ => 0xFF, trace⟩ := by
    intro page count
    induction count with
    | zero => rfl
    | succ count ih => rw [erasePages_succ, ih, eraseUsedPage_blank]
  rw [prepare, h, hpages]

/-! ## The blocks of a session -/

theorem blocks_write {chip : Chip} {p p' : Programmer} {data : List UInt8}
    (h : p.write chip data = some p') : p'.blocks = p.blocks := by
  rw [write] at h
  split at h
  · rw [← Option.some.inj h]
  · exact absurd h (by simp)

theorem blocks_writeBytes {chip : Chip} {p p' : Programmer} {data : List UInt8}
    (h : p.writeBytes chip data = some p') : p'.blocks = p.blocks ++ [data] := by
  rw [writeBytes, pack] at h
  split at h
  · rw [← Option.some.inj h]
  simp only at h
  split at h
  · exact absurd h (by simp)
  split at h
  · rw [blocks_write h]
  split at h
  · rw [blocks_write h]
  · rw [← Option.some.inj h]

theorem blocks_closeSession {chip : Chip} {p p' : Programmer} (h : p.closeSession chip = some p') :
    p'.blocks = p.blocks := by
  rw [closeSession] at h
  split at h
  · rw [← Option.some.inj h]
  · rw [blocks_write h]

/-! ## A session

From `Prepare` on, the address runs ahead of the start by the number of bytes written. -/

/-- The programmer is writing from `start` on. -/
structure Session (start : ℕ) (p : Programmer) : Prop where
  address : p.address = start + p.writtenBytes
  written : p.writtenBytes < 2 ^ 31
  aligned : p.writtenBytes % 4 = 0

variable {chip : Chip} {start : ℕ} {p p' : Programmer} {data : List UInt8}

theorem session_prepare (p : Programmer) (start : ℕ) : Session start (p.prepare start) where
  address := rfl
  written := by show 0 < 2 ^ 31; decide
  aligned := rfl

/-- The packing buffer is not part of what a session says. -/
theorem Session.setBytes (h : Session start p) (bytes : List UInt8) :
    Session start { p with bytes } :=
  ⟨h.address, h.written, h.aligned⟩

/-- What writing does: the session goes on, and the flash has changed between the old and
the new address only. -/
structure Wrote (start : ℕ) (p p' : Programmer) : Prop where
  session : Session start p'
  le : p.writtenBytes ≤ p'.writtenBytes
  changed : Changed (start + p.writtenBytes) (start + p'.writtenBytes) p.rom p'.rom

theorem Wrote.refl (h : Session start p) : Wrote start p p :=
  ⟨h, le_rfl, Changed.refl _ _ _⟩

theorem Wrote.trans {p'' : Programmer} (h : Wrote start p p') (h' : Wrote start p' p'') :
    Wrote start p p'' where
  session := h'.session
  le := h.le.trans h'.le
  changed := (h.changed.mono le_rfl (Nat.add_le_add_left h'.le _)).trans
    (h'.changed.mono (Nat.add_le_add_left h.le _) le_rfl)

theorem write_spec (hstart : start ≤ 2 ^ 31) (h : Session start p) (hdata : data.length % 4 = 0)
    (hwrite : p.write chip data = some p') :
    Wrote start p p' ∧ p'.bytes = p.bytes ∧ p'.writtenBytes = p.writtenBytes + data.length := by
  rw [write] at hwrite
  split at hwrite
  · rename_i hfits
    obtain rfl := Option.some.inj hwrite
    have haddress := h.address
    have haligned := h.aligned
    refine ⟨⟨⟨?_, hfits, ?_⟩, Nat.le_add_right _ _, ?_⟩, rfl, rfl⟩
    · show (p.address + data.length) % 2 ^ 32 = start + (p.writtenBytes + data.length)
      omega
    · show (p.writtenBytes + data.length) % 4 = 0
      omega
    · show Changed _ (start + (p.writtenBytes + data.length)) _ _
      rw [← Nat.add_assoc, ← haddress]
      exact changed_writeData _ _ _ _
  · exact absurd hwrite (by simp)

theorem pack_spec (hstart : start ≤ 2 ^ 31) (h : Session start p)
    (hheld : p.bytes.length < 4) (hwrite : p.pack chip data = some p') :
    Wrote start p p' ∧ p'.bytes.length < 4 ∧
      p'.writtenBytes + p'.bytes.length = p.writtenBytes + p.bytes.length + data.length := by
  rw [pack] at hwrite
  split at hwrite
  · rename_i hnone
    obtain rfl := Option.some.inj hwrite
    exact ⟨Wrote.refl h, hheld, by omega⟩
  simp only [List.length_append] at hwrite
  -- more than the packing buffer holds
  split at hwrite
  · exact absurd hwrite (by simp)
  split at hwrite
  -- whole words: nothing is kept back
  · rename_i hwhole
    have hs : Session start { p with bytes := [] } := ⟨h.address, h.written, h.aligned⟩
    obtain ⟨hwrote, hbytes, hwritten⟩ := write_spec hstart hs (by simpa using hwhole) hwrite
    refine ⟨⟨hwrote.session, hwrote.le, hwrote.changed⟩, by simp [hbytes], ?_⟩
    simp only [hwritten, hbytes, List.length_append, List.length_nil]
    omega
  -- the words are programmed, and the rest is kept back
  split at hwrite
  · have hs := h.setBytes ((p.bytes ++ data).drop
      (p.bytes.length + data.length - (p.bytes.length + data.length) % 4))
    obtain ⟨hwrote, hbytes, hwritten⟩ := write_spec hstart hs
      (by rw [List.length_take, List.length_append]; omega) hwrite
    refine ⟨⟨hwrote.session, hwrote.le, hwrote.changed⟩, ?_, ?_⟩
    · simp only [hbytes, List.length_drop, List.length_append]
      omega
    · simp only [hwritten, hbytes, List.length_drop, List.length_take, List.length_append]
      omega
  · obtain rfl := Option.some.inj hwrite
    refine ⟨⟨⟨h.address, h.written, h.aligned⟩, le_rfl, Changed.refl _ _ _⟩, ?_, ?_⟩
    · simp only [List.length_append]
      omega
    · simp only [List.length_append]
      omega

/-- **`WriteBytes`** programs whole words and keeps at most three bytes back. -/
theorem writeBytes_spec (hstart : start ≤ 2 ^ 31) (h : Session start p)
    (hheld : p.bytes.length < 4) (hwrite : p.writeBytes chip data = some p') :
    Wrote start p p' ∧ p'.bytes.length < 4 ∧
      p'.writtenBytes + p'.bytes.length = p.writtenBytes + p.bytes.length + data.length := by
  have hs : Session start { p with blocks := p.blocks ++ [data] } :=
    ⟨h.address, h.written, h.aligned⟩
  obtain ⟨hwrote, hfew, hsum⟩ := pack_spec hstart hs hheld hwrite
  exact ⟨⟨hwrote.session, hwrote.le, hwrote.changed⟩, hfew, hsum⟩

/-- **`CloseSession`** programs what was kept back. -/
theorem closeSession_spec (hstart : start ≤ 2 ^ 31) (h : Session start p)
    (hclose : p.closeSession chip = some p') :
    Wrote start p p' ∧ p'.writtenBytes = (p.writtenBytes + p.bytes.length + 3) / 4 * 4 := by
  have haligned := h.aligned
  rw [closeSession] at hclose
  split at hclose
  · obtain rfl := Option.some.inj hclose
    exact ⟨Wrote.refl h, by omega⟩
  · have hs := h.setBytes (p.bytes ++ List.replicate ((4 - p.bytes.length % 4) % 4) 0xFF)
    obtain ⟨hwrote, -, hwritten⟩ := write_spec hstart hs
      (by rw [List.length_append, List.length_replicate]; omega) hclose
    refine ⟨⟨hwrote.session, hwrote.le, hwrote.changed⟩, ?_⟩
    simp only [hwritten, List.length_append, List.length_replicate]
    omega

/-- The copy loop writes what it was asked for. -/
theorem copyLoop_spec (hstart : start ≤ 2 ^ 31) {addr needBytes : ℕ} (h : Session start p)
    (hheld : p.bytes = []) (hneed : needBytes % 4 = 0)
    (hcopy : p.copyLoop chip addr needBytes = some p') :
    Wrote start p p' ∧ p'.writtenBytes = p.writtenBytes + needBytes := by
  induction p, addr, needBytes using copyLoop.induct with
  | case1 p addr needBytes hmore ih =>
      rw [copyLoop, if_pos hmore, Option.bind_eq_some_iff] at hcopy
      obtain ⟨q, hwrite, hrest⟩ := hcopy
      obtain ⟨hwrote, hfew, hsum⟩ := writeBytes_spec hstart h (by simp [hheld]) hwrite
      have haligned := h.aligned
      have haligned' := hwrote.session.aligned
      simp only [hheld, List.length_nil, Memory.length_read] at hsum
      -- 64 bytes are whole words, so that nothing is kept back between two turns
      have hnil : q.bytes = [] := List.eq_nil_of_length_eq_zero (by omega)
      obtain ⟨hwrote', hwritten⟩ := ih q hwrote.session hnil (by omega) hrest
      rw [hnil, List.length_nil] at hsum
      exact ⟨hwrote.trans hwrote', by omega⟩
  | case2 p addr hless =>
      rw [copyLoop, if_neg hless, if_pos rfl] at hcopy
      obtain rfl := Option.some.inj hcopy
      exact ⟨Wrote.refl h, rfl⟩
  | case3 p addr needBytes hless hsome =>
      rw [copyLoop, if_neg hless, if_neg hsome] at hcopy
      obtain ⟨hwrote, hfew, hsum⟩ := writeBytes_spec hstart h (by simp [hheld]) hcopy
      have haligned := h.aligned
      have haligned' := hwrote.session.aligned
      simp only [hheld, List.length_nil, Memory.length_read] at hsum
      exact ⟨hwrote, by omega⟩

/-- **`CopyFirmware`** erases the application and writes as many bytes as were written
before it. -/
theorem copyFirmware_spec (hwritten : p.writtenBytes % 4 = 0)
    (hcopy : p.copyFirmware chip = some p') :
    p'.writtenBytes = p.writtenBytes ∧ p.writtenBytes < 2 ^ 31 ∧
      Changed ADDR_APPLICATION (ADDR_APPLICATION + max MAX_SIZE_STORAGE p.writtenBytes) p.rom
        p'.rom := by
  have hstart : ADDR_APPLICATION ≤ 2 ^ 31 := by decide
  obtain ⟨hwrote, hsize⟩ :=
    copyLoop_spec hstart (session_prepare p ADDR_APPLICATION) rfl hwritten hcopy
  have hzero : (p.prepare ADDR_APPLICATION).writtenBytes = 0 := rfl
  rw [hzero, Nat.zero_add] at hsize
  have herase : Changed ADDR_APPLICATION (ADDR_APPLICATION + MAX_SIZE_STORAGE) p.rom
      (p.prepare ADDR_APPLICATION).rom := by
    rw [addr_application]
    exact changed_prepare p (by decide)
  have hcopied := hwrote.changed
  rw [hzero, hsize] at hcopied
  refine ⟨hsize, hsize ▸ hwrote.session.written, (herase.mono le_rfl ?_).trans (hcopied.mono ?_ ?_)⟩
  · exact Nat.add_le_add_left (le_max_left _ _) _
  · exact Nat.le_add_right _ _
  · exact Nat.add_le_add_left (le_max_right _ _) _

end Programmer

end USKD
