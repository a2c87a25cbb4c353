import USKD.Loader.Firmware

/-!
# From the image to the application

The file that `HandlerBIN` writes goes through a session to the staging area and from there over
the application.

* In every session the image is accepted exactly if it is a number of whole words
  (`frm_accepted_iff`): the checksum of the file is that of the image, the one that the loader
  takes is that of the image filled up.
* An accepted image is the application behind one round of the copy loop (`frm_installed`).
* For each image there is a session that does all this (`frm_installable`): the modem answers each
  request with as much as it has, and a poll follows each answer.
-/

namespace USKD

open NorFlash Transducer ReaderFTP

namespace Download

open Programmer HAL_ROM

variable {chip : Chip} {file image : List UInt8} {p₀ : Programmer} {c : Download}

/-! ## A session that gets to its end -/

/-- The modem is to answer, and nothing is on its way. -/
structure Idle (c : Download) : Prop where
  active : c.Active
  wire : c.wire = []
  requests : c.requests = [need c.loader]
  starved : c.starved = false
  ended : c.ended = false
  waiting : Waiting c.loader.reader
  idle : c.loader.reader.requestedBytesReceived = false
  empty : c.loader.reader.pointerData = 0
  more : c.loader.updater.state = .GET_BYTES_FIRMWARE →
    c.loader.reader.receivedFTPGET_1_0 = false

/-- The answer is complete, and no poll has come yet. -/
structure Answered (c : Download) : Prop where
  active : c.Active
  wire : c.wire = []
  requests : c.requests = []
  starved : c.starved = false
  ended : c.ended = false
  complete : c.loader.reader.requestedBytesReceived
  more : c.loader.updater.state = .GET_BYTES_FIRMWARE →
    c.loader.reader.receivedFTPGET_1_0 = false

/-- **An answer.** -/
theorem Idle.answer (h : Idle c) (chip : Chip) {n : ℕ} (hpos : 0 < n) (hn : n ≤ need c.loader)
    (hlen : n ≤ c.rest.length) (hfour : need c.loader = 4 → n = 4) :
    ∃ acts c', LTS.Run (LTS.stepOf (step chip)) c acts c' ∧ Answered c' ∧
      c'.rest = c.rest.drop n ∧ c'.loader.updater = c.loader.updater ∧
      c'.loader.programmer = c.loader.programmer := by
  have htake : (c.rest.take n).length = n := List.length_take_of_le hlen
  have hneed : need c.loader ≤ 64 := by
    rw [need]
    split <;> omega
  have hstep : c.step chip (.answer n) = some { c with
      wire := reply (c.rest.take n), rest := c.rest.drop n, requests := [], starved := false } := by
    rw [step, h.requests]
    simp only [if_pos (And.intro hn (And.intro hlen hfour)), h.wire, List.nil_append, h.starved,
      Bool.false_or, decide_eq_false hpos.ne']
  obtain ⟨os, r, hpasses, hsaid, -, hcomplete, -, -⟩ := passes_reply (c.rest.take n) h.waiting
    h.idle h.empty (List.length_pos_iff.mp (by omega)) (by omega)
  have hreceive := run_receive chip [] (c := { c with
      wire := reply (c.rest.take n), rest := c.rest.drop n, requests := [], starved := false })
    h.active.1 hpasses.feed (List.append_nil _).symm
  rw [hsaid] at hreceive
  refine ⟨_, _, (LTS.Run.single hstep).append hreceive, ⟨h.active, rfl, rfl, rfl, h.ended,
    hcomplete, fun hstate => ?_⟩, rfl, rfl, rfl⟩
  exact hpasses.last.2.trans (h.more hstate)

/-- At the moment of its reset the meter of the state is running. -/
theorem elapsedTime_timeReset (m : TimeMeterMS) : m.elapsedTime m.timeReset < 75000 := by
  rw [TimeMeterMS.elapsedTime, UInt32.sub_self]
  decide

/-- A poll that asks for more. -/
theorem Answered.poll (h : Answered c) (chip : Chip) (now : UInt32) (u : Loader) (flag : Bool)
    {n : ℕ} (hupdate : c.loader.updateUpdater chip now [] = some ([.ftpGet n], { u with
      reader := { u.reader.reset with needBytes := n, receivedFTPGET_1_0 := flag } }))
    (hneed : need u = n) (hmode : u.inModeReceiveDataFromFTP) (hcopying : u.copying = c.loader.copying)
    (hflag : u.updater.state = .GET_BYTES_FIRMWARE → flag = false) :
    ∃ acts c', LTS.Run (LTS.stepOf (step chip)) c acts c' ∧ Idle c' ∧ c'.rest = c.rest ∧
      c'.loader.updater = u.updater := by
  have hstep : c.step chip (.poll now []) = some { c with
      loader := { u with
        reader := { u.reader.reset with needBytes := n, receivedFTPGET_1_0 := flag } }
      requests := [n] } := by
    rw [step, if_pos h.active, hupdate, h.requests]
    rfl
  have hrequests : [n] = [need u] := by rw [hneed]
  exact ⟨_, _, LTS.Run.single hstep, ⟨⟨hmode, hcopying.trans h.active.2⟩, h.wire, hrequests,
    h.starved, h.ended, ⟨rfl, rfl⟩, rfl, rfl, hflag⟩, rfl, rfl⟩

/-- A poll takes the version, and asks for the checksum. -/
theorem Answered.version (h : Answered c) (chip : Chip)
    (hstate : c.loader.updater.state = .GET_BYTES_VER) :
    ∃ acts c', LTS.Run (LTS.stepOf (step chip)) c acts c' ∧ Idle c' ∧ c'.rest = c.rest ∧
      c'.loader.updater.state = .GET_BYTES_CRC := by
  obtain ⟨acts, c', hrun, hidle, hrest, hupdater⟩ := h.poll chip
    c.loader.updater.stateMeter.timeReset
    (({ c.loader with updater := { c.loader.updater with
      version := c.loader.reader.firstWord } } : Loader).setState
        c.loader.updater.stateMeter.timeReset .GET_BYTES_CRC)
    c.loader.reader.receivedFTPGET_1_0 (by
      simp only [Loader.updateUpdater, hstate, Loader.getBytesVer, Loader.meterIsRunning,
        if_pos (elapsedTime_timeReset _), if_pos h.complete]
      rfl) rfl rfl rfl nofun
  exact ⟨acts, c', hrun, hidle, hrest, by rw [hupdater]; rfl⟩

/-- A poll takes the checksum, and asks for the image. -/
theorem Answered.sourceCrc (h : Answered c) (chip : Chip)
    (hstate : c.loader.updater.state = .GET_BYTES_CRC) :
    ∃ acts c', LTS.Run (LTS.stepOf (step chip)) c acts c' ∧ Idle c' ∧ c'.rest = c.rest ∧
      c'.loader.updater.state = .GET_BYTES_FIRMWARE := by
  obtain ⟨acts, c', hrun, hidle, hrest, hupdater⟩ := h.poll chip
    c.loader.updater.stateMeter.timeReset
    (({ c.loader with
      updater := { c.loader.updater with sourceCrc := c.loader.reader.firstWord }
      programmer := c.loader.programmer.prepare ADDR_STORAGE } : Loader).setState
        c.loader.updater.stateMeter.timeReset .GET_BYTES_FIRMWARE)
    false (by
      simp only [Loader.updateUpdater, hstate, Loader.getBytesCrc, Loader.meterIsRunning,
        if_pos (elapsedTime_timeReset _), if_pos h.complete]
      rfl) rfl rfl rfl fun _ => rfl
  exact ⟨acts, c', hrun, hidle, hrest, by rw [hupdater]; rfl⟩

/-- A poll hands the chunk over, and asks for the next one. -/
theorem Answered.chunk (h : Answered c)
    (hstate : c.loader.updater.state = .GET_BYTES_FIRMWARE) (hinv : Inv file c)
    (hstaging : Staging chip file p₀ c) (hlen : (file.drop 8).length < 2 ^ 30) :
    ∃ acts c', LTS.Run (LTS.stepOf (step chip)) c acts c' ∧ Idle c' ∧ c'.rest = c.rest ∧
      c'.loader.updater.state = .GET_BYTES_FIRMWARE := by
  obtain ⟨p, -, hwrite, -, -⟩ :=
    hstaging.writeBytes hinv h.active hstate (Or.inl h.complete) hlen
  have hmore := h.more hstate
  obtain ⟨acts, c', hrun, hidle, hrest, hupdater⟩ := h.poll chip
    c.loader.updater.stateMeter.timeReset
    { c.loader with
      programmer := p
      updater := { c.loader.updater with
        stateMeter := .reset c.loader.updater.stateMeter.timeReset } }
    c.loader.reader.receivedFTPGET_1_0 (by
      rw [Loader.updateUpdater, hstate]
      simp only
      rw [Loader.getBytesFirmware_of_requested (elapsedTime_timeReset _) hmore h.complete, hwrite]
      rfl) (if_pos hstate) h.active.1 rfl fun _ => hmore
  exact ⟨acts, c', hrun, hidle, hrest, by rw [hupdater]; exact hstate⟩

/-- **The image is read to its end**, chunk after chunk. -/
theorem Idle.chunks (h : Idle c) (hstate : c.loader.updater.state = .GET_BYTES_FIRMWARE)
    (hinv : Inv file c) (hstaging : Staging chip file p₀ c)
    (hlen : (file.drop 8).length < 2 ^ 30) :
    ∃ acts c', LTS.Run (LTS.stepOf (step chip)) c acts c' ∧ Idle c' ∧ c'.rest = [] ∧
      c'.loader.updater.state = .GET_BYTES_FIRMWARE := by
  induction hsize : c.rest.length using Nat.strongRecOn generalizing c with
  | ind size ih =>
      rcases Nat.eq_zero_or_pos size with rfl | hpos
      · exact ⟨[], c, LTS.Run.nil, h, List.eq_nil_of_length_eq_zero hsize, hstate⟩
      have hneed : need c.loader = 64 := if_pos hstate
      obtain ⟨acts₁, c₁, hrun₁, hanswered, hrest₁, hupdater, -⟩ :=
        h.answer chip (n := min 64 size) (by omega) (by omega) (by omega) (by omega)
      obtain ⟨hinv₁, hstaging₁⟩ := staging_of_run hinv hstaging hlen hrun₁
      have hstate₁ : c₁.loader.updater.state = .GET_BYTES_FIRMWARE := by
        rw [hupdater]
        exact hstate
      obtain ⟨acts₂, c₂, hrun₂, hidle₂, hrest₂, hstate₂⟩ :=
        hanswered.chunk hstate₁ hinv₁ hstaging₁ hlen
      obtain ⟨hinv₂, hstaging₂⟩ := staging_of_run hinv₁ hstaging₁ hlen hrun₂
      have hless : c₂.rest.length = size - min 64 size := by
        rw [hrest₂, hrest₁, List.length_drop, hsize]
      obtain ⟨acts₃, c₃, hrun₃, hidle₃, hrest₃, hstate₃⟩ :=
        ih _ (by omega) hidle₂ hstate₂ hinv₂ hstaging₂ hless
      exact ⟨_, c₃, (hrun₁.append hrun₂).append hrun₃, hidle₃, hrest₃, hstate₃⟩

/-- The end of the file is announced. -/
theorem Idle.finish (h : Idle c) (chip : Chip)
    (hstate : c.loader.updater.state = .GET_BYTES_FIRMWARE) (hrest : c.rest = []) :
    ∃ acts c' now, LTS.Run (LTS.stepOf (step chip)) c acts c' ∧ c'.AtEndOfFile now := by
  have hstep : c.step chip .finish = some { c with wire := fin, ended := true } := by
    rw [step, if_pos ⟨hrest, h.ended⟩, h.wire]
    rfl
  obtain ⟨os, r, hpasses, -, hended, -, -⟩ := passes_fin h.waiting
  have hreceive := run_receive chip [] (c := { c with wire := fin, ended := true }) h.active.1
    hpasses.feed (List.append_nil _).symm
  exact ⟨_, _, c.loader.updater.stateMeter.timeReset, (LTS.Run.single hstep).append hreceive,
    h.active, hstate, elapsedTime_timeReset _, hended.flag⟩

/-- The session begins with a request. -/
theorem idle_start (file : List UInt8) {s : Loader} {now : UInt32} {connected : List Transmit × Loader}
    (hstate : s.updater.state = .NEED_WAIT_CONNECT) (hcopying : s.copying = none)
    (hconnect : s.updateUpdater chip now (ascii "+FTPGET: 1,1") = some connected)
    (hver : connected.2.updater.state = .GET_BYTES_VER) : Idle (start file [] connected) := by
  have hword : Parser.getWord (ascii "+FTPGET: 1,1") 1 = some (ascii "+FTPGET") := by decide
  simp only [Loader.updateUpdater, hstate] at hconnect
  rcases Loader.meterIsRunning_cases hconnect with rfl | ⟨-, h⟩
  · exact absurd hver (by simp [Loader.reset, Loader.resetUpdater])
  simp only [hword, Option.bind_eq_bind, Option.bind_some, if_true] at h
  obtain rfl := (Option.some.inj h).symm
  exact ⟨⟨rfl, hcopying⟩, rfl, rfl, rfl, rfl, ⟨rfl, rfl⟩, rfl, rfl,
    fun hmore => absurd (hver.symm.trans hmore) (by decide)⟩

/-- **There is a session that gets to the end of the file.** -/
theorem exists_session (chip : Chip) (file : List UInt8) {s : Loader} {now : UInt32}
    {connected : List Transmit × Loader} (hstate : s.updater.state = .NEED_WAIT_CONNECT)
    (hcopying : s.copying = none)
    (hconnect : s.updateUpdater chip now (ascii "+FTPGET: 1,1") = some connected)
    (hver : connected.2.updater.state = .GET_BYTES_VER) (hheader : 8 ≤ file.length)
    (hlen : (file.drop 8).length < 2 ^ 30) :
    ∃ acts c now', LTS.Run (LTS.stepOf (step chip)) (start file [] connected) acts c ∧
      c.AtEndOfFile now' := by
  have hidle := idle_start file hstate hcopying hconnect hver
  have hinv : Inv file (start file [] connected) := inv_start hstate hconnect hver (Or.inl rfl)
  have hstaging : Staging chip file connected.2.programmer (start file [] connected) :=
    staging_start hver
  have hneed : need (start file [] connected).loader = 4 := by
    show need connected.2 = 4
    rw [need, hver]
    rfl
  have hrest : (start file [] connected).rest = file := rfl
  -- the version
  obtain ⟨acts₁, c₁, hrun₁, hanswered₁, hrest₁, hupdater₁, -⟩ :=
    hidle.answer chip (n := 4) (by decide) hneed.ge (by rw [hrest]; omega) fun _ => rfl
  have hstate₁ : c₁.loader.updater.state = .GET_BYTES_VER := by
    rw [hupdater₁]
    exact hver
  obtain ⟨acts₂, c₂, hrun₂, hidle₂, hrest₂, hstate₂⟩ := hanswered₁.version chip hstate₁
  -- the checksum
  have hneed₂ : need c₂.loader = 4 := by
    rw [need, hstate₂]
    rfl
  have hleft : c₂.rest = file.drop 4 := by rw [hrest₂, hrest₁, hrest]
  obtain ⟨acts₃, c₃, hrun₃, hanswered₃, hrest₃, hupdater₃, -⟩ :=
    hidle₂.answer chip (n := 4) (by decide) hneed₂.ge (by rw [hleft, List.length_drop]; omega)
      fun _ => rfl
  have hstate₃ : c₃.loader.updater.state = .GET_BYTES_CRC := by
    rw [hupdater₃]
    exact hstate₂
  obtain ⟨acts₄, c₄, hrun₄, hidle₄, -, hstate₄⟩ := hanswered₃.sourceCrc chip hstate₃
  -- the image, and the end of it
  have hfront := ((hrun₁.append hrun₂).append hrun₃).append hrun₄
  obtain ⟨hinv₄, hstaging₄⟩ := staging_of_run hinv hstaging hlen hfront
  obtain ⟨acts₅, c₅, hrun₅, hidle₅, hrest₅, hstate₅⟩ :=
    hidle₄.chunks hstate₄ hinv₄ hstaging₄ hlen
  obtain ⟨acts₆, c₆, now', hrun₆, hend⟩ := hidle₅.finish chip hstate₅ hrest₅
  exact ⟨_, c₆, now', (hfront.append hrun₅).append hrun₆, hend⟩

/-! ## Every session -/

section Session

variable {s t : Loader} {now : UInt32} {file wire commonDefines : List UInt8}
  {connected : List Transmit × Loader} {acts : List Act}

/-- A session over the file of `HandlerBIN`, whatever the modem does. -/
theorem staging_of_session (hfile : HandlerBIN.main image commonDefines = some file)
    (hstate : s.updater.state = .NEED_WAIT_CONNECT)
    (hconnect : s.updateUpdater chip now (ascii "+FTPGET: 1,1") = some connected)
    (hver : connected.2.updater.state = .GET_BYTES_VER) (hwire : wire = [] ∨ wire = [0x0A])
    (hlen : image.length ≤ MAX_SIZE_STORAGE)
    (hrun : LTS.Run (LTS.stepOf (step chip)) (start file wire connected) acts c) :
    ∃ version, file = HandlerBIN.frm version (Math.calculateCRC image) image ∧ Inv file c ∧
      Staging chip file connected.2.programmer c := by
  obtain ⟨version, rfl⟩ := HandlerBIN.main_eq_some hfile
  have hsmall : MAX_SIZE_STORAGE < 2 ^ 30 := by decide
  refine ⟨version, rfl, staging_of_run (inv_start hstate hconnect hver hwire) (staging_start hver)
    ?_ hrun⟩
  rw [HandlerBIN.drop_frm]
  omega

/-- Filling up makes no image longer than the area. -/
theorem length_padded_le {image : List UInt8} (h : image.length ≤ MAX_SIZE_STORAGE) :
    (padded image).length ≤ MAX_SIZE_STORAGE := by
  rw [length_padded]
  simp only [MAX_SIZE_STORAGE] at h ⊢
  omega

theorem padded_of_words {image : List UInt8} (h : image.length % 4 = 0) : padded image = image := by
  rw [padded, h]
  exact List.append_nil image

/-- **Which images are accepted.**  In every session over the file that `HandlerBIN` makes of an
image for which there is room, whatever the modem gives and however symbols and polls fall, the
poll at the end of the file stages the image if it is a number of whole words; otherwise it is
rejected, and in both cases the application is as it was. -/
theorem frm_accepted_iff (chip : Chip) (hfile : HandlerBIN.main image commonDefines = some file)
    (hlen : image.length ≤ MAX_SIZE_STORAGE)
    (hstate : s.updater.state = .NEED_WAIT_CONNECT)
    (hconnect : s.updateUpdater chip now (ascii "+FTPGET: 1,1") = some connected)
    (hver : connected.2.updater.state = .GET_BYTES_VER) (hwire : wire = [] ∨ wire = [0x0A])
    (hshows : Shows ADDR_STORAGE connected.2.rom)
    (hrun : LTS.Run (LTS.stepOf (step chip)) (start file wire connected) acts c) {now' : UInt32}
    (hend : c.AtEndOfFile now') (answer : List UInt8) :
    ∃ c', c.step chip (.poll now' answer) = some c' ∧
      (image.length % 4 = 0 → Accepted image connected.2.rom c'.loader) ∧
      (image.length % 4 ≠ 0 → Rejected connected.2.rom c'.loader) := by
  obtain ⟨version, rfl, hinv, hstaging⟩ :=
    staging_of_session hfile hstate hconnect hver hwire hlen hrun
  obtain ⟨c', hpoll, hresult⟩ :=
    hstaging.endOfFile hinv hend (length_padded_le hlen) hshows answer
  refine ⟨c', hpoll, fun hwords => ?_, fun hrest => ?_⟩
  · rw [if_pos ((Math.calculateCRC_padded_iff image).mpr hwords), padded_of_words hwords] at hresult
    exact hresult
  · rw [if_neg fun hcrc => hrest ((Math.calculateCRC_padded_iff image).mp hcrc)] at hresult
    exact hresult

/-- A header, five bytes of an image, and the text that the version is read from. -/
def fiveFile : List UInt8 :=
  HandlerBIN.frm 292 (Math.calculateCRC [1, 2, 3, 4, 5]) [1, 2, 3, 4, 5]

theorem main_five :
    HandlerBIN.main [1, 2, 3, 4, 5] (ascii "#define VERSION 292\n") = some fiveFile := by
  decide

/-- An image of five bytes is rejected. -/
theorem frm_rejected_five :
    ∃ c now' c', LTS.Reachable (LTS.stepOf (step andChip))
        (start fiveFile [] ([.ftpGet 4], connectedLoader)) c ∧
      c.AtEndOfFile now' ∧ c.step andChip (.poll now' []) = some c' ∧
      Rejected ⟨fun _ => 0xFF, []⟩ c'.loader := by
  obtain ⟨acts, c, now', hrun, hend⟩ := exists_session andChip fiveFile rfl rfl
    opens_session rfl (by decide) (by decide)
  obtain ⟨c', hpoll, -, hrejected⟩ := frm_accepted_iff andChip main_five (by decide) rfl
    opens_session rfl (Or.inl rfl) (fun _ _ _ _ _ _ => rfl) hrun hend []
  exact ⟨c, now', c', ⟨acts, hrun⟩, hend, hpoll, hrejected (by decide)⟩

/-- **An accepted image is installed.**  Whatever arrives while it is copied, the first round of
the copy loop leaves it as the application, and the update is over. -/
theorem frm_installed (chip : Chip) (hfile : HandlerBIN.main image commonDefines = some file)
    (hlen : image.length ≤ MAX_SIZE_STORAGE) (hwords : image.length % 4 = 0)
    (hstate : s.updater.state = .NEED_WAIT_CONNECT)
    (hconnect : s.updateUpdater chip now (ascii "+FTPGET: 1,1") = some connected)
    (hver : connected.2.updater.state = .GET_BYTES_VER) (hwire : wire = [] ∨ wire = [0x0A])
    (hshows : Shows ADDR_STORAGE connected.2.rom)
    (hwithin : ShowsWithin ADDR_APPLICATION connected.2.rom.cells)
    (hrun : LTS.Run (LTS.stepOf (step chip)) (start file wire connected) acts c) {now' : UInt32}
    (hend : c.AtEndOfFile now') {answer : List UInt8} {c' : Download}
    (hpoll : c.step chip (.poll now' answer) = some c') {received : List UInt8}
    (hcopying : LTS.Run (LTS.stepOf (Loader.next chip)) c'.loader (Loader.symbols received) t) :
    ∃ u, t.next chip .copy = some u ∧ Installed image u := by
  obtain ⟨version, rfl, hinv, hstaging⟩ :=
    staging_of_session hfile hstate hconnect hver hwire hlen hrun
  obtain ⟨c'', hpoll', hresult⟩ :=
    hstaging.endOfFile hinv hend (length_padded_le hlen) hshows answer
  obtain rfl := Option.some.inj (hpoll'.symm.trans hpoll)
  rw [if_pos ((Math.calculateCRC_padded_iff image).mpr hwords), padded_of_words hwords] at hresult
  exact (hresult.symbols hcopying).copy hwords hlen hwithin chip

/-- A header and an image of one word. -/
def wordFile : List UInt8 := HandlerBIN.frm 292 (Math.calculateCRC [1, 2, 3, 4]) [1, 2, 3, 4]

theorem main_word :
    HandlerBIN.main [1, 2, 3, 4] (ascii "#define VERSION 292\n") = some wordFile := by
  decide

/-- An image of one word is installed, with no symbol in between. -/
theorem frm_installed_word :
    ∃ c now' c' u, LTS.Reachable (LTS.stepOf (step andChip))
        (start wordFile [] ([.ftpGet 4], connectedLoader)) c ∧
      c.AtEndOfFile now' ∧ c.step andChip (.poll now' []) = some c' ∧
      c'.loader.next andChip .copy = some u ∧ Installed [1, 2, 3, 4] u := by
  obtain ⟨acts, c, now', hrun, hend⟩ := exists_session andChip wordFile rfl rfl
    opens_session rfl (by decide) (by decide)
  obtain ⟨version, -, hinv, hstaging⟩ :=
    staging_of_session main_word rfl opens_session rfl (Or.inl rfl) (by decide) hrun
  obtain ⟨c', hpoll, -⟩ := hstaging.endOfFile hinv hend (by decide) (fun _ _ _ _ _ _ => rfl) []
  obtain ⟨u, hcopy, hinstalled⟩ := frm_installed andChip main_word (by decide) rfl rfl
    opens_session rfl (Or.inl rfl) (fun _ _ _ _ _ _ => rfl) (fun _ _ _ _ _ _ => rfl) hrun hend
    hpoll (show LTS.Run _ _ (Loader.symbols []) _ from LTS.Run.nil)
  exact ⟨c, now', c', u, ⟨acts, hrun⟩, hend, hpoll, hcopy, hinstalled⟩

/-- **Every image can be installed.**  For each image of whole words for which there is room, there
is a session over the file of `HandlerBIN` at the end of which the image is staged, and behind one
round of the copy loop it is the application. -/
theorem frm_installable (chip : Chip) (hfile : HandlerBIN.main image commonDefines = some file)
    (hlen : image.length ≤ MAX_SIZE_STORAGE) (hwords : image.length % 4 = 0)
    (hstate : s.updater.state = .NEED_WAIT_CONNECT) (hcopying : s.copying = none)
    (hconnect : s.updateUpdater chip now (ascii "+FTPGET: 1,1") = some connected)
    (hver : connected.2.updater.state = .GET_BYTES_VER)
    (hshows : Shows ADDR_STORAGE connected.2.rom)
    (hwithin : ShowsWithin ADDR_APPLICATION connected.2.rom.cells) :
    ∃ c now' c' u, LTS.Reachable (LTS.stepOf (step chip)) (start file [] connected) c ∧
      c.AtEndOfFile now' ∧ c.step chip (.poll now' []) = some c' ∧
      c'.loader.next chip .copy = some u ∧ Installed image u := by
  obtain ⟨version, rfl⟩ := HandlerBIN.main_eq_some hfile
  have hsmall : MAX_SIZE_STORAGE < 2 ^ 30 := by decide
  obtain ⟨acts, c, now', hrun, hend⟩ := exists_session chip
    (HandlerBIN.frm version (Math.calculateCRC image) image) hstate hcopying hconnect hver
    (Nat.le_add_left 8 image.length) (by rw [HandlerBIN.drop_frm]; omega)
  obtain ⟨-, -, hinv, hstaging⟩ :=
    staging_of_session hfile hstate hconnect hver (Or.inl rfl) hlen hrun
  obtain ⟨c', hpoll, hresult⟩ := hstaging.endOfFile hinv hend (length_padded_le hlen) hshows []
  rw [if_pos ((Math.calculateCRC_padded_iff image).mpr hwords), padded_of_words hwords] at hresult
  obtain ⟨u, hcopy, hinstalled⟩ := hresult.copy hwords hlen hwithin chip
  exact ⟨c, now', c', u, ⟨acts, hrun⟩, hend, hpoll, hcopy, hinstalled⟩

/-- The image of one word again. -/
theorem frm_installable_word :
    ∃ c now' c' u, LTS.Reachable (LTS.stepOf (step andChip))
        (start wordFile [] ([.ftpGet 4], connectedLoader)) c ∧
      c.AtEndOfFile now' ∧ c.step andChip (.poll now' []) = some c' ∧
      c'.loader.next andChip .copy = some u ∧ Installed [1, 2, 3, 4] u :=
  frm_installable andChip main_word (by decide) rfl rfl rfl opens_session rfl
    (fun _ _ _ _ _ _ => rfl) fun _ _ _ _ _ _ => rfl

end Session

end Download

end USKD
