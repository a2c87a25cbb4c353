import USKD.Loader.Download

/-!
# The header of the file

The modem may give fewer bytes than it was asked for, and the rest in later answers.  The
reader sets `requested_bytes_received` when the bytes the modem **offered** are there; what was
asked for is not compared.

* `stepShort` is the session with a modem that may do so in every answer.
* As long as the answers to the requests for four bytes are in full, the invariant of the
  session is kept, and each poll takes what the file has in that place (`taken_of_inv`).
* An answer with two bytes to the first request is enough to store a version that the file does
  not begin with (`not_taken_short`).
-/

namespace USKD

open NorFlash Transducer ReaderFTP

namespace Download

variable {chip : Chip} {file : List UInt8} {c c' : Download}

/-- One step of the session, where an answer may be short. -/
def stepShort (chip : Chip) (c : Download) : Act → Option Download
  | .answer n =>
      match c.requests with
      | [] => none
      | m :: requests =>
          if n ≤ m ∧ n ≤ c.rest.length then
            some { c with
              wire := c.wire ++ reply (c.rest.take n)
              rest := c.rest.drop n
              requests := requests
              starved := c.starved || n = 0 }
          else none
  | .receive => c.step chip .receive
  | .poll now answer => c.step chip (.poll now answer)
  | .ready => c.step chip .ready
  | .finish => c.step chip .finish

/-- A request for four bytes is answered with four bytes, if with any. -/
def InFull (c : Download) : Act → Prop
  | .answer n => c.requests.head? = some 4 → 0 < n → n = 4
  | .receive | .poll .. | .ready | .finish => True

/-- The modem that gives the header in full is one of these. -/
theorem inFull_of_step {act : Act} (h : c.step chip act = some c') :
    LTS.Guarded InFull (LTS.stepOf (stepShort chip)) c act c' := by
  cases act with
  | receive | poll | ready | finish => exact ⟨trivial, h⟩
  | answer n =>
      rw [step] at h
      split at h
      · exact absurd h (by simp)
      rename_i m requests hrequests
      split at h
      · rename_i hcond
        obtain ⟨hm, hlen, hheader⟩ := hcond
        constructor
        · intro hfour _
          rw [hrequests] at hfour
          exact hheader (Option.some.inj hfour)
        · show c.stepShort chip (.answer n) = some c'
          rw [stepShort, hrequests]
          exact (if_pos ⟨hm, hlen⟩).trans h
      · exact absurd h (by simp)

/-- **Step lemma.** -/
theorem Inv.stepShort (h : Inv file c) {act : Act}
    (hstep : LTS.Guarded InFull (LTS.stepOf (stepShort chip)) c act c') : Inv file c' := by
  obtain ⟨hfull, hstep⟩ := hstep
  rw [LTS.stepOf] at hstep
  cases act with
  | receive =>
      rw [Download.stepShort] at hstep
      exact h.receive hstep
  | poll now answer =>
      rw [Download.stepShort] at hstep
      exact h.poll hstep
  | ready =>
      rw [Download.stepShort] at hstep
      exact h.ready hstep
  | finish =>
      rw [Download.stepShort] at hstep
      exact h.finish hstep
  | answer n =>
      rw [Download.stepShort] at hstep
      split at hstep
      · exact absurd hstep (by simp)
      rename_i m requests hrequests
      split at hstep
      · rename_i hcond
        refine h.answers hrequests hcond.1 hcond.2 (fun hfour => ?_) (Option.some.inj hstep).symm
        apply hfull
        rw [hrequests, hfour]
        rfl
      · exact absurd hstep (by simp)

/-! ## What a poll takes -/

/-- The value stored is the word of the file at `position`, and the reader has received the
bytes of that word since it was asked. -/
def Field (file : List UInt8) (position : ℕ) (r : ReaderFTP) (value : UInt32) : Prop :=
  ∃ w : Word, (file.drop position).take 4 = w.bytes ∧ r.received = w.bytes ∧ value = w.toUInt32

/-- **A poll takes what the file has in that place.** -/
structure Taken (file : List UInt8) (c c' : Download) : Prop where
  version : c.loader.updater.state = .GET_BYTES_VER → c'.loader.updater.state = .GET_BYTES_CRC →
    Field file 0 c.loader.reader c'.loader.updater.version
  sourceCrc : c.loader.updater.state = .GET_BYTES_CRC →
    c'.loader.updater.state = .GET_BYTES_FIRMWARE →
    Field file 4 c.loader.reader c'.loader.updater.sourceCrc
  /-- The blocks handed to `WriteBytes` begin at the ninth byte. -/
  blocks : c.loader.updater.state = .GET_BYTES_FIRMWARE →
    c'.loader.programmer.blocks.flatten <+: file.drop 8

/-- Four bytes received are the word that `memcpy` reads. -/
theorem firstWord_of_received {r : ReaderFTP} (h : r.received.length = 4) :
    ∃ w : Word, r.received = w.bytes ∧ r.firstWord = w.toUInt32 := by
  have hpointer : r.pointerData = 4 := by
    rw [received, List.length_take, Vector.length_toList] at h
    omega
  refine ⟨⟨r.bufferData[0], r.bufferData[1], r.bufferData[2], r.bufferData[3]⟩, ?_, rfl⟩
  rw [received, hpointer]
  apply List.ext_getElem
  · rw [← hpointer]
    exact h
  · intro i hi hi'
    have hless : i < 4 := hi'
    obtain rfl | rfl | rfl | rfl : i = 0 ∨ i = 1 ∨ i = 2 ∨ i = 3 := by omega
    all_goals rw [List.getElem_take, Vector.getElem_toList]; rfl

/-- A complete answer to a request for four bytes. -/
theorem Inv.field (h : Inv file c) (hactive : c.Active)
    (hcomplete : c.loader.reader.requestedBytesReceived) (hneed : need c.loader = 4)
    (hwritten : written c.loader = []) :
    Field file (header c.loader) c.loader.reader c.loader.reader.firstWord := by
  obtain ⟨os, d, hpasses, hd⟩ := h.ahead hactive
  obtain ⟨hfull, -, hreceived⟩ := hpasses.along.here.1 hcomplete
  have hfour : c.loader.reader.received.length = 4 := by
    rw [hreceived]
    rcases hd.turn with ⟨-, -, hidle, -⟩ | ⟨-, -, hidle, -⟩ | ⟨-, -, -, hheader⟩
    · exact absurd (hidle.symm.trans hfull) (by decide)
    · exact absurd (hidle.symm.trans hfull) (by decide)
    · exact hheader hneed
  obtain ⟨w, hword, hfirst⟩ := firstWord_of_received hfour
  refine ⟨w, ?_, hword, hfirst⟩
  rw [hd.account, hwritten, List.nil_append, ← hreceived, ← hword, ← hfour, List.take_left]

/-- What has been handed over, and what the reader holds when it is consumed. -/
theorem Inv.blocks (h : Inv file c) (hactive : c.Active)
    (hstate : c.loader.updater.state = .GET_BYTES_FIRMWARE) :
    c.loader.programmer.blocks.flatten <+: file.drop 8 ∧
      (c.loader.reader.requestedBytesReceived ∨ c.loader.reader.receivedFTPGET_1_0 →
        (c.loader.programmer.blocks ++ [c.loader.reader.received]).flatten <+: file.drop 8) := by
  obtain ⟨os, d, hpasses, hd⟩ := h.ahead hactive
  obtain ⟨hrequested, hflag⟩ := hpasses.along.here
  have haccount := hd.account
  simp only [header, written, hstate, if_true] at haccount
  rw [haccount]
  refine ⟨?_, fun hconsumed => ?_⟩
  · rw [List.append_assoc]
    exact List.prefix_append _ _
  · have hreceived : c.loader.reader.received = d.received := by
      rcases hconsumed with hr | hf
      · exact (hrequested hr).2.2
      · exact (hflag hstate hf).2
    rw [List.flatten_append, List.flatten_singleton, hreceived]
    exact List.prefix_append _ _

section Stored

variable {s t : Loader} {now : UInt32} {commands : List Transmit}

/-- The version is stored when the answer is complete. -/
theorem version_of_next (hstate : s.updater.state = .GET_BYTES_VER)
    (hnext : t.updater.state = .GET_BYTES_CRC) (h : s.getBytesVer now = some (commands, t)) :
    s.reader.requestedBytesReceived ∧ t.updater.version = s.reader.firstWord := by
  rcases Loader.meterIsRunning_cases h with hreset | ⟨-, hbody⟩
  · obtain ⟨-, rfl⟩ := Prod.mk.inj hreset
    exact absurd hnext (by simp [Loader.reset, Loader.resetUpdater])
  simp only at hbody
  split at hbody
  · rename_i hcomplete
    obtain ⟨-, rfl⟩ := Prod.mk.inj (Option.some.inj hbody)
    exact ⟨hcomplete, rfl⟩
  · obtain ⟨-, rfl⟩ := Prod.mk.inj (Option.some.inj hbody)
    exact absurd (hstate.symm.trans hnext) (by decide)

/-- So is the checksum. -/
theorem sourceCrc_of_next (hstate : s.updater.state = .GET_BYTES_CRC)
    (hnext : t.updater.state = .GET_BYTES_FIRMWARE) (h : s.getBytesCrc now = some (commands, t)) :
    s.reader.requestedBytesReceived ∧ t.updater.sourceCrc = s.reader.firstWord := by
  rcases Loader.meterIsRunning_cases h with hreset | ⟨-, hbody⟩
  · obtain ⟨-, rfl⟩ := Prod.mk.inj hreset
    exact absurd hnext (by simp [Loader.reset, Loader.resetUpdater])
  simp only at hbody
  split at hbody
  · rename_i hcomplete
    obtain ⟨-, rfl⟩ := Prod.mk.inj (Option.some.inj hbody)
    exact ⟨hcomplete, rfl⟩
  · obtain ⟨-, rfl⟩ := Prod.mk.inj (Option.some.inj hbody)
    exact absurd (hstate.symm.trans hnext) (by decide)

/-- What a poll hands over, it has from the reader. -/
theorem blocks_of_poll (h : s.getBytesFirmware chip now = some (commands, t)) :
    t.programmer.blocks = s.programmer.blocks ∨
      (s.reader.requestedBytesReceived ∨ s.reader.receivedFTPGET_1_0) ∧
        t.programmer.blocks = s.programmer.blocks ++ [s.reader.received] := by
  rcases Loader.meterIsRunning_cases h with hreset | ⟨-, hbody⟩
  · obtain ⟨-, rfl⟩ := Prod.mk.inj hreset
    exact Or.inl rfl
  simp only at hbody
  split at hbody
  · rename_i hflag
    exact Or.inr ⟨Or.inr hflag, (poll_endOfFile hbody).2⟩
  split at hbody
  · rename_i hcomplete
    obtain ⟨p, hwrite, hrest⟩ := Option.map_eq_some_iff.mp hbody
    obtain ⟨-, rfl⟩ := Prod.mk.inj hrest
    exact Or.inr ⟨Or.inl hcomplete, Programmer.blocks_writeBytes hwrite⟩
  · obtain ⟨-, rfl⟩ := Prod.mk.inj (Option.some.inj hbody)
    exact Or.inl rfl

end Stored

/-- **A poll behind the invariant.** -/
theorem Inv.taken (h : Inv file c) {now : UInt32} {answer : List UInt8}
    (hpoll : c.step chip (.poll now answer) = some c') : Taken file c c' := by
  rw [Download.step] at hpoll
  split at hpoll
  · rename_i hactive
    obtain ⟨⟨commands, t⟩, hupdate, rfl⟩ := Option.map_eq_some_iff.mp hpoll
    constructor
    · intro hstate hnext
      simp only [Loader.updateUpdater, hstate] at hupdate
      obtain ⟨hcomplete, hversion⟩ := version_of_next hstate hnext hupdate
      have hfield := h.field hactive hcomplete (by simp [need, hstate]) (by simp [written, hstate])
      have hheader : header c.loader = 0 := by simp [header, hstate]
      rw [hheader, ← hversion] at hfield
      exact hfield
    · intro hstate hnext
      simp only [Loader.updateUpdater, hstate] at hupdate
      obtain ⟨hcomplete, hcrc⟩ := sourceCrc_of_next hstate hnext hupdate
      have hfield := h.field hactive hcomplete (by simp [need, hstate]) (by simp [written, hstate])
      have hheader : header c.loader = 4 := by simp [header, hstate]
      rw [hheader, ← hcrc] at hfield
      exact hfield
    · intro hstate
      simp only [Loader.updateUpdater, hstate] at hupdate
      obtain ⟨hbefore, hconsumed⟩ := h.blocks hactive hstate
      rcases blocks_of_poll hupdate with hsame | ⟨hready, hblocks⟩
      · rw [← hsame] at hbefore
        exact hbefore
      · rw [← hblocks] at hconsumed
        exact hconsumed hready
  · exact absurd hpoll (by simp)

/-! ## The session -/

/-- **The header is taken from its place.**  In every session that an answer `+FTPGET: 1,1`
opens, for every file, every interleaving of symbols and polls and every choice of the modem
that answers the requests for four bytes in full, each poll takes what the file has there. -/
theorem taken_of_inFull (chip : Chip) {s : Loader} {now : UInt32} {file wire : List UInt8}
    {connected : List Transmit × Loader} (hstate : s.updater.state = .NEED_WAIT_CONNECT)
    (hconnect : s.updateUpdater chip now (ascii "+FTPGET: 1,1") = some connected)
    (hver : connected.2.updater.state = .GET_BYTES_VER) (hwire : wire = [] ∨ wire = [0x0A])
    {acts : List Act} {c : Download}
    (hrun : LTS.Run (LTS.Guarded InFull (LTS.stepOf (stepShort chip))) (start file wire connected)
      acts c) {now' : UInt32} {answer : List UInt8} {c' : Download}
    (hpoll : c.stepShort chip (.poll now' answer) = some c') : Taken file c c' := by
  have hinv : Inv file c := hrun.invariant (inv_start hstate hconnect hver hwire)
    fun _ _ _ h hstep => h.stepShort hstep
  rw [stepShort] at hpoll
  exact hinv.taken hpoll

/-! ## The first answer of a session -/

/-- A file that is a header. -/
def headerFile : List UInt8 := [0x01, 0x02, 0x03, 0x04, 0x05, 0x06, 0x07, 0x08]

/-- The loader when the session is opened. -/
def connectedLoader : Loader :=
  Loader.during .GET_BYTES_VER (Loader.asking 4 0) ⟨0, 0, [], [], ⟨fun _ => 0xFF, []⟩⟩

theorem opens_session :
    Loader.updateUpdater andChip
      (Loader.during .NEED_WAIT_CONNECT .boot ⟨0, 0, [], [], ⟨fun _ => 0xFF, []⟩⟩) 0
      (ascii "+FTPGET: 1,1") = some ([.ftpGet 4], connectedLoader) :=
  rfl

/-- The reader with two bytes of the header, and with four. -/
def holdingTwo : ReaderFTP :=
  { Loader.asking 4 2 with
    pointerData := 2
    bufferData := ((Vector.replicate 64 0).set! 0 0x01).set! 1 0x02
    requestedBytesReceived := true }

def holdingFour : ReaderFTP :=
  { Loader.asking 4 4 with
    pointerData := 4
    bufferData := ((((Vector.replicate 64 0).set! 0 0x01).set! 1 0x02).set! 2 0x03).set! 3 0x04
    requestedBytesReceived := true }

/-- The session behind the first answer, with `n` bytes. -/
def answeredFirst (n : ℕ) (reader : ReaderFTP) : Download :=
  during .GET_BYTES_VER reader 0 [] (headerFile.drop n) [] false

/-- The first answer is received. -/
theorem run_first {n : ℕ} {reader : ReaderFTP}
    (hfeed : feed appendByte (Loader.asking 4 0) (reply (headerFile.take n)) =
      some (List.replicate (reply (headerFile.take n)).length [], reader)) :
    LTS.Run (LTS.stepOf (step andChip))
      (during .GET_BYTES_VER (Loader.asking 4 0) 0 (reply (headerFile.take n)) (headerFile.drop n)
        [] false)
      (List.replicate (reply (headerFile.take n)).length .receive) (answeredFirst n reader) := by
  have hrun := run_receive andChip [] (c := during .GET_BYTES_VER (Loader.asking 4 0) 0
    (reply (headerFile.take n)) (headerFile.drop n) [] false) rfl hfeed (List.append_nil _).symm
  rw [said_replicate] at hrun
  exact hrun

/-- The header in full: the version is the first word of the file. -/
theorem taken_four :
    ∃ c', (answeredFirst 4 holdingFour).stepShort andChip (.poll 0 []) = some c' ∧
      c'.loader.updater.version = 0x04030201 ∧ Taken headerFile (answeredFirst 4 holdingFour) c' := by
  have hanswer : LTS.Guarded InFull (LTS.stepOf (stepShort andChip))
      (start headerFile [] ([.ftpGet 4], connectedLoader)) (.answer 4)
      (during .GET_BYTES_VER (Loader.asking 4 0) 0 (reply (headerFile.take 4)) (headerFile.drop 4)
        [] false) :=
    inFull_of_step rfl
  have hfeed : feed appendByte (Loader.asking 4 0) (reply (headerFile.take 4)) =
      some (List.replicate 24 [], holdingFour) := by decide
  have hrun := (LTS.Run.single hanswer).append
    ((run_first hfeed).mono fun _ _ _ hstep => inFull_of_step hstep)
  exact ⟨_, rfl, rfl, taken_of_inFull andChip rfl opens_session rfl (Or.inl rfl) hrun
    (show (answeredFirst 4 holdingFour).stepShort andChip (.poll 0 []) = some _ from rfl)⟩

/-- **Two bytes are enough.**  The first request for four bytes is answered with two; the version
stored is these two bytes and what the buffer held behind them. -/
theorem not_taken_short :
    Loader.updateUpdater andChip
        (Loader.during .NEED_WAIT_CONNECT .boot ⟨0, 0, [], [], ⟨fun _ => 0xFF, []⟩⟩) 0
        (ascii "+FTPGET: 1,1") = some ([.ftpGet 4], connectedLoader) ∧
      ∃ acts c c', LTS.Run (LTS.stepOf (stepShort andChip))
        (start headerFile [] ([.ftpGet 4], connectedLoader)) acts c ∧
      c.stepShort andChip (.poll 0 []) = some c' ∧ c'.loader.updater.version = 0x0201 ∧
      ¬ Taken headerFile c c' := by
  have hanswer : LTS.Run (LTS.stepOf (stepShort andChip))
      (start headerFile [] ([.ftpGet 4], connectedLoader)) [.answer 2]
      (during .GET_BYTES_VER (Loader.asking 4 0) 0 (reply (headerFile.take 2)) (headerFile.drop 2)
        [] false) :=
    LTS.run_of_execRun rfl
  have hfeed : feed appendByte (Loader.asking 4 0) (reply (headerFile.take 2)) =
      some (List.replicate 22 [], holdingTwo) := by decide
  have hreceive := (run_first hfeed).mono fun _ _ _ hstep => (inFull_of_step hstep).step
  refine ⟨opens_session, _, _, _, hanswer.append hreceive, rfl, rfl, fun htaken => ?_⟩
  obtain ⟨w, -, hreceived, -⟩ := htaken.version rfl rfl
  have hlen : (holdingTwo.received).length = 4 := congrArg List.length hreceived
  exact absurd hlen (by decide)

end Download

end USKD
