import Mathlib.Data.Bool.AllAny
import USKD.Lib.Feed
import USKD.Loader.ReaderFTP

/-!
# What the reader makes of the messages of the modem

The messages of an FTP session are the answer to a request (`reply`), the notice that there
are bytes again (`ready`) and the end of the file (`fin`).  Between them stand lines without a
`+`, among them what is left of a message whose beginning a request has cut off.  For each of
these this module says what the reader does with it, byte by byte and as a whole.

`core` is everything in the reader but the line it is collecting.
-/

namespace USKD

namespace ReaderFTP

open Transducer

/-- The byte `+`, which opens every message. -/
def plus : UInt8 := 0x2B

/-- A line and its end. -/
def line (text : String) : List UInt8 := ascii text ++ [0x0D, 0x0A]

/-- The end of an answer. -/
def tail : List UInt8 := [0x0D, 0x0A] ++ line "OK"

/-- The answer to a request, with the bytes it gives. -/
def reply (data : List UInt8) : List UInt8 :=
  ascii "+FTPGET: 2," ++ decimal data.length ++ [0x0D, 0x0A] ++ data ++ tail

/-- There are bytes again. -/
def ready : List UInt8 := line "+FTPGET: 1,1"

/-- The end of the file. -/
def fin : List UInt8 := line "+FTPGET: 1,0"

/-- The reader without the line it collects. -/
def core (r : ReaderFTP) : ReaderFTP := { r with command := .clear }

/-- The bytes that are asked for in what the reader sends. -/
def asked (commands : List Transmit) : List ℕ :=
  commands.filterMap fun
    | .ftpGet needBytes => some needBytes
    | .text _ => none

/-- The symbols that a line is charged for: all but the CR. -/
def weight (bytes : List UInt8) : ℕ := (bytes.filter (· ≠ 0x0D)).length

/-- Behind the end of the file: its line stays in the command buffer, so that every further
line reads as the end of the file again. -/
structure Ended (r : ReaderFTP) : Prop where
  receivedCommand : r.receivedCommand = false
  flag : r.receivedFTPGET_1_0
  command : ∃ more, r.command.bytes = ascii "+FTPGET: 1,0" ++ [0] ++ more

/-- A reader that waits for a message. -/
structure Waiting (r : ReaderFTP) : Prop where
  receivedCommand : r.receivedCommand = false
  command : r.command.bytes = []

variable {r : ReaderFTP} {b : UInt8} {bytes : List UInt8}

theorem core_eq {r r' : ReaderFTP} (h : r'.core = r.core) :
    r'.receivedCommand = r.receivedCommand ∧ r'.needBytes = r.needBytes ∧
      r'.pointerData = r.pointerData ∧ r'.received = r.received ∧
      r'.requestedBytesReceived = r.requestedBytesReceived ∧
      r'.receivedFTPGET_1_0 = r.receivedFTPGET_1_0 := by
  simp only [core, ReaderFTP.mk.injEq] at h
  obtain ⟨h1, -, h2, -, h3, h4, h5, h6⟩ := h
  refine ⟨h1, h2, h3, ?_, h5, h6⟩
  rw [received, received, h3, h4]

/-- The end of the file changes the flag only. -/
theorem core_flag {r r' : ReaderFTP} (h : r'.core = { r.core with receivedFTPGET_1_0 := true }) :
    r'.receivedCommand = r.receivedCommand ∧ r'.needBytes = r.needBytes ∧
      r'.pointerData = r.pointerData ∧ r'.received = r.received ∧
      r'.requestedBytesReceived = r.requestedBytesReceived := by
  have hcore : r'.core = { r with receivedFTPGET_1_0 := true }.core := h
  obtain ⟨h1, h2, h3, h4, h5, -⟩ := core_eq hcore
  exact ⟨h1, h2, h3, h4, h5⟩

/-! ## One symbol -/

theorem appendByte_cr (h : r.receivedCommand = false) : r.appendByte 0x0D = some ([], r) := by
  simp [appendByte, h]

/-- The line `bytes` is collected. -/
def collecting (r : ReaderFTP) (bytes : List UInt8) (h : bytes.length ≤ 32) : ReaderFTP :=
  { r with command := ⟨bytes, h⟩ }

theorem appendByte_symbol (h : r.receivedCommand = false) (hcr : b ≠ 0x0D) (hlf : b ≠ 0x0A)
    (hroom : (r.command.bytes ++ [b]).length ≤ 32) :
    r.appendByte b = some ([], r.collecting (r.command.bytes ++ [b]) hroom) := by
  have hlt : r.command.bytes.length < 32 := by
    rw [List.length_append, List.length_singleton] at hroom
    omega
  rw [appendByte, if_neg (by simp [h]), if_neg hcr, if_neg hlf, Buffer.store, if_pos hlt,
    Option.map_some, collecting]
  congr 4
  exact Buffer.bytes_inj (Buffer.push_of_lt hlt)

theorem appendByte_lf (h : r.receivedCommand = false) (hline : r.command.bytes ≠ [])
    (hroom : (r.command.bytes ++ [0]).length ≤ 32) :
    r.appendByte 0x0A = endOfLine (r.collecting (r.command.bytes ++ [0]) hroom) := by
  have hlt : r.command.bytes.length < 32 := by
    rw [List.length_append, List.length_singleton] at hroom
    omega
  rw [appendByte, if_neg (by simp [h]), if_neg (by decide), if_pos rfl,
    if_neg (by simpa using hline), Buffer.store, if_pos hlt, Option.bind_some, collecting]
  congr 2
  exact Buffer.bytes_inj (Buffer.push_of_lt hlt)

theorem appendByte_lf_nil (h : r.receivedCommand = false) (hline : r.command.bytes = []) :
    r.appendByte 0x0A = some ([], r) := by
  simp [appendByte, h, hline]

/-! ## The end of a line -/

theorem getWord_one (text : List UInt8) (h : text.length < 128) :
    Parser.getWord text 1 = some (text.takeWhile fun c => !Parser.isSeparator c) := by
  have hlen := (List.takeWhile_prefix (fun c => !Parser.isSeparator c) (l := text)).length_le
  rw [Parser.getWord, if_pos rfl]
  exact if_pos (hlen.trans_lt h)

/-- A line without `+` is dropped. -/
theorem endOfLine_junk (hreceived : r.receivedCommand = false) (h : plus ∉ r.command.bytes) :
    ∃ r', endOfLine r = some ([], r') ∧ r'.core = r.core ∧ r'.command.bytes = [] := by
  have hsub : (beforeZero r.command.bytes).Sublist r.command.bytes :=
    (List.takeWhile_prefix _).sublist
  have hlen := hsub.length_le.trans r.command.size_le
  have hword : (beforeZero r.command.bytes).takeWhile (fun c => !Parser.isSeparator c) ≠
      ascii "+FTPGET" := by
    intro heq
    have hmem : plus ∈ ascii "+FTPGET" := by decide
    rw [← heq] at hmem
    exact h (hsub.subset ((List.takeWhile_prefix _).subset hmem))
  refine ⟨{ r with receivedCommand := false, command := .clear }, ?_, ?_, rfl⟩
  · simp only [endOfLine, getWord_one _ (hlen.trans_lt (by decide)), Option.bind_eq_bind,
      Option.bind_some, if_neg hword]
    rfl
  · rw [core, core, hreceived]

/-- The line of the end of the file sets the flag and stays. -/
theorem endOfLine_fin (h : beforeZero r.command.bytes = ascii "+FTPGET: 1,0") :
    endOfLine r = some ([], { r with receivedFTPGET_1_0 := true }) := by
  have h1 : Parser.getWord (ascii "+FTPGET: 1,0") 1 = some (ascii "+FTPGET") := by decide
  have h2 : Parser.getWord (ascii "+FTPGET: 1,0") 2 = some [0x31] := by decide
  have h3 : Parser.getWord (ascii "+FTPGET: 1,0") 3 = some [0x30] := by decide
  simp only [endOfLine, h, h1, h2, h3, Option.bind_eq_bind, Option.bind_some]
  rfl

/-- The line that announces bytes repeats the request. -/
theorem endOfLine_ready (h : beforeZero r.command.bytes = ascii "+FTPGET: 1,1") :
    endOfLine r = some ([.ftpGet r.needBytes], { r with command := .clear }) := by
  have h1 : Parser.getWord (ascii "+FTPGET: 1,1") 1 = some (ascii "+FTPGET") := by decide
  have h2 : Parser.getWord (ascii "+FTPGET: 1,1") 2 = some [0x31] := by decide
  have h3 : Parser.getWord (ascii "+FTPGET: 1,1") 3 = some [0x31] := by decide
  simp only [endOfLine, h, h1, h2, h3, Option.bind_eq_bind, Option.bind_some]
  rfl

/-- The words of an answer, for every number that a request can be answered with. -/
theorem getWord_reply : ∀ n < 65,
    Parser.getWord (ascii "+FTPGET: 2," ++ decimal n) 1 = some (ascii "+FTPGET") ∧
      Parser.getWord (ascii "+FTPGET: 2," ++ decimal n) 2 = some [0x32] ∧
      (Parser.getWord (ascii "+FTPGET: 2," ++ decimal n) 3).bind atoi = some (n : ℤ) := by
  decide

theorem endOfLine_reply {n : ℕ} (hn : n ≤ 64)
    (h : beforeZero r.command.bytes = ascii "+FTPGET: 2," ++ decimal n) :
    endOfLine r = some ([], if 0 < n then { r with bytesFromFTP := n, receivedCommand := true }
      else { r with bytesFromFTP := n, receivedCommand := false, command := .clear }) := by
  obtain ⟨h1, h2, h3⟩ := getWord_reply n (by omega)
  obtain ⟨word, hword, hvalue⟩ := Option.bind_eq_some_iff.mp h3
  simp only [endOfLine, h, h1, h2, hword, hvalue, Option.bind_eq_bind, Option.bind_some]
  rcases Nat.eq_zero_or_pos n with rfl | hpos
  · rfl
  · have hint : (0 : ℤ) < n := by exact_mod_cast hpos
    rw [if_pos hpos, if_pos hint]
    rfl

/-! ## Lines -/

theorem eq_collecting {r' : ReaderFTP} (hcore : r'.core = r.core)
    (hcommand : r'.command.bytes = bytes)
    (h : bytes.length ≤ 32) : r' = r.collecting bytes h := by
  have hbuffer : r'.command = ⟨bytes, h⟩ := Buffer.bytes_inj hcommand
  cases r'
  cases r
  simp only [core, ReaderFTP.mk.injEq] at hcore
  simp only [collecting, ReaderFTP.mk.injEq]
  exact ⟨hcore.1, hbuffer, hcore.2.2⟩

/-- Symbols of a line are collected. -/
theorem passes_collect {text : List UInt8} (hreceived : r.receivedCommand = false)
    (htext : ∀ b ∈ text, b ≠ 0x0D ∧ b ≠ 0x0A) (hroom : r.command.bytes.length + text.length ≤ 32) :
    ∃ r', Passes appendByte (fun r₁ _ => r₁.core = r.core) r text
        (List.replicate text.length []) r' ∧
      r'.core = r.core ∧ r'.command.bytes = r.command.bytes ++ text := by
  induction text generalizing r with
  | nil => exact ⟨r, Passes.nil rfl, rfl, by simp⟩
  | cons b text ih =>
      obtain ⟨hcr, hlf⟩ := htext b List.mem_cons_self
      rw [List.length_cons] at hroom
      have hone : (r.command.bytes ++ [b]).length ≤ 32 := by
        rw [List.length_append, List.length_singleton]
        omega
      have hstep := appendByte_symbol hreceived hcr hlf hone
      have hlen :
          (r.collecting (r.command.bytes ++ [b]) hone).command.bytes.length + text.length ≤ 32 := by
        show (r.command.bytes ++ [b]).length + text.length ≤ 32
        rw [List.length_append, List.length_singleton]
        omega
      obtain ⟨r', hpasses, hcore, hcommand⟩ := ih (r := r.collecting (r.command.bytes ++ [b]) hone)
        hreceived (fun d hd => htext d (List.mem_cons_of_mem _ hd)) hlen
      refine ⟨r', hpasses.cons rfl hstep, hcore, ?_⟩
      rw [hcommand]
      show r.command.bytes ++ [b] ++ text = _
      rw [List.append_assoc, List.singleton_append]

/-- **A line** from its first symbol to its end: in between only the line is collected. -/
theorem passes_line {text : List UInt8} {commands : List Transmit} {r' : ReaderFTP}
    (hw : Waiting r) (htext : ∀ b ∈ text, b ≠ 0x0D ∧ b ≠ 0x0A) (hsome : text ≠ [])
    (hroom : (text ++ [0]).length ≤ 32)
    (hend : endOfLine (r.collecting (text ++ [0]) hroom) = some (commands, r')) :
    Passes appendByte (fun r₁ post => r₁.core = r.core ∨ r₁ = r' ∧ post = []) r
      (text ++ [0x0D, 0x0A]) (List.replicate text.length [] ++ [[], commands]) r' := by
  have hlen : r.command.bytes.length + text.length ≤ 32 := by
    rw [List.length_append, List.length_singleton] at hroom
    rw [hw.command, List.length_nil]
    omega
  obtain ⟨q, hpasses, hcore, hcommand⟩ := passes_collect hw.receivedCommand htext hlen
  rw [hw.command, List.nil_append] at hcommand
  have hq : q.receivedCommand = false := (core_eq hcore).1.trans hw.receivedCommand
  have hlf : q.appendByte 0x0A = some (commands, r') := by
    have hroom' : (q.command.bytes ++ [0]).length ≤ 32 := by rw [hcommand]; exact hroom
    rw [appendByte_lf hq (by rw [hcommand]; exact hsome) hroom', ← hend]
    congr 1
    refine eq_collecting (r := r) (show (q.collecting _ hroom').core = r.core from hcore) ?_ hroom
    show q.command.bytes ++ [0] = text ++ [0]
    rw [hcommand]
  refine (hpasses.mono fun r₁ post h => Or.inl h).append ?_
  refine Passes.cons (Or.inl hcore) (appendByte_cr hq) (Passes.cons (Or.inl hcore) hlf ?_)
  exact Passes.nil (Or.inr ⟨rfl, rfl⟩)

/-! ## Bytes of the file -/

theorem received_set (h : r.pointerData < 64) :
    ((r.bufferData.set r.pointerData b).toList).take (r.pointerData + 1) = r.received ++ [b] := by
  have hlen : r.pointerData < r.bufferData.toList.length := by simpa using h
  rw [Vector.toList_set, List.take_add_one, List.take_set_of_le (le_refl _),
    List.getElem?_set_self hlen]
  rfl

/-- The bytes that the header has announced. -/
theorem passes_data {data : List UInt8} (hreceived : r.receivedCommand)
    (hsome : data ≠ []) (hmax : r.pointerData + data.length ≤ 64)
    (hcount : r.bytesFromFTP = (r.pointerData + data.length : ℕ)) :
    ∃ r', Passes appendByte (fun r₁ post => (r₁.requestedBytesReceived = r.requestedBytesReceived ∧
          r₁.receivedFTPGET_1_0 = r.receivedFTPGET_1_0) ∨ r₁ = r' ∧ post = [])
        r data (List.replicate data.length []) r' ∧
      Waiting r' ∧ r'.requestedBytesReceived ∧ r'.received = r.received ++ data ∧
      r'.needBytes = r.needBytes ∧ r'.receivedFTPGET_1_0 = r.receivedFTPGET_1_0 := by
  induction data generalizing r with
  | nil => exact absurd rfl hsome
  | cons b data ih =>
      rw [List.length_cons] at hmax hcount
      have hroom : r.pointerData < 64 := by omega
      have hset := received_set (b := b) hroom
      rcases List.eq_nil_or_concat data with rfl | ⟨front, last, hdata⟩
      · have hlast : ((r.pointerData + 1 : ℕ) : ℤ) = r.bytesFromFTP := by rw [hcount]; rfl
        have hstep : r.appendByte b = some ([], { r with
            bufferData := r.bufferData.set r.pointerData b, pointerData := r.pointerData + 1,
            receivedCommand := false, command := .clear, requestedBytesReceived := true }) := by
          rw [appendByte, if_pos hreceived, appendData, dif_pos hroom]
          simp only [if_pos hlast]
          rfl
        refine ⟨_, Passes.cons (Or.inl ⟨rfl, rfl⟩) hstep (Passes.nil (Or.inr ⟨rfl, rfl⟩)),
          ⟨rfl, rfl⟩, rfl, hset, rfl, rfl⟩
      · have hne : data ≠ [] := by rw [hdata]; simp
        have hmore : ((r.pointerData + 1 : ℕ) : ℤ) ≠ r.bytesFromFTP := by
          have hpos := List.length_pos_iff.mpr hne
          rw [hcount]
          omega
        have hstep : r.appendByte b = some ([], { r with
            bufferData := r.bufferData.set r.pointerData b, pointerData := r.pointerData + 1 }) := by
          rw [appendByte, if_pos hreceived, appendData, dif_pos hroom]
          simp only [if_neg hmore]
          rfl
        obtain ⟨r', hpasses, hw, hrequested, hdata', hneed, hflag⟩ := ih (r := { r with
          bufferData := r.bufferData.set r.pointerData b, pointerData := r.pointerData + 1 })
          hreceived hne (by show r.pointerData + 1 + data.length ≤ 64; omega)
          (by
            rw [hcount]
            show ((_ : ℕ) : ℤ) = ((r.pointerData + 1 + data.length : ℕ) : ℤ)
            congr 1
            omega)
        refine ⟨r', Passes.cons (Or.inl ⟨rfl, rfl⟩) hstep hpasses, hw, hrequested, ?_, hneed, hflag⟩
        rw [hdata']
        show ((r.bufferData.set r.pointerData b).toList).take (r.pointerData + 1) ++ data = _
        rw [hset, List.append_assoc, List.singleton_append]

/-! ## Lines without a `+` -/

theorem appendByte_junk (hreceived : r.receivedCommand = false) (hcommand : plus ∉ r.command.bytes)
    (hb : b ≠ plus) (hroom : r.command.bytes.length < 32) :
    ∃ r', r.appendByte b = some ([], r') ∧ r'.core = r.core ∧ plus ∉ r'.command.bytes ∧
      r'.command.bytes.length ≤ r.command.bytes.length + 1 ∧
      (b = 0x0A → r'.command.bytes = []) := by
  by_cases hcr : b = 0x0D
  · refine ⟨r, by rw [hcr]; exact appendByte_cr hreceived, rfl, hcommand, by omega, fun h => ?_⟩
    exact absurd (hcr.symm.trans h) (by decide)
  by_cases hlf : b = 0x0A
  · subst hlf
    by_cases hnil : r.command.bytes = []
    · exact ⟨r, appendByte_lf_nil hreceived hnil, rfl, hcommand, by omega, fun _ => hnil⟩
    · have hlen : (r.command.bytes ++ [0]).length ≤ 32 := by
        rw [List.length_append, List.length_singleton]
        omega
      have hjunk : plus ∉ (r.collecting (r.command.bytes ++ [0]) hlen).command.bytes := by
        show plus ∉ r.command.bytes ++ [0]
        rw [List.mem_append, not_or]
        exact ⟨hcommand, by decide⟩
      obtain ⟨r', hend, hcore, hempty⟩ := endOfLine_junk (r := r.collecting _ hlen) hreceived hjunk
      refine ⟨r', ?_, hcore, by simp [hempty], by simp [hempty], fun _ => hempty⟩
      rw [appendByte_lf hreceived hnil hlen, hend]
  · have hlen : (r.command.bytes ++ [b]).length ≤ 32 := by
      rw [List.length_append, List.length_singleton]
      omega
    refine ⟨r.collecting _ hlen, appendByte_symbol hreceived hcr hlf hlen, rfl, ?_, ?_,
      fun h => absurd h hlf⟩
    · show plus ∉ r.command.bytes ++ [b]
      simp [hcommand, hb.symm]
    · show (r.command.bytes ++ [b]).length ≤ _
      rw [List.length_append, List.length_singleton]

/-- **Lines without a `+`** change nothing but the line. -/
theorem passes_junk (hreceived : r.receivedCommand = false) (hcommand : plus ∉ r.command.bytes)
    (hbytes : plus ∉ bytes) (hroom : r.command.bytes.length + bytes.length ≤ 32) :
    ∃ r', Passes appendByte (fun r₁ _ => r₁.core = r.core) r bytes
        (List.replicate bytes.length []) r' ∧
      r'.core = r.core ∧ (bytes = [] → r' = r) ∧
      (bytes.getLast? = some 0x0A → r'.command.bytes = []) := by
  induction bytes generalizing r with
  | nil => exact ⟨r, Passes.nil rfl, rfl, fun _ => rfl, by simp⟩
  | cons b bytes ih =>
      rw [List.mem_cons, not_or] at hbytes
      rw [List.length_cons] at hroom
      obtain ⟨r₁, hstep, hcore, hplus, hlen, hlast⟩ :=
        appendByte_junk hreceived hcommand (Ne.symm hbytes.1) (by omega)
      obtain ⟨r', hpasses, hcore', hnil, hend⟩ :=
        ih ((core_eq hcore).1.trans hreceived) hplus hbytes.2 (by omega)
      refine ⟨r', ?_, hcore'.trans hcore, by simp, fun h => ?_⟩
      · exact Passes.cons rfl hstep (hpasses.mono fun _ _ h => h.trans hcore)
      · cases bytes with
        | nil =>
            rw [hnil rfl]
            exact hlast (by simpa using h)
        | cons c bytes => exact hend (by simpa using h)

/-! ## Behind the end of the file -/

theorem Ended.setCommand {r r' : ReaderFTP} (h : Ended r) (hcore : r'.core = r.core)
    {more : List UInt8} (hcommand : r'.command.bytes = r.command.bytes ++ more) : Ended r' := by
  obtain ⟨rest, hrest⟩ := h.command
  refine ⟨(core_eq hcore).1.trans h.receivedCommand, ?_, rest ++ more, ?_⟩
  · rw [(core_eq hcore).2.2.2.2.2]
    exact h.flag
  · rw [hcommand, hrest, List.append_assoc]

theorem appendByte_ended (h : Ended r) (hroom : r.command.bytes.length + weight [b] ≤ 32) :
    ∃ r', r.appendByte b = some ([], r') ∧ r'.core = r.core ∧ Ended r' ∧
      r'.command.bytes.length = r.command.bytes.length + weight [b] := by
  by_cases hcr : b = 0x0D
  · exact ⟨r, by rw [hcr]; exact appendByte_cr h.receivedCommand, rfl, h, by simp [weight, hcr]⟩
  have hweight : weight [b] = 1 := by simp [weight, hcr]
  rw [hweight] at hroom ⊢
  have hlen : ∀ c : UInt8, (r.command.bytes ++ [c]).length ≤ 32 := fun c => by
    rw [List.length_append, List.length_singleton]
    exact hroom
  by_cases hlf : b = 0x0A
  · have hsome : r.command.bytes ≠ [] := by
      obtain ⟨more, hmore⟩ := h.command
      rw [hmore]
      simp
    have hline : beforeZero (r.collecting (r.command.bytes ++ [0]) (hlen 0)).command.bytes =
        ascii "+FTPGET: 1,0" := by
      obtain ⟨more, hmore⟩ := h.command
      show beforeZero (r.command.bytes ++ [0]) = _
      rw [beforeZero_concat, hmore, List.append_assoc]
      rfl
    refine ⟨r.collecting (r.command.bytes ++ [0]) (hlen 0), ?_, rfl, h.setCommand rfl rfl, ?_⟩
    · rw [hlf, appendByte_lf h.receivedCommand hsome (hlen 0), endOfLine_fin hline, ← h.flag]
      rfl
    · show (r.command.bytes ++ [0]).length = _
      rw [List.length_append, List.length_singleton]
  · refine ⟨_, appendByte_symbol h.receivedCommand hcr hlf (hlen b), rfl, h.setCommand rfl rfl, ?_⟩
    show (r.command.bytes ++ [b]).length = _
    rw [List.length_append, List.length_singleton]

/-- **Behind the end of the file** whatever fits the command buffer changes nothing. -/
theorem passes_ended (h : Ended r) (hroom : r.command.bytes.length + weight bytes ≤ 32) :
    ∃ r', Passes appendByte (fun r₁ _ => r₁.core = r.core) r bytes
        (List.replicate bytes.length []) r' ∧
      r'.core = r.core ∧ Ended r' ∧
      r'.command.bytes.length = r.command.bytes.length + weight bytes := by
  induction bytes generalizing r with
  | nil => exact ⟨r, Passes.nil rfl, rfl, h, rfl⟩
  | cons b bytes ih =>
      have hweight : weight (b :: bytes) = weight [b] + weight bytes := by
        rw [weight, weight, weight, ← List.length_append, ← List.filter_append]
        rfl
      rw [hweight] at hroom ⊢
      obtain ⟨r₁, hstep, hcore, hended, hlen⟩ := appendByte_ended (b := b) h (by omega)
      obtain ⟨r', hpasses, hcore', hended', hlen'⟩ := ih hended (by omega)
      refine ⟨r', ?_, hcore'.trans hcore, hended', by omega⟩
      exact Passes.cons rfl hstep (hpasses.mono fun _ _ h => h.trans hcore)

/-! ## The messages as a whole -/

/-- What is asked for in a list of outputs. -/
def said (outputs : List (List Transmit)) : List ℕ := asked outputs.flatten

theorem said_replicate (n : ℕ) : said (List.replicate n []) = [] := by
  rw [said, List.flatten_replicate_nil]
  rfl

theorem said_append (os os' : List (List Transmit)) : said (os ++ os') = said os ++ said os' := by
  rw [said, List.flatten_append, asked, List.filterMap_append]
  rfl

theorem said_cons (commands : List Transmit) (os : List (List Transmit)) :
    said (commands :: os) = asked commands ++ said os := by
  rw [said, List.flatten_cons, asked, List.filterMap_append]
  rfl

theorem said_line (n : ℕ) (commands : List Transmit) :
    said (List.replicate n [] ++ [[], commands]) = asked commands := by
  rw [said_append, said_replicate]
  simp [said]

/-- A line of the source does not end early. -/
theorem ready_line : ∀ b ∈ ascii "+FTPGET: 1,1", b ≠ 0x0D ∧ b ≠ 0x0A :=
  List.all_iff_forall_prop.mp (by decide)

theorem fin_line : ∀ b ∈ ascii "+FTPGET: 1,0", b ≠ 0x0D ∧ b ≠ 0x0A :=
  List.all_iff_forall_prop.mp (by decide)

/-- The notice that there are bytes again repeats the request. -/
theorem passes_ready (hw : Waiting r) :
    ∃ os r', Passes appendByte (fun r₁ _ => r₁.core = r.core) r ready os r' ∧
      said os = [r.needBytes] ∧ Waiting r' ∧ r'.core = r.core := by
  have hroom : (ascii "+FTPGET: 1,1" ++ [0]).length ≤ 32 := by decide
  have hend := endOfLine_ready (r := r.collecting _ hroom) (by
    show beforeZero (ascii "+FTPGET: 1,1" ++ [0]) = _
    decide)
  refine ⟨_, _, (passes_line hw ready_line (by decide) hroom hend).mono ?_, said_line _ _, ?_, ?_⟩
  · rintro r₁ post (h | ⟨rfl, -⟩)
    · exact h
    · rfl
  · exact ⟨hw.receivedCommand, rfl⟩
  · rfl

/-- The end of the file sets its flag. -/
theorem passes_fin (hw : Waiting r) :
    ∃ os r', Passes appendByte (fun r₁ post => r₁.core = r.core ∨
          r₁.core = { r.core with receivedFTPGET_1_0 := true } ∧ post = []) r fin os r' ∧
      said os = [] ∧ Ended r' ∧ r'.core = { r.core with receivedFTPGET_1_0 := true } ∧
      r'.command.bytes.length = 13 := by
  have hroom : (ascii "+FTPGET: 1,0" ++ [0]).length ≤ 32 := by decide
  have hend := endOfLine_fin (r := r.collecting _ hroom) (by
    show beforeZero (ascii "+FTPGET: 1,0" ++ [0]) = _
    decide)
  refine ⟨_, _, (passes_line hw fin_line (by decide) hroom hend).mono ?_, said_line _ _, ?_, rfl,
    rfl⟩
  · rintro r₁ post (h | ⟨rfl, hpost⟩)
    · exact Or.inl h
    · exact Or.inr ⟨rfl, hpost⟩
  · exact ⟨hw.receivedCommand, rfl, [], by simp [collecting]⟩

/-- The end of an answer. -/
theorem passes_tail (hw : Waiting r) :
    ∃ r', Passes appendByte (fun r₁ _ => r₁.core = r.core) r tail
        (List.replicate tail.length []) r' ∧ Waiting r' ∧ r'.core = r.core := by
  have hplus : plus ∉ tail := by decide
  have hroom : r.command.bytes.length + tail.length ≤ 32 := by
    rw [hw.command]
    decide
  obtain ⟨r', hpasses, hcore, -, hlast⟩ :=
    passes_junk hw.receivedCommand (by simp [hw.command]) hplus hroom
  exact ⟨r', hpasses, ⟨(core_eq hcore).1.trans hw.receivedCommand, hlast (by decide)⟩, hcore⟩

/-- The header line of an answer fits the command buffer. -/
theorem reply_line : ∀ n < 65, (∀ b ∈ ascii "+FTPGET: 2," ++ decimal n, b ≠ 0x0D ∧ b ≠ 0x0A) ∧
    ascii "+FTPGET: 2," ++ decimal n ≠ [] ∧ (ascii "+FTPGET: 2," ++ decimal n ++ [0]).length ≤ 32 ∧
    beforeZero (ascii "+FTPGET: 2," ++ decimal n ++ [0]) = ascii "+FTPGET: 2," ++ decimal n := by
  intro n hn
  have hchars : ∀ n < 65, (ascii "+FTPGET: 2," ++ decimal n).all
      (fun b => decide (b ≠ 0x0D ∧ b ≠ 0x0A)) = true := by decide
  have hfits : ∀ n < 65, ascii "+FTPGET: 2," ++ decimal n ≠ [] ∧
      (ascii "+FTPGET: 2," ++ decimal n ++ [0]).length ≤ 32 ∧
      beforeZero (ascii "+FTPGET: 2," ++ decimal n ++ [0]) = ascii "+FTPGET: 2," ++ decimal n := by
    decide
  exact ⟨List.all_iff_forall_prop.mp (hchars n hn), hfits n hn⟩

/-- **An answer with bytes**: they are received, in order, when the last of them is read. -/
theorem passes_reply (data : List UInt8) (hw : Waiting r) (hidle : r.requestedBytesReceived = false)
    (hempty : r.pointerData = 0) (hsome : data ≠ []) (hmax : data.length ≤ 64) :
    ∃ os r', Passes appendByte (fun r₁ post =>
          (r₁.requestedBytesReceived → r₁.received = data ∧ post <:+ tail) ∧
            r₁.receivedFTPGET_1_0 = r.receivedFTPGET_1_0) r (reply data) os r' ∧
      said os = [] ∧ Waiting r' ∧ r'.requestedBytesReceived ∧ r'.received = data ∧
      r'.needBytes = r.needBytes := by
  obtain ⟨htext, hne, hroom, hzero⟩ := reply_line data.length (by omega)
  have hend := endOfLine_reply (r := r.collecting _ hroom) hmax hzero
  rw [if_pos (List.length_pos_iff.mpr hsome)] at hend
  have hheader := passes_line hw htext hne hroom hend
  obtain ⟨r', hdata, hw', hrequested, hreceived, hneed, hflag⟩ :=
    passes_data (r := { r.collecting _ hroom with
      bytesFromFTP := (data.length : ℤ), receivedCommand := true }) rfl hsome
      (by show r.pointerData + data.length ≤ 64; omega)
      (by
        show (data.length : ℤ) = ((r.pointerData + data.length : ℕ) : ℤ)
        rw [hempty, Nat.zero_add])
  obtain ⟨r'', htail, hw'', hcore⟩ := passes_tail hw'
  have hall : r'.received = data := by
    rw [hreceived]
    show (r.bufferData.toList.take r.pointerData) ++ data = data
    rw [hempty]
    rfl
  obtain ⟨-, hneed', -, hreceived', hrequested', hflag'⟩ := core_eq hcore
  -- header, bytes and tail one behind the other
  obtain ⟨os, hwhole, hsaid⟩ : ∃ os, Passes appendByte (fun r₁ post =>
      (r₁.requestedBytesReceived → r₁.received = data ∧ post <:+ tail) ∧
        r₁.receivedFTPGET_1_0 = r.receivedFTPGET_1_0) r (reply data) os r'' ∧ said os = [] := by
    refine ⟨_, Passes.append (Passes.append (hheader.mono ?_) (hdata.mono ?_))
      (htail.suffix.mono ?_), ?_⟩
    · rintro r₁ post (h | ⟨rfl, -⟩)
      · obtain ⟨-, -, -, -, h5, h6⟩ := core_eq h
        exact ⟨fun hr => absurd (hr.symm.trans (h5.trans hidle)) (by decide), h6⟩
      · exact ⟨fun hr => absurd (hr.symm.trans hidle) (by decide), rfl⟩
    · rintro r₁ post (⟨h5, h6⟩ | ⟨rfl, rfl⟩)
      · exact ⟨fun hr => absurd (hr.symm.trans (h5.trans hidle)) (by decide), h6⟩
      · exact ⟨fun _ => ⟨hall, List.suffix_refl _⟩, hflag⟩
    · rintro r₁ post ⟨h, hsuffix⟩
      obtain ⟨-, -, -, h4, -, h6⟩ := core_eq h
      exact ⟨fun _ => ⟨h4.trans hall, hsuffix⟩, h6.trans hflag⟩
    · rw [said_append, said_append, said_line, said_replicate, said_replicate]
      rfl
  refine ⟨os, r'', hwhole, hsaid, hw'', ?_, hreceived'.trans hall, hneed'.trans hneed⟩
  rw [hrequested']
  exact hrequested

/-- An answer without bytes. -/
theorem passes_reply_nil (hw : Waiting r) :
    ∃ os r', Passes appendByte (fun r₁ _ => r₁.requestedBytesReceived = r.requestedBytesReceived ∧
          r₁.received = r.received ∧ r₁.receivedFTPGET_1_0 = r.receivedFTPGET_1_0) r (reply []) os r' ∧
      said os = [] ∧ Waiting r' ∧ r'.requestedBytesReceived = r.requestedBytesReceived ∧
      r'.pointerData = r.pointerData ∧ r'.received = r.received ∧ r'.needBytes = r.needBytes := by
  obtain ⟨htext, hne, hroom, hzero⟩ := reply_line 0 (by decide)
  have hend := endOfLine_reply (r := r.collecting _ hroom) (Nat.zero_le 64) hzero
  rw [if_neg (lt_irrefl 0)] at hend
  have hheader := passes_line hw htext hne hroom hend
  obtain ⟨r', htail, hw', hcore⟩ := passes_tail (r := { r.collecting _ hroom with
    bytesFromFTP := ((0 : ℕ) : ℤ), receivedCommand := false, command := .clear }) ⟨rfl, rfl⟩
  obtain ⟨-, hneed, hpointer, hreceived, hrequested, -⟩ := core_eq hcore
  have hbytes : reply [] = ascii "+FTPGET: 2," ++ decimal 0 ++ [0x0D, 0x0A] ++ tail := by
    rw [reply, List.append_nil, List.length_nil]
  obtain ⟨os, hwhole, hsaid⟩ : ∃ os, Passes appendByte (fun r₁ _ =>
      r₁.requestedBytesReceived = r.requestedBytesReceived ∧ r₁.received = r.received ∧
        r₁.receivedFTPGET_1_0 = r.receivedFTPGET_1_0) r (reply []) os r' ∧ said os = [] := by
    rw [hbytes]
    refine ⟨_, Passes.append (hheader.mono ?_) (htail.mono ?_), ?_⟩
    · rintro r₁ post (h | ⟨rfl, -⟩)
      · obtain ⟨-, -, -, h4, h5, h6⟩ := core_eq h
        exact ⟨h5, h4, h6⟩
      · exact ⟨rfl, rfl, rfl⟩
    · intro r₁ post h
      obtain ⟨-, -, -, h4, h5, h6⟩ := core_eq h
      exact ⟨h5, h4, h6⟩
    · rw [said_append, said_line, said_replicate]
      rfl
  exact ⟨os, r', hwhole, hsaid, hw', hrequested, hpointer, hreceived, hneed⟩

theorem weight_reply_nil : weight (reply []) = 17 := by decide

/-! ## What follows the bytes of an answer -/

/-- Lines without a `+`, and behind them at most the end of the file. -/
def Calm (ended : Bool) (bytes : List UInt8) : Prop :=
  ∃ junk last, bytes = junk ++ last ∧ plus ∉ junk ∧ junk.length ≤ 32 ∧
    (junk = [] ∨ junk.getLast? = some 0x0A) ∧ (last = [] ∨ last = fin ∧ ended)

/-- Suffixes of a line without a `+`. -/
theorem calm_of_suffix {ended : Bool} {junk post : List UInt8} (h : post <:+ junk)
    (hplus : plus ∉ junk) (hlen : junk.length ≤ 32) (hlast : junk.getLast? = some 0x0A) :
    Calm ended post := by
  refine ⟨post, [], by simp, fun hp => hplus (h.subset hp), h.length_le.trans hlen, ?_, Or.inl rfl⟩
  rcases List.eq_nil_or_concat post with rfl | ⟨front, last, rfl⟩
  · exact Or.inl rfl
  · obtain ⟨front', rfl⟩ := h
    refine Or.inr ?_
    rw [List.concat_eq_append, ← List.append_assoc, List.getLast?_concat] at hlast
    rw [List.concat_eq_append, List.getLast?_concat, hlast]

theorem calm_tail {ended : Bool} {post : List UInt8} (h : post <:+ tail) : Calm ended post :=
  calm_of_suffix h (by decide) (by decide) (by decide)

theorem calm_fin {post : List UInt8} (h : post <:+ fin) : Calm true post := by
  rcases List.suffix_cons_iff.mp h with rfl | h
  · exact ⟨[], fin, rfl, by simp, by simp, Or.inl rfl, Or.inr ⟨rfl, rfl⟩⟩
  · exact calm_of_suffix h (by decide) (by decide) (by decide)

/-- The end of the file follows. -/
theorem Calm.append_fin {bytes : List UInt8} (h : Calm false bytes) : Calm true (bytes ++ fin) := by
  obtain ⟨junk, last, rfl, hplus, hlen, hend, rfl | ⟨-, hfalse⟩⟩ := h
  · exact ⟨junk, fin, by simp, hplus, hlen, hend, Or.inr ⟨rfl, rfl⟩⟩
  · exact absurd hfalse (by decide)

/-- **A reader whose line was cleared** makes nothing of such bytes but the end of the file. -/
theorem passes_calm {ended : Bool} (hw : Waiting r) (h : Calm ended bytes) :
    ∃ os r', Passes appendByte (fun r₁ _ => r₁.core = r.core ∨
          ended ∧ r₁.core = { r.core with receivedFTPGET_1_0 := true }) r bytes os r' ∧
      said os = [] ∧
      (Waiting r' ∧ r'.core = r.core ∨ ended ∧ Ended r' ∧ r'.command.bytes.length = 13 ∧
        r'.core = { r.core with receivedFTPGET_1_0 := true }) := by
  obtain ⟨junk, last, rfl, hplus, hlen, hend, hlast⟩ := h
  have hroom : r.command.bytes.length + junk.length ≤ 32 := by
    rw [hw.command, List.length_nil, Nat.zero_add]
    exact hlen
  obtain ⟨r₀, hjunk, hcore, hnil, hline⟩ :=
    passes_junk hw.receivedCommand (by simp [hw.command]) hplus hroom
  have hw₀ : Waiting r₀ := by
    refine ⟨(core_eq hcore).1.trans hw.receivedCommand, ?_⟩
    rcases hend with hempty | hlf
    · rw [hnil hempty, hw.command]
    · exact hline hlf
  rcases hlast with rfl | ⟨rfl, hended⟩
  · rw [List.append_nil]
    exact ⟨_, r₀, hjunk.mono fun _ _ h => Or.inl h, said_replicate _, Or.inl ⟨hw₀, hcore⟩⟩
  · obtain ⟨os, r', hfin, hsaid, hended', hcore', hlen'⟩ := passes_fin hw₀
    rw [hcore] at hcore'
    refine ⟨_, r', (hjunk.mono fun _ _ h => Or.inl h).append (hfin.mono ?_), ?_,
      Or.inr ⟨hended, hended', hlen', hcore'⟩⟩
    · rintro r₁ post (h | ⟨h, -⟩)
      · exact Or.inl (h.trans hcore)
      · exact Or.inr ⟨hended, by rw [h, hcore]⟩
    · rw [said_append, said_replicate, hsaid]
      rfl

end ReaderFTP

end USKD
