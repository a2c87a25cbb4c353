import USKD.Lib.Script
import USKD.Lib.Trace
import USKD.Loader.Effect
import USKD.Loader.Verified

/-!
# From `ATE0` to the file

The loader works through one script: `SIM868` transmits its first five commands, `Updater` the
others, up to `AT+FTPGET=1`, which opens the file.  `Loader::Reset` begins both of them again, but
the `IDLE` step of `Modem::Update` resets `SIM868` alone; it can do so only as long as `Updater` has
not begun (`Paired`).

So the commands since the last `ATE0` are always a front of the script, and before the loader asks
for a byte of the file, or starts the application, they are the whole script (`opened`).
-/

namespace USKD

namespace Loader

open NorFlash

/-! ## The script -/

/-- **The set-up commands**, in their order. -/
def script : Script Transmit where
  first := .text "ATE0"
  rest :=
    [.text "AT+IPR=115200", .text "AT+GSMBUSY=1", .text "AT+CREG=1", .text "AT+CIPSTATUS",
      .text "AT+SAPBR=3,1,\"CONTYPE\",\"GPRS\"", .text "AT+SAPBR=3,1,\"APN\",\"internet\"",
      .text "AT+SAPBR=3,1,\"USER\",\"\"", .text "AT+SAPBR=3,1,\"PWD\",\"\"",
      .text "AT+SAPBR=1,1", .text "AT+FTPCID=1", .text "AT+FTPSERV=\"s92153gg.beget.tech\"",
      .text "AT+FTPUN=\"s92153gg_1\"", .text "AT+FTPPW=\"Qwerty123!\"",
      .text "AT+FTPGETPATH=\"/\"", .text "AT+FTPGETNAME=\"USKD.frm\"", .text "AT+FTPGET=1"]
  fresh := by decide

/-- The two states. -/
abbrev Stage := Loader.SIM868.State × Updater.State

def stage (s : Loader) : Stage := (s.sim868.state, s.updater.state)

/-- How many commands have been transmitted. -/
def place : Stage → ℕ
  | (.START, _) => 0
  | (.WAIT_ATE0, _) => 1
  | (.WAIT_BAUDRADE, _) => 2
  | (.WAIT_GSMBUSY, _) => 3
  | (.WAIT_CREG_INIT, _) | (.WAIT_REGISTRATION, _) => 4
  | (.WAIT_IP_INITIAL, _) => 5
  | (.RUNNING_UPDATER, updater) =>
      match updater with
      | .IDLE | .NEED_SAPBR_3_GPRS => 5
      | .NEED_SAPBR_3_APN => 6
      | .NEED_SAPBR_3_USER => 7
      | .NEED_SAPBR_3_PWD => 8
      | .NEED_SAPBR_1_1 => 9
      | .NEED_FTPCID => 10
      | .NEED_FTPSERV => 11
      | .NEED_FTPUN => 12
      | .NEED_FTPPW => 13
      | .NEED_FTPGETPATH => 14
      | .NEED_SET_NAME_FIRMWARE => 15
      | .NEED_REQUEST_CONNECT => 16
      | .NEED_WAIT_CONNECT | .GET_BYTES_VER | .GET_BYTES_CRC | .GET_BYTES_FIRMWARE | .COMPLETED =>
          17

/-- `Updater` has not begun before `SIM868` is ready. -/
def Paired (st : Stage) : Prop := st.1 ≠ .RUNNING_UPDATER → st.2 = .IDLE

/-- The file may be open. -/
def Opened (st : Stage) : Prop := st.1 = .RUNNING_UPDATER ∧ place st = 17

theorem place_ne_zero {st : Stage} (h : st.1 ≠ .START) : place st ≠ 0 := by
  obtain ⟨sim, updater⟩ := st
  cases sim with
  | START => exact absurd rfl h
  | RUNNING_UPDATER => cases updater <;> exact Nat.succ_ne_zero _
  | _ => exact Nat.succ_ne_zero _

/-- **What a step says**: the first command, the next one, a request for bytes of an open file, or
nothing. -/
inductive Says : Stage → List Transmit → Stage → Prop
  | stays {st : Stage} : Says st [] st
  | resets {st : Stage} : Says st [] (.START, .IDLE)
  | begins {updater : Updater.State} : Says (.START, updater) [script.first] (.WAIT_ATE0, updater)
  | passes {st next : Stage} (hstart : st.1 ≠ .START) (hnext : next.1 ≠ .START)
      (hpaired : Paired next) (hplace : place next = place st) : Says st [] next
  | goes {st next : Stage} {command : Transmit} (hstart : st.1 ≠ .START) (hnext : next.1 ≠ .START)
      (hpaired : Paired next) (hcommand : script.words[place st]? = some command)
      (hplace : place next = place st + 1) : Says st [command] next
  | asks {st next : Stage} (n : ℕ) (hopened : Opened st) (hnext : Opened next) :
      Says st [.ftpGet n] next

variable {chip : Chip} {s t : Loader} {now : UInt32} {answer : List UInt8}
  {commands : List Transmit}

/-- A step that leaves the power sequence alone. -/
structure Spoken (s t : Loader) (commands : List Transmit) : Prop where
  stage : Says s.stage commands t.stage
  modem : t.modem = s.modem

theorem Spoken.stays (s : Loader) : Spoken s s [] := ⟨.stays, rfl⟩

theorem Spoken.resets (s : Loader) : Spoken s s.reset [] := ⟨.resets, rfl⟩

/-! ## `SIM868` -/

theorem says_waitAnswer {expected : String} {next : SIM868.State} {sent : List Transmit}
    (h : s.waitAnswer now answer expected next sent = some (commands, t))
    (htold : Says s.stage sent (next, s.updater.state)) : Spoken s t commands := by
  rcases meterIsRunningSIM868_cases h with h | h
  · obtain ⟨rfl, rfl⟩ := Prod.mk.inj h
    exact .resets s
  · split at h
    · obtain ⟨rfl, rfl⟩ := Prod.mk.inj (Option.some.inj h)
      exact ⟨htold, rfl⟩
    · obtain ⟨rfl, rfl⟩ := Prod.mk.inj (Option.some.inj h)
      exact .stays s

/-- An unsolicited answer sends nothing. -/
theorem says_processUnsolicited {processed : Bool}
    (h : s.processUnsolicited answer = some (processed, t)) :
    Spoken s t [] ∧ (processed = false → t = s) := by
  simp only [processUnsolicited, Option.bind_eq_bind, Option.bind_eq_some_iff] at h
  obtain ⟨word, -, h⟩ := h
  split at h
  · obtain ⟨rfl, rfl⟩ := Prod.mk.inj (Option.some.inj h)
    exact ⟨.resets s, fun h => absurd h (by simp)⟩
  split at h
  · obtain ⟨level, -, h⟩ := Option.bind_eq_some_iff.mp h
    split at h
    · obtain ⟨rfl, rfl⟩ := Prod.mk.inj (Option.some.inj h)
      exact ⟨⟨.stays, rfl⟩, fun h => absurd h (by simp)⟩
    · exact absurd h (by simp)
  split at h
  · obtain ⟨rfl, rfl⟩ := Prod.mk.inj (Option.some.inj h)
    exact ⟨.resets s, fun h => absurd h (by simp)⟩
  split at h
  · obtain ⟨rfl, rfl⟩ := Prod.mk.inj (Option.some.inj h)
    exact ⟨.stays s, fun h => absurd h (by simp)⟩
  · obtain ⟨rfl, rfl⟩ := Prod.mk.inj (Option.some.inj h)
    exact ⟨.stays s, fun _ => rfl⟩

/-! ## `Updater` -/

theorem says_waitOK (hrunning : s.sim868.state = .RUNNING_UPDATER) {time : UInt32}
    {next : Updater.State} {command : String}
    (h : s.waitOK now time answer next command = some (commands, t))
    (hcommand : script.words[place (.RUNNING_UPDATER, s.updater.state)]? = some (.text command))
    (hplace : place (.RUNNING_UPDATER, next) = place (.RUNNING_UPDATER, s.updater.state) + 1) :
    Spoken s t commands := by
  rcases meterIsRunning_cases h with h | ⟨-, h⟩
  · obtain ⟨rfl, rfl⟩ := Prod.mk.inj h
    exact .resets s
  · split at h
    · obtain ⟨rfl, rfl⟩ := Prod.mk.inj (Option.some.inj h)
      refine ⟨?_, rfl⟩
      show Says (s.sim868.state, s.updater.state) _ (s.sim868.state, next)
      rw [hrunning]
      exact .goes (by simp) (by simp) (fun h => absurd rfl h) hcommand hplace
    · obtain ⟨rfl, rfl⟩ := Prod.mk.inj (Option.some.inj h)
      exact .stays s

theorem says_waitConnect (hrunning : s.sim868.state = .RUNNING_UPDATER)
    (hstate : s.updater.state = .NEED_WAIT_CONNECT)
    (h : s.waitConnect now answer = some (commands, t)) : Spoken s t commands := by
  have hstage : s.stage = (.RUNNING_UPDATER, .NEED_WAIT_CONNECT) := by rw [stage, hrunning, hstate]
  rcases meterIsRunning_cases h with h | ⟨-, h⟩
  · obtain ⟨rfl, rfl⟩ := Prod.mk.inj h
    exact .resets s
  · simp only [Option.bind_eq_bind, Option.bind_eq_some_iff] at h
    obtain ⟨word, -, h⟩ := h
    split at h
    · split at h
      · obtain ⟨rfl, rfl⟩ := Prod.mk.inj (Option.some.inj h)
        refine ⟨?_, rfl⟩
        show Says s.stage [.ftpGet 4] (s.sim868.state, .GET_BYTES_VER)
        rw [hstage, hrunning]
        exact .asks 4 ⟨rfl, rfl⟩ ⟨rfl, rfl⟩
      split at h
      · obtain ⟨rfl, rfl⟩ := Prod.mk.inj (Option.some.inj h)
        refine ⟨?_, rfl⟩
        show Says s.stage [] (s.sim868.state, .COMPLETED)
        rw [hstage, hrunning]
        exact .passes (by decide) (by decide) (fun h => absurd rfl h) rfl
      · obtain ⟨rfl, rfl⟩ := Prod.mk.inj (Option.some.inj h)
        exact .stays s
    · obtain ⟨rfl, rfl⟩ := Prod.mk.inj (Option.some.inj h)
      exact .stays s

theorem says_getBytesVer (hrunning : s.sim868.state = .RUNNING_UPDATER)
    (hstate : s.updater.state = .GET_BYTES_VER)
    (h : s.getBytesVer now = some (commands, t)) : Spoken s t commands := by
  rcases meterIsRunning_cases h with h | ⟨-, h⟩
  · obtain ⟨rfl, rfl⟩ := Prod.mk.inj h
    exact .resets s
  · simp only at h
    split at h
    · obtain ⟨rfl, rfl⟩ := Prod.mk.inj (Option.some.inj h)
      refine ⟨?_, rfl⟩
      show Says (s.sim868.state, s.updater.state) [.ftpGet 4] (s.sim868.state, .GET_BYTES_CRC)
      rw [hrunning, hstate]
      exact .asks 4 ⟨rfl, rfl⟩ ⟨rfl, rfl⟩
    · obtain ⟨rfl, rfl⟩ := Prod.mk.inj (Option.some.inj h)
      exact .stays s

theorem says_getBytesCrc (hrunning : s.sim868.state = .RUNNING_UPDATER)
    (hstate : s.updater.state = .GET_BYTES_CRC)
    (h : s.getBytesCrc now = some (commands, t)) : Spoken s t commands := by
  rcases meterIsRunning_cases h with h | ⟨-, h⟩
  · obtain ⟨rfl, rfl⟩ := Prod.mk.inj h
    exact .resets s
  · simp only at h
    split at h
    · obtain ⟨rfl, rfl⟩ := Prod.mk.inj (Option.some.inj h)
      refine ⟨?_, rfl⟩
      show Says (s.sim868.state, s.updater.state) [.ftpGet 64] (s.sim868.state, .GET_BYTES_FIRMWARE)
      rw [hrunning, hstate]
      exact .asks 64 ⟨rfl, rfl⟩ ⟨rfl, rfl⟩
    · obtain ⟨rfl, rfl⟩ := Prod.mk.inj (Option.some.inj h)
      exact .stays s

theorem says_getBytesFirmware (hrunning : s.sim868.state = .RUNNING_UPDATER)
    (hstate : s.updater.state = .GET_BYTES_FIRMWARE)
    (h : s.getBytesFirmware chip now = some (commands, t)) : Spoken s t commands := by
  rcases meterIsRunning_cases h with h | ⟨-, h⟩
  · obtain ⟨rfl, rfl⟩ := Prod.mk.inj h
    exact .resets s
  simp only at h
  split at h
  · simp only [endOfFile, Option.bind_eq_bind, Option.bind_eq_some_iff] at h
    obtain ⟨p, -, q, -, h⟩ := h
    split at h
    · obtain ⟨rfl, rfl⟩ := Prod.mk.inj (Option.some.inj h)
      exact ⟨.stays, rfl⟩
    · obtain ⟨rfl, rfl⟩ := Prod.mk.inj (Option.some.inj h)
      exact ⟨.resets, rfl⟩
  split at h
  · obtain ⟨p, -, h⟩ := Option.map_eq_some_iff.mp h
    obtain ⟨rfl, rfl⟩ := Prod.mk.inj h
    refine ⟨?_, rfl⟩
    show Says (s.sim868.state, s.updater.state) [.ftpGet 64] (s.sim868.state, s.updater.state)
    rw [hrunning, hstate]
    exact .asks 64 ⟨rfl, rfl⟩ ⟨rfl, rfl⟩
  · obtain ⟨rfl, rfl⟩ := Prod.mk.inj (Option.some.inj h)
    exact .stays s

/-- **`Updater::Update`.** -/
theorem says_updateUpdater (hrunning : s.sim868.state = .RUNNING_UPDATER)
    (h : s.updateUpdater chip now answer = some (commands, t)) : Spoken s t commands := by
  unfold updateUpdater at h
  cases hstate : s.updater.state with
  | IDLE =>
      rw [hstate] at h
      obtain ⟨rfl, rfl⟩ := Prod.mk.inj (Option.some.inj h)
      refine ⟨?_, rfl⟩
      show Says (s.sim868.state, s.updater.state) [] (s.sim868.state, .NEED_SAPBR_3_GPRS)
      rw [hrunning, hstate]
      exact .passes (by decide) (by decide) (fun h => absurd rfl h) rfl
  | NEED_SAPBR_3_GPRS =>
      rw [hstate] at h
      obtain ⟨rfl, rfl⟩ := Prod.mk.inj (Option.some.inj h)
      refine ⟨?_, rfl⟩
      show Says (s.sim868.state, s.updater.state) _ (s.sim868.state, .NEED_SAPBR_3_APN)
      rw [hrunning, hstate]
      exact .goes (by decide) (by decide) (fun h => absurd rfl h) rfl rfl
  | NEED_WAIT_CONNECT =>
      rw [hstate] at h
      exact says_waitConnect hrunning hstate h
  | GET_BYTES_VER =>
      rw [hstate] at h
      exact says_getBytesVer hrunning hstate h
  | GET_BYTES_CRC =>
      rw [hstate] at h
      exact says_getBytesCrc hrunning hstate h
  | GET_BYTES_FIRMWARE =>
      rw [hstate] at h
      exact says_getBytesFirmware hrunning hstate h
  | COMPLETED =>
      rw [hstate] at h
      obtain ⟨rfl, rfl⟩ := Prod.mk.inj (Option.some.inj h)
      exact .stays s
  -- what is left are the states that wait for `OK`
  | _ =>
      rw [hstate] at h
      exact says_waitOK hrunning h (by rw [hstate]; rfl) (by rw [hstate]; rfl)

/-- The `switch` of `SIM868::Update`. -/
theorem says_dispatch (hpaired : Paired s.stage)
    (h : s.dispatch chip now answer = some (commands, t)) : Spoken s t commands := by
  by_cases hrunning : s.sim868.state = .RUNNING_UPDATER
  · rw [dispatch, hrunning] at h
    exact says_updateUpdater hrunning h
  have hidle : s.updater.state = .IDLE := hpaired hrunning
  unfold dispatch at h
  cases hstate : s.sim868.state with
  | RUNNING_UPDATER => exact absurd hstate hrunning
  | START =>
      rw [hstate] at h
      obtain ⟨rfl, rfl⟩ := Prod.mk.inj (Option.some.inj h)
      refine ⟨?_, rfl⟩
      show Says (s.sim868.state, s.updater.state) _ (.WAIT_ATE0, s.updater.state)
      rw [hstate]
      exact .begins
  | WAIT_CREG_INIT =>
      rw [hstate] at h
      refine says_waitAnswer h ?_
      rw [stage, hstate, hidle]
      exact .passes (by decide) (by decide) (fun _ => rfl) rfl
  | WAIT_REGISTRATION =>
      rw [hstate] at h
      rcases meterIsRunningSIM868_cases h with h | h
      · obtain ⟨rfl, rfl⟩ := Prod.mk.inj h
        exact .resets s
      simp only [Option.bind_eq_bind, Option.bind_eq_some_iff] at h
      obtain ⟨word, -, h⟩ := h
      split at h
      · obtain ⟨stat, -, h⟩ := Option.bind_eq_some_iff.mp h
        split at h
        · obtain ⟨rfl, rfl⟩ := Prod.mk.inj (Option.some.inj h)
          refine ⟨?_, rfl⟩
          show Says (s.sim868.state, s.updater.state) _ (.WAIT_IP_INITIAL, s.updater.state)
          rw [hstate, hidle]
          exact .goes (by decide) (by decide) (fun _ => rfl) rfl rfl
        · obtain ⟨rfl, rfl⟩ := Prod.mk.inj (Option.some.inj h)
          exact .stays s
      · obtain ⟨rfl, rfl⟩ := Prod.mk.inj (Option.some.inj h)
        exact .stays s
  | WAIT_IP_INITIAL =>
      rw [hstate] at h
      rcases meterIsRunningSIM868_cases h with h | h
      · obtain ⟨rfl, rfl⟩ := Prod.mk.inj h
        exact .resets s
      simp only [Option.bind_eq_bind, Option.bind_eq_some_iff] at h
      obtain ⟨word, -, h⟩ := h
      split at h
      · obtain ⟨rfl, rfl⟩ := Prod.mk.inj (Option.some.inj h)
        refine ⟨?_, rfl⟩
        show Says (s.sim868.state, s.updater.state) [] (.RUNNING_UPDATER, s.updater.state)
        rw [hstate, hidle]
        exact .passes (by decide) (by decide) (fun h => absurd rfl h) rfl
      · obtain ⟨rfl, rfl⟩ := Prod.mk.inj (Option.some.inj h)
        exact .stays s
  -- what is left are the states that wait for a fixed answer and then transmit
  | _ =>
      rw [hstate] at h
      refine says_waitAnswer h ?_
      rw [stage, hstate, hidle]
      exact .goes (by decide) (by decide) (fun _ => rfl) rfl rfl

/-- **`SIM868::Update`.** -/
theorem says_updateSIM868 (hpaired : Paired s.stage)
    (h : s.updateSIM868 chip now answer = some (commands, t)) : Spoken s t commands := by
  simp only [updateSIM868, Option.bind_eq_bind, Option.bind_eq_some_iff] at h
  obtain ⟨⟨processed, u⟩, hanswer, h⟩ := h
  obtain ⟨htold, hsame⟩ := says_processUnsolicited hanswer
  split at h
  · obtain ⟨rfl, rfl⟩ := Prod.mk.inj (Option.some.inj h)
    exact htold
  · rename_i hpass
    obtain rfl := hsame (Bool.eq_false_iff.mpr hpass)
    exact says_dispatch hpaired h

/-! ## The receive interrupt -/

/-- At the end of a line the request is repeated, or nothing is sent. -/
theorem ftpGet_of_endOfLine {r r' : ReaderFTP} (h : r.endOfLine = some (commands, r')) :
    commands = [] ∨ ∃ n, commands = [.ftpGet n] := by
  simp only [ReaderFTP.endOfLine, Option.bind_eq_bind, Option.bind_eq_some_iff] at h
  obtain ⟨word, -, h⟩ := h
  split at h
  · obtain ⟨second, -, h⟩ := Option.bind_eq_some_iff.mp h
    split at h
    · obtain ⟨third, -, h⟩ := Option.bind_eq_some_iff.mp h
      split at h
      · exact .inr ⟨r.needBytes, (Prod.mk.inj (Option.some.inj h)).1.symm⟩
      · exact .inl (Prod.mk.inj (Option.some.inj h)).1.symm
    split at h
    · obtain ⟨number, -, h⟩ := Option.bind_eq_some_iff.mp h
      obtain ⟨n, -, h⟩ := Option.bind_eq_some_iff.mp h
      split at h
      · exact .inl (Prod.mk.inj (Option.some.inj h)).1.symm
      · exact .inl (Prod.mk.inj (Option.some.inj h)).1.symm
    · exact .inl (Prod.mk.inj (Option.some.inj h)).1.symm
  · exact .inl (Prod.mk.inj (Option.some.inj h)).1.symm

theorem ftpGet_of_appendByte {r r' : ReaderFTP} {symbol : UInt8}
    (h : r.appendByte symbol = some (commands, r')) :
    commands = [] ∨ ∃ n, commands = [.ftpGet n] := by
  unfold ReaderFTP.appendByte at h
  split at h
  · obtain ⟨q, -, h⟩ := Option.map_eq_some_iff.mp h
    exact .inl (Prod.mk.inj h).1.symm
  split at h
  · exact .inl (Prod.mk.inj (Option.some.inj h)).1.symm
  split at h
  · split at h
    · exact .inl (Prod.mk.inj (Option.some.inj h)).1.symm
    · obtain ⟨command, -, h⟩ := Option.bind_eq_some_iff.mp h
      exact ftpGet_of_endOfLine h
  · obtain ⟨command, -, h⟩ := Option.map_eq_some_iff.mp h
    exact .inl (Prod.mk.inj h).1.symm

/-- While the file is read, it is open. -/
theorem opened_of_mode (hpaired : Paired s.stage) (h : s.inModeReceiveDataFromFTP) :
    Opened s.stage := by
  simp only [inModeReceiveDataFromFTP, decide_eq_true_eq] at h
  have hrunning : s.sim868.state = .RUNNING_UPDATER := by
    by_contra hnot
    have hidle : s.updater.state = .IDLE := hpaired hnot
    rw [hidle] at h
    exact absurd h (by decide)
  rw [stage, hrunning]
  rcases h with hstate | hstate | hstate
  · exact ⟨rfl, by rw [hstate]; rfl⟩
  · exact ⟨rfl, by rw [hstate]; rfl⟩
  · exact ⟨rfl, by rw [hstate]; rfl⟩

/-! ## Runs of the loader -/

/-- The loader, and what it has sent. -/
structure Session where
  loader : Loader
  sent : List Transmit

/-- The state at boot. -/
def Session.boot (cells : Memory) : Session := ⟨Loader.boot cells, []⟩

/-- One step. -/
def Session.step (chip : Chip) (c : Session) (op : Op) : Option Session :=
  (c.loader.step chip op).map fun r => ⟨r.2, c.sent ++ r.1⟩

/-- A request for bytes of the file is sent behind the whole script. -/
def Prepared (pre : List Transmit) (e : Transmit) : Prop :=
  (∃ n, e = .ftpGet n) → script.said pre = script.words

/-- No request is a set-up command. -/
theorem not_mem_words (n : ℕ) : Transmit.ftpGet n ∉ script.words := by
  simp [script, Script.words]

/-- **The invariant.** -/
structure Scripted (st : Stage) (sent : List Transmit) : Prop where
  paired : Paired st
  front : ∃ n, script.Reached sent n
  reached : st.1 ≠ .START → script.Reached sent (place st)
  prepared : Trace.Each Prepared sent

variable {st next : Stage} {sent : List Transmit}

theorem scripted_boot : Scripted (.START, .IDLE) [] where
  paired _ := rfl
  front := ⟨0, Script.reached_nil⟩
  reached h := absurd rfl h
  prepared := Trace.each_nil

/-- With the file open the whole script has been said. -/
theorem Scripted.whole (h : Scripted st sent) (hopened : Opened st) :
    script.said sent = script.words := by
  have hreached := h.reached (by rw [hopened.1]; decide)
  rw [hopened.2] at hreached
  exact hreached.whole (Nat.le_refl _)

/-- **One more command.** -/
theorem Scripted.speak (h : Scripted st sent) (htold : Says st commands next) :
    Scripted next (sent ++ commands) := by
  cases htold with
  | stays => exact (List.append_nil sent).symm ▸ h
  | resets =>
      rw [List.append_nil]
      exact ⟨fun _ => rfl, h.front, fun hstart => absurd rfl hstart, h.prepared⟩
  | begins =>
      have hfirst := Script.reached_first (s := script) sent
      refine ⟨fun _ => h.paired (by simp), ⟨1, hfirst⟩, fun _ => hfirst, ?_⟩
      refine Trace.each_snoc.mpr ⟨h.prepared, ?_⟩
      rintro ⟨n, hn⟩
      exact absurd (hn ▸ List.mem_cons_self) (not_mem_words n)
  | passes hstart hnext hpaired hplace =>
      rw [List.append_nil]
      exact ⟨hpaired, h.front, fun _ => hplace ▸ h.reached hstart, h.prepared⟩
  | goes hstart hnext hpaired hcommand hplace =>
      have hreached := (h.reached hstart).next (place_ne_zero hstart) hcommand
      refine ⟨hpaired, ⟨_, hreached⟩, fun _ => hplace ▸ hreached, ?_⟩
      refine Trace.each_snoc.mpr ⟨h.prepared, ?_⟩
      rintro ⟨n, rfl⟩
      exact absurd (List.mem_of_getElem? hcommand) (not_mem_words n)
  | asks n hopened hnext =>
      have hreached := h.reached (by rw [hopened.1]; decide)
      rw [hopened.2] at hreached
      refine ⟨fun hnot => absurd hnext.1 hnot, ⟨_, hreached.other (not_mem_words n)⟩, fun _ => ?_, ?_⟩
      · rw [hnext.2]
        exact hreached.other (not_mem_words n)
      · exact Trace.each_snoc.mpr ⟨h.prepared, fun _ => h.whole hopened⟩

variable {c d : Session} {op : Op}

/-- The invariant with the modem: until it is ready, `SIM868` waits in `START`. -/
structure Ordered (c : Session) : Prop where
  scripted : Scripted c.loader.stage c.sent
  off : c.loader.modem.state ≠ .HARDWARE_IS_OK → c.loader.sim868.state = .START
  copying : c.loader.copying ≠ none → Opened c.loader.stage

theorem ordered_boot (cells : Memory) : Ordered (.boot cells) where
  scripted := scripted_boot
  off _ := rfl
  copying h := absurd rfl h

/-- A symbol in the interrupt. -/
theorem Ordered.receive (h : Ordered c) {symbol : UInt8}
    (hstep : c.loader.receive symbol = some (commands, t)) : Ordered ⟨t, c.sent ++ commands⟩ := by
  unfold Loader.receive at hstep
  split at hstep
  · next hmode =>
    obtain ⟨⟨sent, reader⟩, hreader, hstep⟩ := Option.map_eq_some_iff.mp hstep
    obtain ⟨rfl, rfl⟩ := Prod.mk.inj hstep
    have hopened := opened_of_mode h.scripted.paired hmode
    refine ⟨?_, h.off, h.copying⟩
    rcases ftpGet_of_appendByte hreader with rfl | ⟨n, rfl⟩
    · exact h.scripted.speak .stays
    · exact h.scripted.speak (.asks n hopened hopened)
  · obtain ⟨rfl, rfl⟩ := Prod.mk.inj (Option.some.inj hstep)
    exact ⟨h.scripted.speak .stays, h.off, h.copying⟩

/-- `Modem::Update`.  Its `IDLE` step comes before anything has been said. -/
theorem Ordered.updateModem (h : Ordered c) (hcopying : c.loader.copying = none) (env : Modem.Env) :
    Ordered ⟨c.loader.updateModem env, c.sent ++ []⟩ := by
  unfold Loader.updateModem
  cases hcall : (c.loader.modem.update env).2 with
  | nothing =>
      have hstart := h.off (Modem.state_of_nothing hcall).2
      exact ⟨h.scripted.speak .stays, fun _ => hstart, h.copying⟩
  | reset =>
      have hstart := h.off (by rw [Modem.state_of_reset hcall]; decide)
      have hidle : c.loader.updater.state = .IDLE := by
        refine h.scripted.paired ?_
        show c.loader.sim868.state ≠ _
        rw [hstart]
        decide
      refine ⟨h.scripted.speak ?_, fun _ => rfl, fun hnot => absurd hcopying hnot⟩
      show Says c.loader.stage [] (.START, c.loader.updater.state)
      rw [hidle]
      exact .resets
  | inDataUpdate =>
      refine ⟨h.scripted.speak .stays, fun hoff => h.off ?_, h.copying⟩
      rw [← Modem.update_of_inDataUpdate hcall]
      exact hoff

/-- An answer. -/
theorem Ordered.updateSIM868 (h : Ordered c) (hcopying : c.loader.copying = none)
    (hok : c.loader.modem.state = .HARDWARE_IS_OK)
    (hstep : c.loader.updateSIM868 chip now answer = some (commands, t)) :
    Ordered ⟨t, c.sent ++ commands⟩ := by
  obtain ⟨hstage, hmodem⟩ := says_updateSIM868 h.scripted.paired hstep
  have hscripted := h.scripted.speak hstage
  refine ⟨hscripted, fun hoff => absurd (hmodem ▸ hok) hoff, fun hcopies => ?_⟩
  -- the copy loop is entered in `GET_BYTES_FIRMWARE`
  refine opened_of_mode hscripted.paired ?_
  cases effect_updateSIM868 hcopying hstep with
  | quiet hquiet => exact absurd (hquiet.copying.trans hcopying) hcopies
  | prepared hs ht | wrote hs ht | rejected hs ht => exact absurd ht hcopies
  | staged hs hop hend p q hwrite hclose hcrc ht hprogrammer hupdater =>
      simp [inModeReceiveDataFromFTP, hupdater.1]
  | round n hop | copied n hop => exact absurd hop (by simp)

/-- A round of the copy loop. -/
theorem Ordered.copyRound (h : Ordered c) {n : ℕ} (hcopying : c.loader.copying = some n)
    (hstep : c.loader.copyRound chip n = some t) : Ordered ⟨t, c.sent ++ []⟩ := by
  have hopened := h.copying (by rw [hcopying]; simp)
  obtain ⟨p, -, hstep⟩ := Option.map_eq_some_iff.mp hstep
  split at hstep
  · subst hstep
    refine ⟨h.scripted.speak ?_, h.off, fun hnot => absurd rfl hnot⟩
    show Says c.loader.stage [] (c.loader.sim868.state, .COMPLETED)
    have hrunning : c.loader.sim868.state = .RUNNING_UPDATER := hopened.1
    rw [hrunning]
    refine .passes ?_ (by decide) (fun hnot => absurd rfl hnot) hopened.2.symm
    rw [hopened.1]
    decide
  · subst hstep
    exact ⟨h.scripted.speak .stays, h.off, h.copying⟩

/-- **Step lemma.** -/
theorem Ordered.step (h : Ordered c) (hnext : c.step chip op = some d) : Ordered d := by
  obtain ⟨⟨commands, t⟩, hstep, rfl⟩ := Option.map_eq_some_iff.mp hnext
  cases op with
  | receive symbol => exact h.receive hstep
  | modem env =>
      obtain ⟨hcopying, hstep⟩ := Option.ite_none_right_eq_some.mp hstep
      obtain ⟨rfl, rfl⟩ := Prod.mk.inj (Option.some.inj hstep)
      exact h.updateModem hcopying env
  | answer now answer =>
      obtain ⟨⟨hcopying, hok⟩, hstep⟩ := Option.ite_none_right_eq_some.mp hstep
      exact h.updateSIM868 hcopying hok hstep
  | copy =>
      obtain ⟨n, hcopying, hstep⟩ := Option.bind_eq_some_iff.mp hstep
      obtain ⟨u, hround, hstep⟩ := Option.map_eq_some_iff.mp hstep
      obtain ⟨rfl, rfl⟩ := Prod.mk.inj hstep
      exact h.copyRound hcopying hround

/-- **The file is opened first.**  In every run of the loader, whatever the modem answers and
however often the loader begins again, the set-up commands since the last `ATE0` are a front of the
script.  They are the whole script before every request for bytes of the file, and when the loader
starts the application. -/
theorem opened_first {cells : Memory} {ops : List Op}
    (hrun : LTS.Run (LTS.stepOf (Session.step chip)) (Session.boot cells) ops c) :
    script.said c.sent <+: script.words ∧ Trace.Each Prepared c.sent ∧
      (c.loader.isCompleted → script.said c.sent = script.words) := by
  have hordered : Ordered c :=
    hrun.invariant (ordered_boot cells) fun _ _ _ h hstep => h.step hstep
  obtain ⟨n, hfront⟩ := hordered.scripted.front
  refine ⟨hfront.front, hordered.scripted.prepared, fun hcompleted => hordered.scripted.whole ?_⟩
  have hstate : c.loader.updater.state = .COMPLETED := by
    simpa only [isCompleted, decide_eq_true_eq] using hcompleted
  have hrunning : c.loader.sim868.state = .RUNNING_UPDATER := by
    by_contra hnot
    have hidle : c.loader.updater.state = .IDLE := hordered.scripted.paired hnot
    rw [hstate] at hidle
    exact absurd hidle (by decide)
  rw [stage, hrunning, hstate]
  exact ⟨rfl, rfl⟩

/-- Every run of the loader has sent something. -/
theorem exists_sent {u : Loader} {ops : List Op}
    (hrun : LTS.Run (LTS.stepOf (Loader.next chip)) u ops t) :
    ∃ sent, LTS.Run (LTS.stepOf (Session.step chip)) ⟨u, []⟩ ops ⟨t, sent⟩ := by
  induction hrun with
  | nil => exact ⟨[], .nil⟩
  | snoc _ hlast ih =>
      obtain ⟨sent, hrun⟩ := ih
      obtain ⟨⟨commands, w⟩, hstep, rfl⟩ := Option.map_eq_some_iff.mp hlast
      refine ⟨sent ++ commands, hrun.snoc ?_⟩
      show Option.map _ _ = _
      rw [hstep]
      rfl

/-- The loader has found an image without a byte. -/
theorem opened_first_emptyImage : ∃ sent ops t,
    LTS.Run (LTS.stepOf (Session.step andChip)) (Session.boot fun _ => 0xFF) ops ⟨t, sent⟩ ∧
      Trace.Each Prepared sent ∧ script.said sent = script.words := by
  obtain ⟨sent, hrun⟩ := exists_sent ((run_emptyImage andChip).mono fun _ _ _ hstep => hstep.step)
  obtain ⟨-, hprepared, hcompleted⟩ := opened_first hrun
  exact ⟨sent, _, _, hrun, hprepared, hcompleted rfl⟩

end Loader

end USKD
