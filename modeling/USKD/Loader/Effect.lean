import USKD.Loader.Updater

/-!
# What a step does to the flash

`effect_of_next` sorts the steps of the loader by what they do to the flash, to the copy
loop and to `GET_BYTES_FIRMWARE`; the invariants of the loader are proved from it, without
another look at its states.
-/

namespace USKD

namespace Loader

open NorFlash Programmer

/-- A step that leaves the flash alone and does not enter `GET_BYTES_FIRMWARE`. -/
structure Quiet (s t : Loader) : Prop where
  programmer : t.programmer = s.programmer
  copying : t.copying = s.copying
  updater : s.copying ≠ none → t.updater = s.updater
  state : t.updater.state = .GET_BYTES_FIRMWARE → s.updater.state = .GET_BYTES_FIRMWARE

/-- The step gets as far as the body of `GET_BYTES_FIRMWARE`. -/
def InFirmware (s : Loader) : Op → Prop
  | .answer now answer =>
      (s.processUnsolicited answer).map Prod.fst = some false ∧
        s.sim868.state = .RUNNING_UPDATER ∧ s.updater.state = .GET_BYTES_FIRMWARE ∧
        s.updater.stateMeter.elapsedTime now < 75000
  | _ => False

instance (s : Loader) : DecidablePred s.InFirmware
  | .answer _ _ => inferInstanceAs (Decidable (_ ∧ _ ∧ _ ∧ _))
  | .receive _ | .modem _ | .copy => inferInstanceAs (Decidable False)

/-- The size of the image so far: what is written, what waits in the packing buffer, and what
the reader holds. -/
def imageSize (s : Loader) : ℕ :=
  s.programmer.writtenBytes + s.programmer.bytes.length + s.reader.received.length

/-- **The image fits** the staging area as far as it is written by this step: all of it at the
end of the file, its whole words before. -/
def Fits (s : Loader) (op : Op) : Prop :=
  s.InFirmware op →
    if s.reader.receivedFTPGET_1_0 then s.imageSize ≤ MAX_SIZE_STORAGE
    else s.reader.requestedBytesReceived → s.imageSize < MAX_SIZE_STORAGE + 4

instance (s : Loader) : DecidablePred s.Fits := fun _ => by
  unfold Fits
  infer_instance

/-- What a step can do to the flash. -/
inductive Effect (chip : Chip) (s : Loader) (op : Op) (t : Loader) : Prop
  | quiet (h : Quiet s t)
  /-- The staging area is erased, and `GET_BYTES_FIRMWARE` entered. -/
  | prepared (hs : s.copying = none) (ht : t.copying = none)
      (h : t.programmer = s.programmer.prepare HAL_ROM.ADDR_STORAGE)
  /-- A chunk is written. -/
  | wrote (hs : s.copying = none) (ht : t.copying = none) (hop : s.InFirmware op)
      (hmore : s.reader.receivedFTPGET_1_0 = false) (hreader : s.reader.requestedBytesReceived)
      (h : s.programmer.writeBytes chip s.reader.received = some t.programmer)
  /-- The image is complete, but its checksum is wrong. -/
  | rejected (hs : s.copying = none) (ht : t.copying = none) (hop : s.InFirmware op)
      (hend : s.reader.receivedFTPGET_1_0) (p : Programmer)
      (hwrite : s.programmer.writeBytes chip s.reader.received = some p)
      (hclose : p.closeSession chip = some t.programmer) (hstate : t.updater.state = .IDLE)
  /-- The image is complete, and its checksum is right. -/
  | staged (hs : s.copying = none) (hop : s.InFirmware op)
      (hend : s.reader.receivedFTPGET_1_0) (p q : Programmer)
      (hwrite : s.programmer.writeBytes chip s.reader.received = some p)
      (hclose : p.closeSession chip = some q)
      (hcrc : Math.calculateCRC (q.rom.cells.read HAL_ROM.ADDR_STORAGE q.writtenBytes) =
        s.updater.sourceCrc)
      (ht : t.copying = some q.writtenBytes)
      (hprogrammer : t.programmer = { q with rom := { q.rom with
        trace := q.rom.trace ++ [.staged q.writtenBytes s.updater.sourceCrc q.rom.cells] } })
      (hupdater : t.updater.state = .GET_BYTES_FIRMWARE ∧
        t.updater.sourceCrc = s.updater.sourceCrc)
  /-- A round of the copy loop that is not the last one. -/
  | round (n : ℕ) (hop : op = .copy) (hs : s.copying = some n) (ht : t.copying = some n)
      (h : s.programmer.copyFirmware chip = some t.programmer) (hupdater : t.updater = s.updater)
  /-- The last round of the copy loop. -/
  | copied (n : ℕ) (hop : op = .copy) (hs : s.copying = some n) (ht : t.copying = none) (p : Programmer)
      (h : s.programmer.copyFirmware chip = some p)
      (hcrc : Math.calculateCRC (p.rom.cells.read HAL_ROM.ADDR_APPLICATION n) =
        s.updater.sourceCrc)
      (hprogrammer : t.programmer = { p with rom := { p.rom with
        trace := p.rom.trace ++ [.copied n s.updater.sourceCrc p.rom.cells] } })
      (hstate : t.updater.state = .COMPLETED)

variable {chip : Chip} {s t : Loader} {now : UInt32} {answer : List UInt8}
  {commands : List Transmit}

/-- Outside of the copy loop a step is quiet if it leaves the programmer alone and does not
enter `GET_BYTES_FIRMWARE`. -/
theorem Quiet.of_idle (hs : s.copying = none) (hprogrammer : t.programmer = s.programmer)
    (hcopying : t.copying = s.copying)
    (hstate : t.updater.state = .GET_BYTES_FIRMWARE → s.updater.state = .GET_BYTES_FIRMWARE) :
    Quiet s t :=
  ⟨hprogrammer, hcopying, fun h => absurd hs h, hstate⟩

theorem Quiet.refl (s : Loader) : Quiet s s := ⟨rfl, rfl, fun _ => rfl, id⟩

theorem quiet_reset (hs : s.copying = none) : Quiet s s.reset :=
  .of_idle hs rfl rfl fun h => absurd h (by simp [reset, resetUpdater])

/-- The meter has run out, or the body is run. -/
theorem meterIsRunning_cases {time : UInt32}
    {body : Loader → Option (List Transmit × Loader)} {r : List Transmit × Loader}
    (h : s.meterIsRunning now time body = some r) :
    r = ([], s.reset) ∨ s.updater.stateMeter.elapsedTime now < time ∧ body s = some r := by
  rw [meterIsRunning] at h
  split at h
  · exact Or.inr ⟨‹_›, h⟩
  · exact Or.inl (Option.some.inj h).symm

theorem meterIsRunningSIM868_cases {time : UInt32}
    {body : Loader → Option (List Transmit × Loader)} {r : List Transmit × Loader}
    (h : s.meterIsRunningSIM868 now time body = some r) :
    r = ([], s.reset) ∨ body s = some r := by
  rw [meterIsRunningSIM868] at h
  split at h
  · exact Or.inr h
  · exact Or.inl (Option.some.inj h).symm

/-! ## The states that do not touch the flash -/

theorem quiet_waitOK {time : UInt32} {next : Updater.State} {command : String}
    (hs : s.copying = none) (hnext : next ≠ .GET_BYTES_FIRMWARE)
    (h : s.waitOK now time answer next command = some (commands, t)) : Quiet s t := by
  rcases meterIsRunning_cases h with h | ⟨-, h⟩
  · obtain ⟨-, rfl⟩ := Prod.mk.inj h
    exact quiet_reset hs
  · split at h
    · obtain ⟨-, rfl⟩ := Prod.mk.inj (Option.some.inj h)
      exact .of_idle hs rfl rfl fun h => absurd h hnext
    · obtain ⟨-, rfl⟩ := Prod.mk.inj (Option.some.inj h)
      exact .refl s

theorem quiet_waitConnect (hs : s.copying = none)
    (h : s.waitConnect now answer = some (commands, t)) : Quiet s t := by
  rcases meterIsRunning_cases h with h | ⟨-, h⟩
  · obtain ⟨-, rfl⟩ := Prod.mk.inj h
    exact quiet_reset hs
  · simp only [Option.bind_eq_bind, Option.bind_eq_some_iff] at h
    obtain ⟨word, -, h⟩ := h
    split at h
    · split at h
      · obtain ⟨-, rfl⟩ := Prod.mk.inj (Option.some.inj h)
        exact .of_idle hs rfl rfl fun h => absurd h (by simp [setState])
      split at h
      · obtain ⟨-, rfl⟩ := Prod.mk.inj (Option.some.inj h)
        exact .of_idle hs rfl rfl fun h => absurd h (by simp)
      · obtain ⟨-, rfl⟩ := Prod.mk.inj (Option.some.inj h)
        exact .refl s
    · obtain ⟨-, rfl⟩ := Prod.mk.inj (Option.some.inj h)
      exact .refl s

theorem quiet_getBytesVer (hs : s.copying = none)
    (h : s.getBytesVer now = some (commands, t)) : Quiet s t := by
  rcases meterIsRunning_cases h with h | ⟨-, h⟩
  · obtain ⟨-, rfl⟩ := Prod.mk.inj h
    exact quiet_reset hs
  · simp only at h
    split at h
    · obtain ⟨-, rfl⟩ := Prod.mk.inj (Option.some.inj h)
      exact .of_idle hs rfl rfl fun h => absurd h (by simp [setState])
    · obtain ⟨-, rfl⟩ := Prod.mk.inj (Option.some.inj h)
      exact .refl s

/-- An unsolicited answer is quiet; any other one leaves everything to the state. -/
theorem processUnsolicited_cases (hs : s.copying = none) {processed : Bool}
    (h : s.processUnsolicited answer = some (processed, t)) :
    Quiet s t ∧ (processed = false → t = s) := by
  simp only [processUnsolicited, Option.bind_eq_bind, Option.bind_eq_some_iff] at h
  obtain ⟨word, -, h⟩ := h
  split at h
  · obtain ⟨rfl, rfl⟩ := Prod.mk.inj (Option.some.inj h)
    exact ⟨quiet_reset hs, fun h => absurd h (by simp)⟩
  split at h
  · obtain ⟨level, -, h⟩ := Option.bind_eq_some_iff.mp h
    split at h
    · obtain ⟨rfl, rfl⟩ := Prod.mk.inj (Option.some.inj h)
      exact ⟨.of_idle hs rfl rfl id, fun h => absurd h (by simp)⟩
    · exact absurd h (by simp)
  split at h
  · obtain ⟨rfl, rfl⟩ := Prod.mk.inj (Option.some.inj h)
    exact ⟨quiet_reset hs, fun h => absurd h (by simp)⟩
  split at h
  · obtain ⟨rfl, rfl⟩ := Prod.mk.inj (Option.some.inj h)
    exact ⟨.refl s, fun h => absurd h (by simp)⟩
  · obtain ⟨rfl, rfl⟩ := Prod.mk.inj (Option.some.inj h)
    exact ⟨.refl s, fun _ => rfl⟩

theorem quiet_waitAnswer {expected : String} {next : SIM868.State} {sent : List Transmit}
    (hs : s.copying = none)
    (h : s.waitAnswer now answer expected next sent = some (commands, t)) : Quiet s t := by
  rcases meterIsRunningSIM868_cases h with h | h
  · obtain ⟨-, rfl⟩ := Prod.mk.inj h
    exact quiet_reset hs
  · split at h
    · obtain ⟨-, rfl⟩ := Prod.mk.inj (Option.some.inj h)
      exact .of_idle hs rfl rfl id
    · obtain ⟨-, rfl⟩ := Prod.mk.inj (Option.some.inj h)
      exact .refl s

/-- Before `RUNNING_UPDATER` the flash is not touched. -/
theorem quiet_dispatch (hs : s.copying = none) (hsim : s.sim868.state ≠ .RUNNING_UPDATER)
    (h : s.dispatch chip now answer = some (commands, t)) : Quiet s t := by
  rw [dispatch] at h
  split at h
  · obtain ⟨-, rfl⟩ := Prod.mk.inj (Option.some.inj h)
    exact .of_idle hs rfl rfl id
  · exact quiet_waitAnswer hs h
  · exact quiet_waitAnswer hs h
  · exact quiet_waitAnswer hs h
  · exact quiet_waitAnswer hs h
  · rcases meterIsRunningSIM868_cases h with h | h
    · obtain ⟨-, rfl⟩ := Prod.mk.inj h
      exact quiet_reset hs
    simp only [Option.bind_eq_bind, Option.bind_eq_some_iff] at h
    obtain ⟨word, -, h⟩ := h
    split at h
    · obtain ⟨stat, -, h⟩ := Option.bind_eq_some_iff.mp h
      split at h
      · obtain ⟨-, rfl⟩ := Prod.mk.inj (Option.some.inj h)
        exact .of_idle hs rfl rfl id
      · obtain ⟨-, rfl⟩ := Prod.mk.inj (Option.some.inj h)
        exact .refl s
    · obtain ⟨-, rfl⟩ := Prod.mk.inj (Option.some.inj h)
      exact .refl s
  · rcases meterIsRunningSIM868_cases h with h | h
    · obtain ⟨-, rfl⟩ := Prod.mk.inj h
      exact quiet_reset hs
    simp only [Option.bind_eq_bind, Option.bind_eq_some_iff] at h
    obtain ⟨word, -, h⟩ := h
    split at h
    · obtain ⟨-, rfl⟩ := Prod.mk.inj (Option.some.inj h)
      exact .of_idle hs rfl rfl id
    · obtain ⟨-, rfl⟩ := Prod.mk.inj (Option.some.inj h)
      exact .refl s
  · rename_i hrunning
    exact absurd hrunning hsim

/-! ## The states that do -/

theorem effect_getBytesCrc (hs : s.copying = none) {op : Op}
    (h : s.getBytesCrc now = some (commands, t)) : Effect chip s op t := by
  rcases meterIsRunning_cases h with h | ⟨-, h⟩
  · obtain ⟨-, rfl⟩ := Prod.mk.inj h
    exact .quiet (quiet_reset hs)
  · simp only at h
    split at h
    · obtain ⟨-, rfl⟩ := Prod.mk.inj (Option.some.inj h)
      exact .prepared hs hs rfl
    · obtain ⟨-, rfl⟩ := Prod.mk.inj (Option.some.inj h)
      exact .quiet (.refl s)

theorem effect_endOfFile (hs : s.copying = none) {op : Op} (hop : s.InFirmware op)
    (hstate : s.updater.state = .GET_BYTES_FIRMWARE) (hend : s.reader.receivedFTPGET_1_0)
    (h : s.endOfFile chip = some (commands, t)) : Effect chip s op t := by
  simp only [endOfFile, Option.bind_eq_bind, Option.bind_eq_some_iff] at h
  obtain ⟨p, hwrite, q, hclose, h⟩ := h
  split at h
  · rename_i hcrc
    obtain ⟨-, rfl⟩ := Prod.mk.inj (Option.some.inj h)
    exact .staged hs hop hend p q hwrite hclose hcrc rfl rfl ⟨hstate, rfl⟩
  · obtain ⟨-, rfl⟩ := Prod.mk.inj (Option.some.inj h)
    exact .rejected hs hs hop hend p hwrite hclose rfl

theorem effect_getBytesFirmware (hs : s.copying = none)
    (hstate : s.updater.state = .GET_BYTES_FIRMWARE)
    (hrunning : s.sim868.state = .RUNNING_UPDATER)
    (hanswer : (s.processUnsolicited answer).map Prod.fst = some false)
    (h : s.getBytesFirmware chip now = some (commands, t)) :
    Effect chip s (.answer now answer) t := by
  rcases meterIsRunning_cases h with h | ⟨htime, h⟩
  · obtain ⟨-, rfl⟩ := Prod.mk.inj h
    exact .quiet (quiet_reset hs)
  have hop : s.InFirmware (.answer now answer) := ⟨hanswer, hrunning, hstate, htime⟩
  simp only at h
  split at h
  · exact effect_endOfFile hs hop hstate ‹_› h
  rename_i hmore
  split at h
  · obtain ⟨p, hwrite, h⟩ := Option.map_eq_some_iff.mp h
    obtain ⟨-, rfl⟩ := Prod.mk.inj h
    exact .wrote hs hs hop (Bool.eq_false_iff.mpr hmore) ‹_› hwrite
  · obtain ⟨-, rfl⟩ := Prod.mk.inj (Option.some.inj h)
    exact .quiet (.refl s)

theorem effect_updateUpdater (hs : s.copying = none)
    (hrunning : s.sim868.state = .RUNNING_UPDATER)
    (hanswer : (s.processUnsolicited answer).map Prod.fst = some false)
    (h : s.updateUpdater chip now answer = some (commands, t)) :
    Effect chip s (.answer now answer) t := by
  rw [updateUpdater] at h
  split at h
  case h_1 =>
    obtain ⟨-, rfl⟩ := Prod.mk.inj (Option.some.inj h)
    exact .quiet (.of_idle hs rfl rfl fun h => absurd h (by simp))
  case h_2 =>
    obtain ⟨-, rfl⟩ := Prod.mk.inj (Option.some.inj h)
    exact .quiet (.of_idle hs rfl rfl fun h => absurd h (by simp [setState]))
  case h_14 => exact .quiet (quiet_waitConnect hs h)
  case h_15 => exact .quiet (quiet_getBytesVer hs h)
  case h_16 => exact effect_getBytesCrc hs h
  case h_17 => exact effect_getBytesFirmware hs ‹_› hrunning hanswer h
  case h_18 =>
    obtain ⟨-, rfl⟩ := Prod.mk.inj (Option.some.inj h)
    exact .quiet (.refl s)
  -- what is left are the states that wait for `OK`
  all_goals exact .quiet (quiet_waitOK hs (by decide) h)

theorem effect_updateSIM868 (hs : s.copying = none)
    (h : s.updateSIM868 chip now answer = some (commands, t)) :
    Effect chip s (.answer now answer) t := by
  simp only [updateSIM868, Option.bind_eq_bind, Option.bind_eq_some_iff] at h
  obtain ⟨⟨processed, u⟩, hanswer, h⟩ := h
  obtain ⟨hquiet, hsame⟩ := processUnsolicited_cases hs hanswer
  split at h
  · obtain ⟨-, rfl⟩ := Prod.mk.inj (Option.some.inj h)
    exact .quiet hquiet
  · rename_i hpass
    obtain rfl : processed = false := Bool.eq_false_iff.mpr hpass
    obtain rfl := hsame rfl
    by_cases hrunning : u.sim868.state = .RUNNING_UPDATER
    · simp only [dispatch, hrunning] at h
      exact effect_updateUpdater hs hrunning (by rw [hanswer]; rfl) h
    · exact .quiet (quiet_dispatch hs hrunning h)

theorem effect_copyRound {n : ℕ} (hs : s.copying = some n)
    (h : s.copyRound chip n = some t) : Effect chip s .copy t := by
  obtain ⟨p, hcopy, h⟩ := Option.map_eq_some_iff.mp h
  split at h
  · rename_i hcrc
    subst h
    exact .copied n rfl hs rfl p hcopy hcrc.symm rfl rfl
  · subst h
    exact .round n rfl hs hs hcopy rfl

/-- **What a step does.** -/
theorem effect_of_next {op : Op} (h : s.next chip op = some t) : Effect chip s op t := by
  obtain ⟨⟨commands, u⟩, hstep, rfl⟩ := Option.map_eq_some_iff.mp h
  cases op with
  | receive symbol =>
      rw [step, receive] at hstep
      split at hstep
      · obtain ⟨⟨sent, reader⟩, -, hstep⟩ := Option.map_eq_some_iff.mp hstep
        obtain ⟨-, rfl⟩ := Prod.mk.inj hstep
        exact .quiet ⟨rfl, rfl, fun _ => rfl, id⟩
      · obtain ⟨-, rfl⟩ := Prod.mk.inj (Option.some.inj hstep)
        exact .quiet (.refl s)
  | modem env =>
      rw [step] at hstep
      split at hstep
      · obtain ⟨-, rfl⟩ := Prod.mk.inj (Option.some.inj hstep)
        simp only [updateModem]
        split
        · exact .quiet ⟨rfl, rfl, fun _ => rfl, id⟩
        · exact .quiet ⟨rfl, rfl, fun _ => rfl, id⟩
        · exact .quiet ⟨rfl, rfl, fun _ => rfl, id⟩
      · exact absurd hstep (by simp)
  | answer now answer =>
      rw [step] at hstep
      split at hstep
      · rename_i hidle
        exact effect_updateSIM868 hidle.1 hstep
      · exact absurd hstep (by simp)
  | copy =>
      rw [step, Option.bind_eq_some_iff] at hstep
      obtain ⟨n, hcopying, hstep⟩ := hstep
      obtain ⟨v, hround, hstep⟩ := Option.map_eq_some_iff.mp hstep
      obtain ⟨-, rfl⟩ := Prod.mk.inj hstep
      exact effect_copyRound hcopying hround

end Loader

end USKD
