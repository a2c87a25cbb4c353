import USKD.Loader.Verified

/-!
# The application across power failures

Power may fail at any moment, also in the middle of a flash operation.  The data in memory are lost
then, and where the operation was at work the flash may hold anything: behind the application as long
as no copy is under way, anywhere in the copy loop.  `past` keeps what was done before.

A failure outside of the copy loop does no harm: the application is the one that was found first, or
one that was verified (`application_survives`).  One in the copy loop may leave it torn, and nothing
in the flash says so: the copy stays open until a later session has come to the end of another one.
-/

namespace USKD

open NorFlash Programmer HAL_ROM FlashEvent

/-! ## A trace behind another one -/

namespace FlashEvent

variable {past trace : List FlashEvent}

/-- A copy that is open stays so, whatever was done before. -/
theorem openCopy_append_of_some {copy : ℕ × UInt32} (h : openCopy trace = some copy) :
    openCopy (past ++ trace) = some copy := by
  induction trace using List.reverseRecOn with
  | nil => exact absurd h (by simp [openCopy])
  | append_singleton trace e ih =>
      rw [openCopy_concat] at h
      rw [← List.append_assoc, openCopy_concat]
      cases e with
      | staged | copied => exact h
      | erase | program => exact ih h

theorem openCopy_append_of_behind (h : ∀ e ∈ trace, e.Behind) :
    openCopy (past ++ trace) = openCopy past := by
  induction trace using List.reverseRecOn with
  | nil => rw [List.append_nil]
  | append_singleton trace e ih =>
      obtain ⟨b, hb⟩ := h e (by simp)
      rw [← List.append_assoc, openCopy_concat, ← ih fun d hd => h d (by simp [hd])]
      cases e with
      | staged | copied => exact hb.elim
      | erase | program => rfl

/-- What was allowed is so behind another trace. -/
theorem AfterCheck.append {e : FlashEvent} (h : AfterCheck trace e) :
    AfterCheck (past ++ trace) e := by
  refine ⟨fun x hx htouch => ?_, h.2⟩
  obtain ⟨copy, hcopy⟩ := Option.isSome_iff_exists.mp (h.1 x hx htouch)
  rw [openCopy_append_of_some hcopy]
  rfl

end FlashEvent

/-- Behind an application that is intact, operations on the rest leave it so. -/
theorem HAL_ROM.Intact.behind {cells found left : Memory} {past trace : List FlashEvent}
    (h : HAL_ROM.Intact cells ⟨found, past⟩) (hbehind : ∀ e ∈ trace, e.Behind)
    (hleft : ∀ x, InApplication x → left x = found x) :
    HAL_ROM.Intact cells ⟨left, past ++ trace⟩ := by
  rcases h with ⟨hall, happlication⟩ |
    ⟨pre, size, crc, copy, post, hsplit, hopen, hcrc, hpost, hcopy⟩
  · refine .inl ⟨fun e he => ?_, fun x hx => (hleft x hx).trans (happlication x hx)⟩
    exact (List.mem_append.mp he).elim (hall e) (hbehind e)
  · refine .inr ⟨pre, size, crc, copy, post ++ trace, ?_, hopen, hcrc, fun e he => ?_,
      fun x hx => (hleft x hx).trans (hcopy x hx)⟩
    · show past ++ trace = _
      rw [show past = pre ++ .copied size crc copy :: post from hsplit, List.append_assoc,
        List.cons_append]
    · exact (List.mem_append.mp he).elim (hpost e) (hbehind e)

/-! ## Sessions over the same flash -/

/-- The loader, and what was done to the flash before the last power failure. -/
structure PowerCycles where
  loader : Loader
  past : List FlashEvent

namespace PowerCycles

/-- The first start, over whatever the flash holds. -/
def boot (cells : Memory) : PowerCycles := ⟨.boot cells, []⟩

/-- All that was done to the flash. -/
def history (s : PowerCycles) : List FlashEvent := s.past ++ s.loader.rom.trace

inductive Op
  /-- A step of the loader. -/
  | step (op : Loader.Op)
  /-- Power fails, and the loader starts over what the flash then holds. -/
  | powerFailure (left : Memory)

/-- **What a power failure may leave**: anything, but for the application, which only the copy loop
works on. -/
def Leaves (s : PowerCycles) (left : Memory) : Prop :=
  s.loader.copying = none → ∀ x, InApplication x → left x = s.loader.rom.cells x

/-- One step. -/
inductive Step (chip : Chip) (s : PowerCycles) : Op → PowerCycles → Prop
  | step {op : Loader.Op} {t : Loader} (h : s.loader.next chip op = some t) :
      Step chip s (.step op) ⟨t, s.past⟩
  | powerFailure {left : Memory} (h : s.Leaves left) :
      Step chip s (.powerFailure left) ⟨.boot left, s.history⟩

/-- **The application may be torn**: no copy is under way, but one was begun and did not come to its
end. -/
def Torn (s : PowerCycles) : Prop := s.loader.copying = none ∧ (openCopy s.history).isSome

variable {chip : Chip} {cells left : Memory} {s t : PowerCycles} {op : Op}

/-- **The invariant**: the present session is sound over the flash that it found, and with no copy
left open that flash had an intact application. -/
structure Sound (cells : Memory) (s : PowerCycles) : Prop where
  session : ∃ found, s.loader.Sound found ∧
    (openCopy s.past = none → HAL_ROM.Intact cells ⟨found, s.past⟩)
  checked : Trace.Each AfterCheck s.past

theorem sound_boot (cells : Memory) : Sound cells (boot cells) where
  session := by
    refine ⟨cells, Loader.sound_boot cells, fun _ => .inl ⟨fun e he => ?_, fun _ _ => rfl⟩⟩
    exact absurd he List.not_mem_nil
  checked := Trace.each_nil

theorem Sound.checked_history (h : Sound cells s) : Trace.Each AfterCheck s.history := by
  obtain ⟨found, hsession, -⟩ := h.session
  exact h.checked.append_each hsession.checked fun _ _ hcheck => hcheck.append

/-- A copy under way is an open one. -/
theorem Sound.idle (h : Sound cells s) (hopen : openCopy s.history = none) :
    s.loader.copying = none := by
  obtain ⟨found, hsession, -⟩ := h.session
  have hopened := hsession.opened
  cases hcopying : s.loader.copying with
  | none => rfl
  | some n =>
      rw [hcopying] at hopened
      exact absurd ((openCopy_append_of_some hopened).symm.trans hopen) (by simp)

/-- With no copy open the application is intact. -/
theorem Sound.intact (h : Sound cells s) (hopen : openCopy s.history = none) :
    HAL_ROM.Intact cells ⟨s.loader.rom.cells, s.history⟩ := by
  have hidle := h.idle hopen
  obtain ⟨found, hsession, hpast⟩ := h.session
  rcases hsession.intact hidle with ⟨hbehind, hcells⟩ |
    ⟨pre, size, crc, copy, post, hsplit, hpre, hcrc, hpost, hcopy⟩
  · -- this session has not touched the application
    rw [history, openCopy_append_of_behind hbehind] at hopen
    exact (hpast hopen).behind hbehind hcells
  · -- this session has copied one
    refine .inr ⟨s.past ++ pre, size, crc, copy, post, ?_, openCopy_append_of_some hpre, hcrc, hpost,
      hcopy⟩
    show s.past ++ s.loader.rom.trace = _
    rw [hsplit, List.append_assoc]

/-- **Step lemma.** -/
theorem Sound.step (h : Sound cells s) (hstep : Step chip s op t) : Sound cells t := by
  cases hstep with
  | step hnext =>
      obtain ⟨found, hsession, hpast⟩ := h.session
      exact ⟨⟨found, hsession.next hnext, hpast⟩, h.checked⟩
  | @powerFailure left hleaves =>
      refine ⟨⟨left, Loader.sound_boot left, fun hopen => ?_⟩, h.checked_history⟩
      have hsame : HAL_ROM.Intact cells ⟨left, s.history ++ []⟩ :=
        (h.intact hopen).behind (by simp) (hleaves (h.idle hopen))
      rw [List.append_nil] at hsame
      exact hsame

/-! ## A torn application -/

/-- A step of the loader leaves no copy open that it does not work on. -/
theorem not_torn_of_next {found : Memory} {u v : Loader} {past : List FlashEvent}
    (h : u.Sound found) {op : Loader.Op} (hnext : u.next chip op = some v)
    (hwhole : ¬ Torn ⟨u, past⟩) : ¬ Torn ⟨v, past⟩ := by
  rintro ⟨hidle, htorn⟩
  -- operations on the staging area, with no copy open
  have hchanged : u.copying = none → ∀ {a b : ℕ}, Changed a b u.rom v.rom → False := by
    intro hu a b hchanged
    obtain ⟨es, htrace, hes⟩ := hchanged.trace
    refine hwhole ⟨hu, ?_⟩
    rw [history, htrace, ← List.append_assoc, openCopy_append hes] at htorn
    exact htorn
  rcases Loader.effect_of_next hnext with hquiet | ⟨hs, -, hprepare⟩ | ⟨hs, -, hop, -, -, hwrite⟩ |
    ⟨hs, -, hop, -, p, hwrite, hclose, -⟩ | ⟨hs, hop, -, p, q, hwrite, hclose, hcrc, ht, -⟩ |
    ⟨n, -, hs, ht, -⟩ | ⟨n, -, hs, -, p, -, -, hprogrammer, -⟩
  · refine hwhole ⟨hquiet.copying ▸ hidle, ?_⟩
    rw [history, Loader.rom, hquiet.programmer] at htorn
    exact htorn
  · exact hchanged hs (Loader.changed_rom_prepare hprepare)
  · exact hchanged hs (h.write hs hop.state hwrite).1.changed
  · exact hchanged hs (h.close hs hop.state hwrite hclose).changed
  · exact absurd (ht.symm.trans hidle) (by simp)
  · exact absurd (ht.symm.trans hidle) (by simp)
  · rw [history, Loader.rom, hprogrammer, ← List.append_assoc, openCopy_concat] at htorn
    exact absurd htorn (by simp)

theorem copying_of_copy {u v : Loader} (hnext : u.next chip .copy = some v) :
    ∃ n, u.copying = some n := by
  obtain ⟨r, hr, -⟩ := Option.map_eq_some_iff.mp hnext
  obtain ⟨n, hn, -⟩ := Option.bind_eq_some_iff.mp hr
  exact ⟨n, hn⟩

/-- A round of the copy loop leaves no other copy open. -/
theorem not_torn_of_copy {u v : Loader} {past : List FlashEvent}
    (hnext : u.next chip .copy = some v) : ¬ Torn ⟨v, past⟩ := by
  rintro ⟨hidle, htorn⟩
  obtain ⟨n, hn⟩ := copying_of_copy hnext
  have hu : u.copying ≠ none := by rw [hn]; simp
  rcases Loader.effect_of_next hnext with hquiet | ⟨hs, -⟩ | ⟨hs, -⟩ | ⟨hs, -⟩ | ⟨hs, -⟩ |
    ⟨n, -, -, ht, -⟩ | ⟨n, -, -, -, p, -, -, hprogrammer, -⟩
  · exact hu (hquiet.copying ▸ hidle)
  · exact hu hs
  · exact hu hs
  · exact hu hs
  · exact hu hs
  · exact absurd (ht.symm.trans hidle) (by simp)
  · rw [history, Loader.rom, hprogrammer, ← List.append_assoc, openCopy_concat] at htorn
    exact absurd htorn (by simp)

/-- **The application survives power failures.**  In every run over any number of sessions, with
power failing at any moment: the application is erased and programmed only in a copy of an image with
the expected checksum.  Outside of the copy loop it is intact, unless it may be torn; only a power
failure in the copy loop makes it so, and the next round of the copy loop in a later session ends
that. -/
theorem application_survives (chip : Chip) (cells : Memory) {ops : List Op} {s : PowerCycles}
    (hrun : LTS.Run (Step chip) (boot cells) ops s) :
    Trace.Each AfterCheck s.history ∧
      (s.loader.copying = none → ¬ s.Torn →
        HAL_ROM.Intact cells ⟨s.loader.rom.cells, s.history⟩) ∧
      (∀ op t, Step chip s op t → ¬ s.Torn → t.Torn →
        (∃ left, op = .powerFailure left) ∧ s.loader.copying.isSome) ∧
      ∀ t, Step chip s (.step .copy) t → ¬ t.Torn := by
  have hsound : Sound cells s :=
    hrun.invariant (sound_boot cells) fun _ _ _ h hstep => h.step hstep
  refine ⟨hsound.checked_history, fun hidle hwhole => ?_, fun op t hstep hwhole htorn => ?_,
    fun t hstep => ?_⟩
  · refine hsound.intact ?_
    rw [← Option.not_isSome_iff_eq_none]
    exact fun hopen => hwhole ⟨hidle, hopen⟩
  · obtain ⟨found, hsession, -⟩ := hsound.session
    cases hstep with
    | step hnext => exact absurd htorn (not_torn_of_next hsession hnext hwhole)
    | powerFailure hleaves =>
        refine ⟨⟨_, rfl⟩, ?_⟩
        rw [Option.isSome_iff_ne_none]
        intro hidle
        refine hwhole ⟨hidle, ?_⟩
        have hopen := htorn.2
        rw [history, show (Loader.boot _).rom.trace = [] from rfl, List.append_nil] at hopen
        exact hopen
  · cases hstep with
    | step hnext => exact not_torn_of_copy hnext

/-- A session, behind whatever was done before. -/
theorem run_session {u v : Loader} {ops : List Loader.Op}
    (hrun : LTS.Run (LTS.stepOf (Loader.next chip)) u ops v) (past : List FlashEvent) :
    LTS.Run (Step chip) ⟨u, past⟩ (ops.map .step) ⟨v, past⟩ := by
  induction hrun with
  | nil => exact .nil
  | snoc _ hlast ih =>
      rw [List.map_append]
      exact ih.snoc (.step hlast)

/-- The modem connects, and there is no file. -/
def withoutFile : List Loader.Op := Loader.connecting.dropLast ++ Loader.answers ["+FTPGET: 1,77"]

/-- **A torn application can be started**: power fails in the copy loop, and in the next session there
is no file on the server. -/
theorem application_survives_withoutFile : ∃ ops s,
    LTS.Run (Step andChip) (boot fun _ => 0xFF) ops s ∧ Trace.Each AfterCheck s.history ∧
      s.loader.isCompleted ∧ s.Torn ∧ s.loader.rom.cells = fun _ => 0 := by
  have hall := (Loader.run_emptyImage andChip).mono fun _ _ _ hstep => hstep.step
  have hops : Loader.connecting ++ Loader.header ++ Loader.ending =
      (Loader.connecting ++ Loader.header ++ Loader.ending.dropLast) ++ [.copy] := by
    rw [List.append_assoc _ Loader.ending.dropLast]
    rfl
  rw [hops] at hall
  obtain ⟨u, hu, hcopy⟩ := hall.unsnoc
  obtain ⟨n, hn⟩ := copying_of_copy hcopy
  have hopened := (Loader.sound_of_run hu).opened
  rw [hn] at hopened
  have hfailure := (run_session hu []).snoc
    (.powerFailure fun hidle => absurd (hn.symm.trans hidle) (by simp) :
      Step andChip _ (.powerFailure fun _ => 0) _)
  have hagain : LTS.Run (LTS.stepOf (Loader.next andChip)) (Loader.boot fun _ => 0) withoutFile _ :=
    LTS.run_of_execRun rfl
  have hrun := hfailure.append (run_session hagain _)
  refine ⟨_, _, hrun, (application_survives andChip _ hrun).1, rfl, ⟨rfl, ?_⟩, rfl⟩
  show (openCopy (([] ++ u.rom.trace) ++ [])).isSome
  rw [List.nil_append, List.append_nil, hopened]
  rfl

end PowerCycles

end USKD
