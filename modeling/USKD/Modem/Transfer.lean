import USKD.Lib.Run
import USKD.Modem.InData

/-!
# The transfer between the receive interrupt and the main loop

`InData::Update` moves `main` to the end of `buffer` in five steps: `mutex.Try`, the test of
`main.Size()`, `Append`, `main.Clear` and `mutex.Release`.  The receive interrupt may come
between any two of them; it finds the mutex busy and stores its byte in `addit`, which a
later interrupt puts behind `main`.

`Transfer` is this system step by step.  What the main loop does outside of the five steps
is left open: it may cut any number of bytes from the front of `buffer`, and begin a call
of `InData::Update` at any time, also from within the scanning part of another one.

The bytes that `RemoveFirst` cuts are recorded (`removed`); what was moved so far is what was
cut and what still stands in `buffer` (`moved`), so that nothing counts as moved that `Append`
has not put there.  Two things are followed through a run.  What is **conserved** is the sequence
moved, then `main`, then `addit` (`Conserved`).  What a call **settles** is what was moved before
it and what it found in `main` (`settled`); nothing that stands in `addit` belongs to it.
-/

namespace USKD

/-- Where the main loop is: `tried` behind `mutex.Try`, `sized` behind a test that found
bytes, `appended` behind `Append`, `emptied` before `mutex.Release`. -/
inductive Transfer.Stage
  | outside
  | tried
  | sized
  | appended
  | emptied
deriving DecidableEq

/-- The data of `InData` with the place of the main loop.  `removed` are the bytes that were cut
from the front of `buffer`; nothing reads it. -/
structure Transfer where
  data : InData
  stage : Transfer.Stage
  removed : List UInt8

namespace Transfer

open InData

/-- The receive interrupt, the five steps of the transfer, and a cut by the main loop. -/
inductive Op
  | receive (symbol : UInt8)
  | mutexTry
  | sizeTest
  | append
  | mainClear
  | mutexRelease
  | removeFirst (n : ℕ)
deriving DecidableEq

/-- The state at boot. -/
def boot : Transfer := ⟨.boot, .outside, []⟩

/-- One step; `none` when the main loop is elsewhere. -/
def step (t : Transfer) : Op → Option Transfer
  | .receive symbol => some { t with data := t.data.callbackOnReceive symbol }
  | .mutexTry =>
      if t.stage = .outside then some { t with
        data := { t.data with busy := true }
        stage := .tried }
      else none
  | .sizeTest =>
      if t.stage = .tried then
        some { t with stage := if t.data.main.size ≠ 0 then .sized else .emptied }
      else none
  | .append =>
      if t.stage = .sized then some { t with
        data := { t.data with buffer := .orClear (t.data.buffer.append t.data.main.bytes) }
        stage := .appended }
      else none
  | .mainClear =>
      if t.stage = .appended then some { t with
        data := { t.data with main := .clear }
        stage := .emptied }
      else none
  | .mutexRelease =>
      if t.stage = .emptied then some { t with
        data := { t.data with busy := false }
        stage := .outside }
      else none
  | .removeFirst n =>
      if t.stage = .outside then
        (t.data.buffer.removeFirst n).map fun buffer => { t with
          data := { t.data with buffer }
          removed := t.removed ++ t.data.buffer.bytes.take n }
      else none

/-- A step that overflows none of the buffers. -/
def Fits (t : Transfer) : Op → Prop
  | .receive _ =>
      if t.data.busy then t.data.addit.size < 2048
      else t.data.main.size + t.data.addit.size < 2048
  | .append => t.data.buffer.size + t.data.main.size ≤ 2048
  | _ => True

instance (t : Transfer) : DecidablePred (Fits t)
  | .receive _ => inferInstanceAs (Decidable (if t.data.busy then t.data.addit.size < 2048
      else t.data.main.size + t.data.addit.size < 2048))
  | .append => inferInstanceAs (Decidable (t.data.buffer.size + t.data.main.size ≤ 2048))
  | .mutexTry | .sizeTest | .mainClear | .mutexRelease | .removeFirst _ => .isTrue trivial

/-- The bytes that the interrupt received. -/
def received (ops : List Op) : List UInt8 :=
  ops.filterMap fun
    | .receive symbol => some symbol
    | _ => none

/-- What has been moved into `buffer` so far: what was cut from it, and what is in it. -/
def moved (t : Transfer) : List UInt8 := t.removed ++ t.data.buffer.bytes

/-- What is in `main` and not yet moved: between `Append` and `main.Clear` it is moved
already. -/
def unmoved (t : Transfer) : List UInt8 :=
  if t.stage = .appended then [] else t.data.main.bytes

theorem unmoved_of_ne {t : Transfer} (h : t.stage ≠ .appended) : t.unmoved = t.data.main.bytes :=
  if_neg h

theorem unmoved_congr {t u : Transfer} (ht : t.stage ≠ .appended) (hu : u.stage ≠ .appended)
    (hmain : u.data.main = t.data.main) : u.unmoved = t.unmoved := by
  rw [unmoved_of_ne hu, unmoved_of_ne ht, hmain]

theorem received_append (ops ops' : List Op) :
    received (ops ++ ops') = received ops ++ received ops' :=
  List.filterMap_append

/-! ## What is conserved -/

/-- **The invariant of the transfer.**  The mutex is busy exactly during the five steps;
nothing is lost, doubled or out of order. -/
structure Conserved (bytes : List UInt8) (t : Transfer) : Prop where
  locked : t.data.busy = decide (t.stage ≠ .outside)
  order : t.moved ++ t.unmoved ++ t.data.addit.bytes = bytes

variable {t u : Transfer} {bytes : List UInt8} {symbol : UInt8}

theorem conserved_boot : Conserved [] boot := ⟨rfl, rfl⟩

/-- The interrupt while the mutex is busy. -/
theorem callbackOnReceive_of_busy {s : InData} (symbol : UInt8) (h : s.busy = true) :
    s.callbackOnReceive symbol = { s with addit := .orClear (s.addit.push symbol) } := by
  rw [callbackOnReceive, if_pos h]

/-- The interrupt while the mutex is free, with room for all. -/
theorem callbackOnReceive_of_free {s : InData} (symbol : UInt8) (h : s.busy = false)
    (hfits : s.main.size + s.addit.size < 2048) :
    (s.callbackOnReceive symbol).main.bytes = s.main.bytes ++ s.addit.bytes ++ [symbol] ∧
      (s.callbackOnReceive symbol).addit.bytes = [] := by
  simp only [Buffer.size_eq] at hfits
  have hbusy : ¬ s.busy = true := by
    rw [h]
    exact Bool.false_ne_true
  rw [callbackOnReceive, if_neg hbusy]
  by_cases hempty : s.addit.size ≠ 0
  · have happended : (Buffer.orClear (s.main.append s.addit.bytes)).bytes =
        s.main.bytes ++ s.addit.bytes := Buffer.orClear_append_of_le (Nat.le_of_lt hfits)
    rw [if_pos hempty]
    refine ⟨?_, rfl⟩
    show (Buffer.orClear (Buffer.push _ symbol)).bytes = _
    rw [Buffer.orClear_push_of_lt, happended]
    rwa [happended, List.length_append]
  · have hnil : s.addit.bytes = [] := by
      simpa using hempty
    rw [if_neg hempty]
    refine ⟨?_, hnil⟩
    show (Buffer.orClear (Buffer.push _ symbol)).bytes = _
    rw [Buffer.orClear_push_of_lt, hnil, List.append_nil]
    omega

/-- Whatever the interrupt does, it leaves the buffer and the mutex alone. -/
theorem callbackOnReceive_frame (s : InData) (symbol : UInt8) :
    (s.callbackOnReceive symbol).buffer = s.buffer ∧
      (s.callbackOnReceive symbol).busy = s.busy := by
  unfold callbackOnReceive
  split
  · exact ⟨rfl, rfl⟩
  · split <;> exact ⟨rfl, rfl⟩

/-- A byte is stored behind everything received before. -/
theorem Conserved.receive (h : Conserved bytes t) (hfits : Fits t (.receive symbol)) :
    Conserved (bytes ++ [symbol]) { t with data := t.data.callbackOnReceive symbol } := by
  obtain ⟨hbuffer, hbusy⟩ := callbackOnReceive_frame t.data symbol
  have hmoved : moved { t with data := t.data.callbackOnReceive symbol } = t.moved := by
    rw [moved, moved, hbuffer]
  refine ⟨hbusy.trans h.locked, ?_⟩
  rw [hmoved]
  by_cases hlocked : t.data.busy = true
  · -- the byte goes to `addit`
    have hroom : t.data.addit.size < 2048 := by
      unfold Fits at hfits
      exact (if_pos hlocked).mp hfits
    have hcall := callbackOnReceive_of_busy symbol hlocked
    have haddit : (t.data.callbackOnReceive symbol).addit.bytes =
        t.data.addit.bytes ++ [symbol] := by
      rw [hcall]
      exact Buffer.orClear_push_of_lt hroom
    have hunmoved : unmoved { t with data := t.data.callbackOnReceive symbol } = t.unmoved := by
      rw [hcall]
      rfl
    rw [haddit, hunmoved, ← h.order, ← List.append_assoc]
  · -- the byte goes to `main`, behind what is in `addit`
    have hroom : t.data.main.size + t.data.addit.size < 2048 := by
      unfold Fits at hfits
      exact (if_neg hlocked).mp hfits
    have hfree : t.data.busy = false := Bool.eq_false_iff.mpr hlocked
    have hstage : t.stage = .outside := by
      have hdecide := h.locked
      rw [hfree] at hdecide
      exact not_not.mp (of_decide_eq_false hdecide.symm)
    have hne : t.stage ≠ .appended := by
      rw [hstage]
      decide
    obtain ⟨hmain, haddit⟩ := callbackOnReceive_of_free symbol hfree hroom
    have horder := h.order
    rw [unmoved_of_ne hne] at horder
    have hunmoved : unmoved { t with data := t.data.callbackOnReceive symbol } =
        t.data.main.bytes ++ t.data.addit.bytes ++ [symbol] := by
      rw [unmoved_of_ne (by exact hne)]
      exact hmain
    rw [hunmoved, haddit, List.append_nil, ← horder]
    simp only [List.append_assoc]

/-- A step that receives and moves nothing. -/
theorem Conserved.same (h : Conserved bytes t)
    (hlocked : u.data.busy = decide (u.stage ≠ .outside)) (hmoved : u.moved = t.moved)
    (hunmoved : u.unmoved = t.unmoved) (haddit : u.data.addit = t.data.addit) :
    Conserved (bytes ++ []) u where
  locked := hlocked
  order := by rw [hmoved, hunmoved, haddit, h.order, List.append_nil]

/-- With room in `buffer`, `Append` moves what is in `main`. -/
theorem moved_append (hfits : Fits t .append) (hstep : t.step .append = some u) :
    u.moved = t.moved ++ t.data.main.bytes := by
  obtain ⟨-, hstep⟩ := Option.ite_none_right_eq_some.mp hstep
  obtain rfl := Option.some.inj hstep
  show t.removed ++ (Buffer.orClear (t.data.buffer.append t.data.main.bytes)).bytes = _
  rw [Buffer.orClear_append_of_le hfits, moved, List.append_assoc]

/-- What `RemoveFirst` cuts stays moved. -/
theorem moved_removeFirst {n : ℕ} (hstep : t.step (.removeFirst n) = some u) :
    u.moved = t.moved := by
  obtain ⟨-, hstep⟩ := Option.ite_none_right_eq_some.mp hstep
  obtain ⟨buffer, hremove, rfl⟩ := Option.map_eq_some_iff.mp hstep
  show t.removed ++ t.data.buffer.bytes.take n ++ buffer.bytes = _
  rw [Buffer.bytes_removeFirst hremove, List.append_assoc, List.take_append_drop, moved]

/-- `Append` moves `main`. -/
theorem Conserved.append (h : Conserved bytes t) (hfits : Fits t .append)
    (hstep : t.step .append = some u) : Conserved (bytes ++ []) u := by
  have hmoved := moved_append hfits hstep
  obtain ⟨hstage, hstep⟩ := Option.ite_none_right_eq_some.mp hstep
  obtain rfl := Option.some.inj hstep
  have horder := h.order
  rw [unmoved_of_ne (by simp [hstage])] at horder
  refine ⟨?_, ?_⟩
  · show t.data.busy = _
    rw [h.locked, hstage]
    rfl
  · rw [hmoved, unmoved, if_pos rfl, List.append_nil, List.append_nil]
    exact horder

/-- **A step** of the transfer conserves what was received. -/
theorem Conserved.step {op : Op} (h : Conserved bytes t) (hfits : Fits t op)
    (hstep : t.step op = some u) : Conserved (bytes ++ received [op]) u := by
  have hlocked := h.locked
  cases op with
  | receive symbol =>
      obtain rfl := Option.some.inj hstep
      exact h.receive hfits
  | mutexTry =>
      obtain ⟨hstage, hstep⟩ := Option.ite_none_right_eq_some.mp hstep
      obtain rfl := Option.some.inj hstep
      have hne : t.stage ≠ .appended := by simp [hstage]
      exact h.same rfl rfl (unmoved_congr hne (by simp) rfl) rfl
  | sizeTest =>
      obtain ⟨hstage, hstep⟩ := Option.ite_none_right_eq_some.mp hstep
      obtain rfl := Option.some.inj hstep
      have hne : t.stage ≠ .appended := by simp [hstage]
      rw [hstage] at hlocked
      refine h.same ?_ rfl (unmoved_congr hne ?_ rfl) rfl
      · show t.data.busy = decide ((if t.data.main.size ≠ 0 then Stage.sized else .emptied) ≠ _)
        rw [hlocked]
        split <;> rfl
      · show (if t.data.main.size ≠ 0 then Stage.sized else .emptied) ≠ .appended
        split <;> decide
  | append => exact h.append hfits hstep
  | mainClear =>
      obtain ⟨hstage, hstep⟩ := Option.ite_none_right_eq_some.mp hstep
      obtain rfl := Option.some.inj hstep
      rw [hstage] at hlocked
      refine h.same hlocked rfl ?_ rfl
      rw [unmoved_of_ne (by simp), unmoved, if_pos hstage]
      rfl
  | mutexRelease =>
      obtain ⟨hstage, hstep⟩ := Option.ite_none_right_eq_some.mp hstep
      obtain rfl := Option.some.inj hstep
      have hne : t.stage ≠ .appended := by simp [hstage]
      exact h.same rfl rfl (unmoved_congr hne (by simp) rfl) rfl
  | removeFirst n =>
      have hmoved := moved_removeFirst hstep
      obtain ⟨hstage, hstep⟩ := Option.ite_none_right_eq_some.mp hstep
      obtain ⟨buffer, hremove, rfl⟩ := Option.map_eq_some_iff.mp hstep
      exact h.same hlocked hmoved rfl rfl

variable {ops ops' : List Op}

theorem conserved_run (hrun : LTS.Run (LTS.Guarded Fits (LTS.stepOf step)) boot ops t) :
    Conserved (received ops) t := by
  induction hrun with
  | nil => exact conserved_boot
  | snoc _ hlast ih =>
      obtain ⟨hfits, hstep⟩ := hlast
      rw [received_append]
      exact ih.step hfits hstep

/-- **No byte is lost, doubled or reordered** by any interleaving that overflows none of the
buffers: what was cut from `buffer`, what stands in it, what waits in `main` and what waits in
`addit` make up what was received. -/
theorem moved_unmoved_addit
    (hrun : LTS.Run (LTS.Guarded Fits (LTS.stepOf step)) boot ops t) :
    t.removed ++ t.data.buffer.bytes ++ t.unmoved ++ t.data.addit.bytes = received ops :=
  (conserved_run hrun).order

/-- One byte is moved and cut, one is moved but not cleared in `main`, and one waits in `addit`. -/
def busyOps : List Op :=
  [.receive 0x4F, .mutexTry, .sizeTest, .append, .mainClear, .mutexRelease, .removeFirst 1,
    .receive 0x4B, .mutexTry, .sizeTest, .receive 0x0D, .append]

theorem moved_unmoved_addit_busy :
    ∃ t, LTS.Run (LTS.Guarded Fits (LTS.stepOf step)) boot busyOps t ∧
      t.removed = [0x4F] ∧ t.data.buffer.bytes = [0x4B] ∧ t.data.addit.bytes = [0x0D] ∧
      t.removed ++ t.data.buffer.bytes ++ t.unmoved ++ t.data.addit.bytes = [0x4F, 0x4B, 0x0D] := by
  have hrun : LTS.Run (LTS.Guarded Fits (LTS.stepOf step)) boot busyOps
      ⟨⟨⟨[0x4B], by decide⟩, ⟨[0x0D], by decide⟩, ⟨[0x4B], by decide⟩, 0, true⟩, .appended,
        [0x4F]⟩ :=
    LTS.run_of_execRun_guardedBy rfl
  exact ⟨_, hrun, rfl, rfl, rfl, moved_unmoved_addit hrun⟩

/-! ## What a call settles -/

/-- What is moved when the call in progress has made its transfer. -/
def settled (t : Transfer) : List UInt8 :=
  if t.stage = .tried ∨ t.stage = .sized then t.moved ++ t.data.main.bytes else t.moved

theorem settled_of_outside (h : t.stage = .outside) : t.settled = t.moved := by
  unfold settled
  rw [h]
  exact if_neg (by decide)

/-- Beginning a call adds what is in `main`. -/
theorem settled_mutexTry (hstep : t.step .mutexTry = some u) :
    u.settled = t.settled ++ t.data.main.bytes := by
  obtain ⟨hstage, hstep⟩ := Option.ite_none_right_eq_some.mp hstep
  obtain rfl := Option.some.inj hstep
  rw [settled_of_outside hstage]
  exact if_pos (.inl rfl)

/-- **No other step changes what is settled**: while the mutex is busy the interrupt does not
touch `main`. -/
theorem settled_step {op : Op} (hlocked : t.data.busy = decide (t.stage ≠ .outside))
    (hfits : Fits t op) (hop : op ≠ .mutexTry) (hstep : t.step op = some u) :
    u.settled = t.settled := by
  cases op with
  | receive symbol =>
      obtain rfl := Option.some.inj hstep
      by_cases hstage : t.stage = .outside
      · rw [settled_of_outside hstage, settled_of_outside (by exact hstage), moved, moved,
          (callbackOnReceive_frame t.data symbol).1]
      · have hbusy : t.data.busy = true := by
          rw [hlocked]
          exact decide_eq_true hstage
        rw [callbackOnReceive_of_busy symbol hbusy]
        rfl
  | mutexTry => exact absurd rfl hop
  | sizeTest =>
      obtain ⟨hstage, hstep⟩ := Option.ite_none_right_eq_some.mp hstep
      obtain rfl := Option.some.inj hstep
      have hbefore : t.settled = t.moved ++ t.data.main.bytes := if_pos (.inl hstage)
      rw [hbefore]
      by_cases hsize : t.data.main.size ≠ 0
      · rw [if_pos hsize]
        exact if_pos (.inr rfl)
      · -- nothing to move
        have hnil : t.data.main.bytes = [] := by
          simpa using hsize
        rw [if_neg hsize, hnil, List.append_nil]
        exact if_neg (by simp)
  | append =>
      have hmoved := moved_append hfits hstep
      obtain ⟨hstage, hstep⟩ := Option.ite_none_right_eq_some.mp hstep
      obtain rfl := Option.some.inj hstep
      have hbefore : t.settled = t.moved ++ t.data.main.bytes := if_pos (.inr hstage)
      rw [hbefore, ← hmoved]
      exact if_neg (by simp)
  | mainClear =>
      obtain ⟨hstage, hstep⟩ := Option.ite_none_right_eq_some.mp hstep
      obtain rfl := Option.some.inj hstep
      have hbefore : t.settled = t.moved := if_neg (by simp [hstage])
      rw [hbefore]
      exact if_neg (by simp)
  | mutexRelease =>
      obtain ⟨hstage, hstep⟩ := Option.ite_none_right_eq_some.mp hstep
      obtain rfl := Option.some.inj hstep
      have hbefore : t.settled = t.moved := if_neg (by simp [hstage])
      rw [hbefore]
      exact if_neg (by simp)
  | removeFirst n =>
      have hmoved := moved_removeFirst hstep
      obtain ⟨hstage, hstep⟩ := Option.ite_none_right_eq_some.mp hstep
      obtain ⟨buffer, hremove, rfl⟩ := Option.map_eq_some_iff.mp hstep
      rw [settled_of_outside hstage, settled_of_outside (by exact hstage), hmoved]

/-- What is settled only grows, and does not change before the next call. -/
theorem settled_run {ops : List Op} {t u : Transfer} {bytes : List UInt8}
    (h : Conserved bytes t)
    (hrun : LTS.Run (LTS.Guarded Fits (LTS.stepOf step)) t ops u) :
    t.settled <+: u.settled ∧ (.mutexTry ∉ ops → u.settled = t.settled) := by
  suffices hall : (∃ bytes, Conserved bytes u) ∧ t.settled <+: u.settled ∧
      (.mutexTry ∉ ops → u.settled = t.settled) from hall.2
  induction hrun with
  | nil => exact ⟨⟨bytes, h⟩, List.prefix_rfl, fun _ => rfl⟩
  | @snoc ops v w op _ hlast ih =>
      obtain ⟨⟨bytes, hv⟩, hprefix, hsame⟩ := ih
      obtain ⟨hfits, hstep⟩ := hlast
      refine ⟨⟨_, hv.step hfits hstep⟩, ?_, fun hnone => ?_⟩
      · by_cases hop : op = .mutexTry
        · subst hop
          rw [settled_mutexTry hstep]
          exact hprefix.trans (List.prefix_append _ _)
        · rwa [settled_step hv.locked hfits hop hstep]
      · rw [List.mem_append, not_or, List.mem_singleton] at hnone
        rw [settled_step hv.locked hfits (Ne.symm hnone.2) hstep]
        exact hsame hnone.1

/-- **A call moves what was received before it** into `buffer`, from where it may have been cut
since, if `addit` is empty when it begins; and, as long as no other call begins, only then.  The
call begins with the first step behind `s`; it has made its transfer in every state `t` outside
of the five steps, the one in which it returns among them. -/
theorem received_moved_iff {before during : List Op} {s : Transfer}
    (hbefore : LTS.Run (LTS.Guarded Fits (LTS.stepOf step)) boot before s)
    (hcall : LTS.Run (LTS.Guarded Fits (LTS.stepOf step)) s (.mutexTry :: during) t)
    (hreturn : t.stage = .outside) :
    (s.data.addit.bytes = [] → received before <+: t.removed ++ t.data.buffer.bytes) ∧
      (.mutexTry ∉ during → received before <+: t.removed ++ t.data.buffer.bytes →
        s.data.addit.bytes = []) := by
  have hs := conserved_run hbefore
  obtain ⟨s', ⟨hfits, hfirst⟩, hrest⟩ := hcall.uncons
  have hstage : s.stage = .outside := (Option.ite_none_right_eq_some.mp hfirst).1
  have hfound : s'.settled = s.moved ++ s.data.main.bytes := by
    rw [settled_mutexTry hfirst, settled_of_outside hstage]
  obtain ⟨hgrows, hsame⟩ := settled_run (hs.step hfits hfirst) hrest
  rw [settled_of_outside hreturn, hfound] at hgrows hsame
  -- what was received before the call
  have horder := hs.order
  rw [unmoved_of_ne (by simp [hstage])] at horder
  show (_ → _ <+: t.moved) ∧ (_ → _ <+: t.moved → _)
  rw [← horder]
  constructor
  · intro haddit
    rwa [haddit, List.append_nil]
  · intro hnone hprefix
    have hlength := hprefix.length_le
    rw [hsame hnone, List.length_append] at hlength
    exact List.eq_nil_of_length_eq_zero (by omega)

/-- The steps of a call that finds something in `main`. -/
def transfer : List Op := [.sizeTest, .append, .mainClear, .mutexRelease]

/-- A `>` that comes while nothing is being moved; the call moves it, and cuts it. -/
theorem received_moved_prompt :
    ∃ s t, LTS.Run (LTS.Guarded Fits (LTS.stepOf step)) boot [.receive 0x3E] s ∧
      LTS.Run (LTS.Guarded Fits (LTS.stepOf step)) s (.mutexTry :: (transfer ++ [.removeFirst 1])) t ∧
      t.stage = .outside ∧ received [.receive 0x3E] <+: t.removed ++ t.data.buffer.bytes := by
  have hbefore : LTS.Run (LTS.Guarded Fits (LTS.stepOf step)) boot [.receive 0x3E]
      ⟨⟨⟨[0x3E], by decide⟩, .clear, .clear, 0, false⟩, .outside, []⟩ :=
    LTS.run_of_execRun_guardedBy rfl
  have hcall : LTS.Run (LTS.Guarded Fits (LTS.stepOf step))
      ⟨⟨⟨[0x3E], by decide⟩, .clear, .clear, 0, false⟩, .outside, []⟩
      (.mutexTry :: (transfer ++ [.removeFirst 1])) ⟨.boot, .outside, [0x3E]⟩ :=
    LTS.run_of_execRun_guardedBy rfl
  exact ⟨_, _, hbefore, hcall, rfl, (received_moved_iff hbefore hcall rfl).1 rfl⟩

/-- **A `>` is left behind.**  It comes while the mutex is busy, and nothing comes after it;
the next call finds `main` empty. -/
theorem not_received_moved_prompt :
    ∃ s t, LTS.Run (LTS.Guarded Fits (LTS.stepOf step)) boot
        [.mutexTry, .receive 0x3E, .sizeTest, .mutexRelease] s ∧
      LTS.Run (LTS.Guarded Fits (LTS.stepOf step)) s [.mutexTry, .sizeTest, .mutexRelease] t ∧
      t.stage = .outside ∧
      ¬ received [.mutexTry, .receive 0x3E, .sizeTest, .mutexRelease] <+:
        t.removed ++ t.data.buffer.bytes := by
  refine ⟨⟨⟨.clear, ⟨[0x3E], by decide⟩, .clear, 0, false⟩, .outside, []⟩,
    ⟨⟨.clear, ⟨[0x3E], by decide⟩, .clear, 0, false⟩, .outside, []⟩,
    LTS.run_of_execRun_guardedBy rfl, LTS.run_of_execRun_guardedBy rfl, rfl, ?_⟩
  decide

/-! ## The transfer as one step

The calls of `InData::update` are runs of the transfer in which the interrupt comes behind
`mutex.Try` only. -/

/-- The interrupts of one stretch. -/
theorem run_receive (data : InData) (stage : Stage) (removed symbols : List UInt8) :
    LTS.Run (LTS.stepOf step) ⟨data, stage, removed⟩ (symbols.map .receive)
      ⟨symbols.foldl callbackOnReceive data, stage, removed⟩ := by
  induction symbols generalizing data with
  | nil => exact LTS.Run.nil
  | cons symbol symbols ih =>
      have hfirst : LTS.Run (LTS.stepOf step) ⟨data, stage, removed⟩ [.receive symbol]
          ⟨data.callbackOnReceive symbol, stage, removed⟩ := LTS.Run.single rfl
      exact hfirst.append (ih _)

/-- **The coarse transfer is a run of the fine one**: `InData::update` puts `moved` into the
buffer and empties `main`. -/
theorem run_transfer (data : InData) (removed during : List UInt8) :
    ∃ ops, received ops = [] ∧ LTS.Run (LTS.stepOf step) ⟨data, .outside, removed⟩
      (.mutexTry :: during.map .receive ++ ops)
      ⟨{ during.foldl callbackOnReceive { data with busy := true } with
          main := .clear
          buffer := (during.foldl callbackOnReceive { data with busy := true }).moved
          busy := false }, .outside, removed⟩ := by
  have htry : LTS.Run (LTS.stepOf step) ⟨data, .outside, removed⟩ [.mutexTry]
      ⟨{ data with busy := true }, .tried, removed⟩ := LTS.Run.single rfl
  have hduring := htry.append (run_receive { data with busy := true } .tried removed during)
  generalize during.foldl callbackOnReceive { data with busy := true } = locked at hduring ⊢
  by_cases hsize : locked.main.size ≠ 0
  · refine ⟨transfer, rfl, hduring.append ?_⟩
    refine LTS.run_of_execRun ?_
    simp only [transfer, LTS.execRun, step, hsize, if_true, Option.bind_some, ne_eq,
      not_false_eq_true, InData.moved]
  · obtain ⟨main, addit, buffer, left, busy⟩ := locked
    obtain rfl : main = .clear := Buffer.bytes_inj (by simpa using hsize)
    refine ⟨[.sizeTest, .mutexRelease], rfl, hduring.append ?_⟩
    exact LTS.run_of_execRun rfl

end Transfer

end USKD
