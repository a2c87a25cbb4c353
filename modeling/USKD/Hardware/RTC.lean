import Mathlib.Algebra.Order.Floor.Ring
import Mathlib.Data.Rat.Floor
import Mathlib.Tactic.Linarith
import USKD.Lib.Run
import USKD.Lib.Trace
import USKD.Modem.Parser

/-!
# `HAL_RTC`: the clock of the device

The server tells the time now and then; between two such calls of `SetDateTime` the millisecond
counter has to do.  `Calibrator::Append` compares the counter with the times that have been told and
keeps the ratio of the two in `koeff`; `GetPackedTime` divides by it.

Floats are rationals here and `time_t` is an integer, so that all arithmetic on seconds is exact;
the counter wraps.  A division by zero is `none`.  `mktime` is an argument: any function of the
fields of a `std::tm`.

* The moments that all differences are taken to are those of the first call, never moved forward:
  `tracks_run`.
* `calibrated_iff` says when the calls of `SetDateTime` leave a clock that shows what was set.
* `goes_forward_iff` says when the clock does not run backwards.
-/

namespace USKD

/-- `std::tm`. -/
structure Tm where
  sec : ℤ
  min : ℤ
  hour : ℤ
  mday : ℤ
  mon : ℤ
  year : ℤ
  wday : ℤ
  yday : ℤ
  isdst : ℤ
deriving DecidableEq

/-- `SU::GetWord`: the characters from `posStart` up to `posEnd`, or up to the end of the string. -/
def SU.getWord (string : ℕ → UInt8) (posStart posEnd : ℕ) : List UInt8 :=
  ((List.range (posEnd - posStart)).map fun i => string (posStart + i)).takeWhile (· ≠ 0)

/-- A text of digits stands for a number of as many digits at most. -/
theorem digitsValue_lt (s : List UInt8) : digitsValue s < 10 ^ s.length := by
  have hfold : ∀ (digits : List UInt8) (init k : ℕ), (∀ c ∈ digits, isDigit c) → init < 10 ^ k →
      digits.foldl (fun value c => 10 * value + (c.toNat - 0x30)) init <
        10 ^ (k + digits.length) := by
    intro digits
    induction digits with
    | nil => intro init k _ hinit; exact hinit
    | cons c digits ih =>
        intro init k hdigits hinit
        have hc := hdigits c List.mem_cons_self
        simp only [isDigit, decide_eq_true_eq, UInt8.le_iff_toNat_le, UInt8.reduceToNat] at hc
        have hnext : 10 * init + (c.toNat - 0x30) < 10 ^ (k + 1) := by
          rw [pow_succ]
          omega
        rw [List.foldl_cons, List.length_cons, Nat.add_comm digits.length, ← Nat.add_assoc]
        exact ih _ _ (fun d hd => hdigits d (List.mem_cons_of_mem _ hd)) hnext
  have hlength := (List.takeWhile_prefix isDigit (l := s)).length_le
  have hvalue := hfold (s.takeWhile isDigit) 0 0 (fun c hc => List.mem_takeWhile_imp hc) Nat.one_pos
  rw [Nat.zero_add] at hvalue
  exact hvalue.trans_le (Nat.pow_le_pow_right (by decide) hlength)

/-- **`atoi` of a short word** is an `int`. -/
theorem isSome_atoi_of_short {s : List UInt8} (h : s.length ≤ 9) : (atoi s).isSome := by
  have hbound : ∀ digits : List UInt8, digits.length ≤ 9 → (digitsValue digits : ℤ) < 10 ^ 9 := by
    intro digits hdigits
    have hlt := (digitsValue_lt digits).trans_le (Nat.pow_le_pow_right (by decide) hdigits)
    exact_mod_cast hlt
  have hdrop : (s.dropWhile isSpace).length ≤ 9 := (List.dropWhile_suffix _).length_le.trans h
  unfold atoi
  simp only
  rw [if_pos]
  · rfl
  · split
    · next digits heq =>
        have hdigits := hbound digits (by rw [heq, List.length_cons] at hdrop; omega)
        omega
    · next digits heq =>
        have hdigits := hbound digits (by rw [heq, List.length_cons] at hdrop; omega)
        omega
    · have hdigits := hbound _ hdrop
      omega

/-- The conversion of a `float` to an integer type: the digits behind the point are left out. -/
def truncate (q : ℚ) : ℤ := if 0 ≤ q then ⌊q⌋ else ⌈q⌉

@[simp] theorem truncate_intCast (n : ℤ) : truncate n = n := by
  rw [truncate, Int.floor_intCast, Int.ceil_intCast, ite_self]

theorem truncate_of_nonneg {q : ℚ} (h : 0 ≤ q) : truncate q = ⌊q⌋ := if_pos h

theorem truncate_neg {q : ℚ} (h : 0 ≤ q) : truncate (-q) = -⌊q⌋ := by
  unfold truncate
  split
  · next hneg =>
      obtain rfl : q = 0 := le_antisymm (neg_nonneg.mp hneg) h
      simp
  · exact Int.ceil_neg

/-- `Calibrator::StructTime`. -/
structure HAL_RTC.StructTime where
  counter : UInt32
  unix : ℤ
deriving DecidableEq

/-- The static data of `namespace HAL_RTC` and `HAL_RTC::Calibrator`. -/
structure HAL_RTC where
  timeCounterSet : UInt32
  timeUnixSet : ℤ
  timeFirst : HAL_RTC.StructTime
  timeLast : HAL_RTC.StructTime
  koeff : ℚ
  isSet : Bool
deriving DecidableEq

namespace HAL_RTC

/-- The state at boot. -/
def boot : HAL_RTC := ⟨0, 0, ⟨0, 0⟩, ⟨0, 0⟩, 1, false⟩

/-- `Calibrator::Append`. -/
def append (s : HAL_RTC) (timerCounter : UInt32) (timeUnix : ℤ) : Option HAL_RTC :=
  if s.timeFirst.counter = 0 then
    some { s with
      timeFirst := ⟨timerCounter, timeUnix⟩
      timeCounterSet := timerCounter
      timeUnixSet := timeUnix }
  else
    let timeLast : StructTime := ⟨timerCounter, timeUnix⟩
    let deltaSecCounter : ℚ := (timeLast.counter - s.timeFirst.counter).toNat / 1000
    let deltaSecUnix : ℤ := timeLast.unix - s.timeFirst.unix
    if deltaSecUnix = 0 then none
    else some { s with
      timeLast
      koeff := deltaSecCounter / deltaSecUnix }

/-- The fields that `SetDateTime` reads from `"2023-08-22T09:04:28.8621486+00:00"`.  A word of four
characters is always an `int` (`isSome_atoi_of_short`). -/
def timeNow (string : ℕ → UInt8) : Tm :=
  let number (posStart posEnd : ℕ) : ℤ := (atoi (SU.getWord string posStart posEnd)).getD 0
  { sec := number 17 19
    min := number 14 16
    hour := number 11 13
    mday := number 8 10
    mon := number 5 7 - 1
    year := number 0 4 - 1900
    isdst := 0
    wday := 0
    yday := 0 }

/-- `SetDateTime`. -/
def setDateTime (mktime : Tm → ℤ) (s : HAL_RTC) (timerCounter : UInt32) (string : ℕ → UInt8) :
    Option HAL_RTC :=
  { s with isSet := true }.append timerCounter (mktime (timeNow string))

/-- `time_unix_now` of `GetPackedTime`, which goes to `localtime`. -/
def timeUnixNow (s : HAL_RTC) (timerCounter : UInt32) : Option ℤ :=
  let deltaSec : ℚ := (timerCounter - s.timeCounterSet).toNat / 1000
  if s.koeff = 0 then none else some (s.timeUnixSet + truncate (deltaSec / s.koeff))

/-! ## Calls of `SetDateTime` -/

/-- A call, and the counter at its moment. -/
structure Call where
  counter : UInt32
  string : ℕ → UInt8

/-- The time that is set. -/
def Call.unix (mktime : Tm → ℤ) (call : Call) : ℤ := mktime (timeNow call.string)

def step (mktime : Tm → ℤ) (s : HAL_RTC) (call : Call) : Option HAL_RTC :=
  s.setDateTime mktime call.counter call.string

/-- The calls without those in front at a counter of zero, which are forgotten. -/
def counted (calls : List Call) : List Call := calls.dropWhile (·.counter = 0)

/-- The call that all later ones are compared with. -/
def first (calls : List Call) : Option Call := (counted calls).head?

/-- The counter that the differences are taken to. -/
def reference (calls : List Call) : UInt32 := (first calls).elim 0 Call.counter

/-- Seconds of the counter for one second of the times that are set, from the call `f` to another
one. -/
def ratio (mktime : Tm → ℤ) (f call : Call) : ℚ :=
  ((call.counter - f.counter).toNat / 1000 : ℚ) / (call.unix mktime - f.unix mktime : ℤ)

/-- The coefficient behind the calls: the ratio from the first to the last one. -/
def rate (mktime : Tm → ℤ) (calls : List Call) : ℚ :=
  match counted calls with
  | [] => 1
  | f :: others => others.getLast?.elim 1 (ratio mktime f)

variable {mktime : Tm → ℤ} {s t : HAL_RTC} {calls : List Call} {call f : Call}

theorem counted_of_none (h : first calls = none) : counted calls = [] :=
  List.head?_eq_none_iff.mp h

theorem counted_of_some (h : first calls = some f) : ∃ others, counted calls = f :: others :=
  List.head?_eq_some_iff.mp h

theorem counted_snoc_of_none (h : first calls = none) :
    counted (calls ++ [call]) = counted [call] := by
  rw [counted, List.dropWhile_append, show calls.dropWhile _ = [] from counted_of_none h]
  rfl

theorem counted_snoc_of_some (h : first calls = some f) :
    ∃ others, counted calls = f :: others ∧ counted (calls ++ [call]) = f :: others ++ [call] := by
  obtain ⟨others, hothers⟩ := counted_of_some h
  refine ⟨others, hothers, ?_⟩
  rw [counted, List.dropWhile_append, show calls.dropWhile _ = f :: others from hothers]
  rfl

theorem counter_ne_zero (h : first calls = some f) : f.counter ≠ 0 := by
  have hhead := List.head?_dropWhile_not (fun call : Call => decide (call.counter = 0)) calls
  rw [show (calls.dropWhile _).head? = some f from h] at hhead
  exact of_decide_eq_false hhead

theorem first_snoc_of_some (h : first calls = some f) : first (calls ++ [call]) = some f := by
  obtain ⟨others, -, hsnoc⟩ := @counted_snoc_of_some calls call f h
  rw [first, hsnoc]
  rfl

/-- One call. -/
theorem counted_singleton : call.counter = 0 ∧ counted [call] = [] ∨
    call.counter ≠ 0 ∧ counted [call] = [call] := by
  by_cases hzero : call.counter = 0
  · exact .inl ⟨hzero, List.dropWhile_cons_of_pos (decide_eq_true hzero)⟩
  · exact .inr ⟨hzero, List.dropWhile_cons_of_neg (by simpa using hzero)⟩

theorem reference_snoc_of_none (h : first calls = none) :
    reference (calls ++ [call]) = call.counter := by
  rw [reference, first, counted_snoc_of_none h]
  rcases @counted_singleton call with ⟨hzero, hcounted⟩ | ⟨-, hcounted⟩ <;> rw [hcounted]
  · exact hzero.symm
  · rfl

theorem rate_of_none (h : first calls = none) : rate mktime calls = 1 := by
  rw [rate, counted_of_none h]

theorem rate_snoc_of_none (h : first calls = none) : rate mktime (calls ++ [call]) = 1 := by
  rw [rate, counted_snoc_of_none h]
  rcases @counted_singleton call with ⟨-, hcounted⟩ | ⟨-, hcounted⟩ <;> rw [hcounted]
  rfl

theorem rate_snoc_of_some (h : first calls = some f) :
    rate mktime (calls ++ [call]) = ratio mktime f call := by
  obtain ⟨others, -, hsnoc⟩ := @counted_snoc_of_some calls call f h
  rw [rate, hsnoc, List.cons_append]
  simp only
  rw [List.getLast?_concat, Option.elim_some]

/-! ## What the calls leave -/

/-- **The clock behind its calls.**  All differences are taken to the first one. -/
structure Tracks (mktime : Tm → ℤ) (calls : List Call) (s : HAL_RTC) : Prop where
  counter : s.timeFirst.counter = reference calls
  set : s.timeCounterSet = reference calls
  unix : ∀ f, first calls = some f →
    s.timeFirst.unix = f.unix mktime ∧ s.timeUnixSet = f.unix mktime
  koeff : s.koeff = rate mktime calls

theorem tracks_boot : Tracks mktime [] boot where
  counter := rfl
  set := rfl
  unix _ h := absurd h (by simp [first, counted])
  koeff := rfl

/-- A call without an earlier one to compare it with. -/
theorem Tracks.step_of_none (h : Tracks mktime calls s) (hfirst : first calls = none) :
    ∃ t, step mktime s call = some t ∧ Tracks mktime (calls ++ [call]) t ∧
      t.timeUnixSet = call.unix mktime := by
  have hcounter := h.counter
  rw [reference, hfirst, Option.elim_none] at hcounter
  have hset := @reference_snoc_of_none calls call hfirst
  refine ⟨_, if_pos hcounter, ⟨hset.symm, hset.symm, ?_, ?_⟩, rfl⟩
  · intro f hf
    obtain ⟨others, hothers⟩ := counted_of_some hf
    rw [counted_snoc_of_none hfirst] at hothers
    rcases @counted_singleton call with ⟨-, hcounted⟩ | ⟨-, hcounted⟩
    · exact absurd (hothers.symm.trans hcounted) (by simp)
    · obtain ⟨rfl, -⟩ := List.cons.inj (hothers.symm.trans hcounted)
      exact ⟨rfl, rfl⟩
  · rw [rate_snoc_of_none hfirst, ← @rate_of_none mktime calls hfirst]
    exact h.koeff

/-- A call that is compared with the first one. -/
theorem Tracks.step_of_some (h : Tracks mktime calls s) (hfirst : first calls = some f) :
    step mktime s call =
      if call.unix mktime - f.unix mktime = 0 then none
      else some { s with
        timeLast := ⟨call.counter, call.unix mktime⟩
        koeff := ratio mktime f call
        isSet := true } := by
  obtain ⟨hunix, -⟩ := h.unix f hfirst
  have hcounter := h.counter
  rw [reference, hfirst, Option.elim_some] at hcounter
  have hne : s.timeFirst.counter ≠ 0 := by
    rw [hcounter]
    exact counter_ne_zero hfirst
  rw [step, setDateTime, append, if_neg hne]
  simp only [hcounter, hunix]
  rfl

theorem Tracks.step (h : Tracks mktime calls s) (hstep : step mktime s call = some t) :
    Tracks mktime (calls ++ [call]) t := by
  cases hfirst : first calls with
  | none =>
      obtain ⟨t', hstep', htracks, -⟩ := @Tracks.step_of_none mktime s calls call h hfirst
      obtain rfl := Option.some.inj (hstep'.symm.trans hstep)
      exact htracks
  | some f =>
      rw [h.step_of_some hfirst] at hstep
      split at hstep
      · exact absurd hstep (by simp)
      · obtain rfl := Option.some.inj hstep
        have hsame := @first_snoc_of_some calls call f hfirst
        have hset : reference (calls ++ [call]) = reference calls := by
          rw [reference, reference, hsame, hfirst]
        refine ⟨h.counter.trans hset.symm, h.set.trans hset.symm, ?_, ?_⟩
        · intro f' hf'
          exact h.unix f' (hfirst.trans (hsame.symm.trans hf'))
        · exact (rate_snoc_of_some hfirst).symm

/-- **Behind any calls.** -/
theorem tracks_run (hrun : LTS.Run (LTS.stepOf (HAL_RTC.step mktime)) boot calls s) :
    Tracks mktime calls s := by
  induction hrun with
  | nil => exact tracks_boot
  | snoc _ hlast ih => exact ih.step hlast

/-! ## The clock shows what was set -/

/-- **The clock shows what was set** by the last call: `Append` has not divided by zero, the
coefficient is positive, and `GetPackedTime` at the same moment gives the time back. -/
def ShowsLast (mktime : Tm → ℤ) (pre : List Call) (call : Call) : Prop :=
  ∃ s, LTS.Run (LTS.stepOf (step mktime)) boot (pre ++ [call]) s ∧ 0 < s.koeff ∧
    s.timeUnixNow call.counter = some (call.unix mktime)

/-- The call is at another value of the counter than the first one, and sets a later time. -/
def LaterThanFirst (mktime : Tm → ℤ) (pre : List Call) (call : Call) : Prop :=
  ∀ f, first pre = some f → call.counter ≠ f.counter ∧ f.unix mktime < call.unix mktime

theorem toNat_sub_eq_zero {a b : UInt32} : (a - b).toNat = 0 ↔ a = b := by
  have ha := a.toNat_lt
  have hb := b.toNat_lt
  rw [UInt32.toNat_sub, ← UInt32.toNat_inj]
  omega

/-- The coefficient is positive exactly for a later call. -/
theorem ratio_pos_iff : 0 < ratio mktime f call ↔
    call.counter ≠ f.counter ∧ f.unix mktime < call.unix mktime := by
  have hcounter : (0 : ℚ) ≤ (call.counter - f.counter).toNat / 1000 := by positivity
  have hunix : (0 : ℚ) < (call.unix mktime - f.unix mktime : ℤ) ↔
      f.unix mktime < call.unix mktime := by
    rw [Int.cast_pos]
    omega
  have hzero : (0 : ℚ) < (call.counter - f.counter).toNat / 1000 ↔ call.counter ≠ f.counter := by
    rw [← not_iff_not, not_lt, not_not, ← toNat_sub_eq_zero (a := call.counter), div_nonpos_iff]
    norm_num
  rw [ratio, div_pos_iff, hunix, hzero]
  exact or_iff_left fun h => absurd h.1 (not_lt.mpr hcounter)

/-- **The interpolation identity**: the ratio to the first call leads back to the time set. -/
theorem div_ratio (hcounter : call.counter ≠ f.counter) :
    ((call.counter - f.counter).toNat / 1000 : ℚ) / ratio mktime f call =
      (call.unix mktime - f.unix mktime : ℤ) := by
  have hne : ((call.counter - f.counter).toNat / 1000 : ℚ) ≠ 0 := by
    simpa [toNat_sub_eq_zero] using hcounter
  rw [ratio, div_div_cancel₀ hne]

theorem Tracks.timeUnixNow (h : Tracks mktime calls s) (timerCounter : UInt32)
    (hrate : rate mktime calls ≠ 0) :
    s.timeUnixNow timerCounter = some (s.timeUnixSet +
      truncate ((timerCounter - reference calls).toNat / 1000 / rate mktime calls)) := by
  rw [HAL_RTC.timeUnixNow, h.koeff, h.set, if_neg hrate]

/-- **One call.**  The clock shows what was set, if it has shown what was set before. -/
theorem showsLast_iff (hrun : LTS.Run (LTS.stepOf (step mktime)) boot calls s) :
    ShowsLast mktime calls call ↔ LaterThanFirst mktime calls call := by
  constructor
  · rintro ⟨t, ht, hpos, -⟩ f hfirst
    rw [(tracks_run ht).koeff, rate_snoc_of_some hfirst] at hpos
    exact ratio_pos_iff.mp hpos
  · intro hlater
    have htracks := tracks_run hrun
    cases hfirst : first calls with
    | none =>
        obtain ⟨t, hstep, ht, hunix⟩ := @Tracks.step_of_none mktime s calls call htracks hfirst
        have hrate : rate mktime (calls ++ [call]) = 1 := rate_snoc_of_none hfirst
        refine ⟨t, hrun.exec hstep, ?_, ?_⟩
        · rw [ht.koeff, hrate]
          exact one_pos
        · rw [ht.timeUnixNow call.counter (by rw [hrate]; exact one_ne_zero), hrate,
            reference_snoc_of_none hfirst, hunix]
          simp [truncate]
    | some f =>
        obtain ⟨hcounter, hunix⟩ := hlater f hfirst
        have hstep := @Tracks.step_of_some mktime s calls call f htracks hfirst
        rw [if_neg (by omega)] at hstep
        have ht := htracks.step hstep
        have hrate : rate mktime (calls ++ [call]) = ratio mktime f call := rate_snoc_of_some hfirst
        have hpos : 0 < ratio mktime f call := ratio_pos_iff.mpr ⟨hcounter, hunix⟩
        have hsame := @first_snoc_of_some calls call f hfirst
        refine ⟨_, hrun.exec hstep, hpos, ?_⟩
        rw [ht.timeUnixNow call.counter (by rw [hrate]; exact hpos.ne'), hrate, reference, hsame,
          Option.elim_some, div_ratio hcounter, truncate_intCast, (ht.unix f hsame).2]
        congr 1
        omega

/-- **When the clock shows what was set**, behind every call of a sequence.  Every call that is
compared with the first one is at another value of the counter, and sets a later time. -/
theorem calibrated_iff (mktime : Tm → ℤ) (calls : List Call) :
    Trace.Each (ShowsLast mktime) calls ↔ Trace.Each (LaterThanFirst mktime) calls := by
  induction calls using List.reverseRecOn with
  | nil => exact iff_of_true Trace.each_nil Trace.each_nil
  | append_singleton calls call ih =>
      rw [Trace.each_snoc, Trace.each_snoc, ← ih]
      refine and_congr_right fun heach => ?_
      -- the calls before have been carried out
      obtain ⟨s, hrun⟩ : ∃ s, LTS.Run (LTS.stepOf (step mktime)) boot calls s := by
        rcases List.eq_nil_or_concat' calls with rfl | ⟨before, last, rfl⟩
        · exact ⟨boot, .nil⟩
        · obtain ⟨s, hrun, -⟩ := (Trace.each_snoc.mp heach).2
          exact ⟨s, hrun⟩
      exact showsLast_iff hrun

/-- A text of the server. -/
def text : ℕ → UInt8 := fun i => (ascii "2023-08-22T09:04:28.8621486+00:00").getD i 0

/-- A first call, one second behind the start. -/
def told : Call := ⟨1000, text⟩

/-- **A time that is told twice** is a division by zero. -/
theorem not_calibrated_twice :
    ¬ ∀ (mktime : Tm → ℤ) (calls : List Call), Trace.Each (ShowsLast mktime) calls := by
  intro hall
  let again : Call := ⟨1500, text⟩
  have heach : Trace.Each (ShowsLast Tm.sec) ([told] ++ [again]) := hall _ _
  obtain ⟨s, hrun, -⟩ := (Trace.each_snoc.mp heach).2
  obtain ⟨t, ht, hlast⟩ := hrun.unsnoc
  have hzero := @Tracks.step_of_some _ t [told] again told (tracks_run ht) rfl
  exact absurd (hlast.symm.trans (hzero.trans (if_pos (sub_self _)))) (by simp)

/-! ## The clock does not run backwards -/

/-- The Unix time at `k₂` milliseconds is not earlier than the one at `k₁`. -/
def NotEarlier (s : HAL_RTC) (k₁ k₂ : ℕ) : Prop :=
  ∃ t₁ t₂, s.timeUnixNow (.ofNat k₁) = some t₁ ∧ s.timeUnixNow (.ofNat k₂) = some t₂ ∧ t₁ ≤ t₂

/-- Milliseconds since the first call, as far as the counter shows them. -/
def elapsed (calls : List Call) (k : ℕ) : ℕ := (UInt32.ofNat k - reference calls).toNat

/-- A second of the clock begins behind `d` milliseconds and within `d'`. -/
def Ticks (rate : ℚ) (d d' : ℕ) : Prop := ∃ n : ℕ, (d / 1000 : ℚ) < n * rate ∧ n * rate ≤ d' / 1000

/-- **The clock goes forward** from `k₁` to `k₂`: its rate is positive, and no second of it begins
in what the counter has gone back; or the rate is negative, and none begins in what the counter has
gone on. -/
def Forward (mktime : Tm → ℤ) (calls : List Call) (k₁ k₂ : ℕ) : Prop :=
  0 < rate mktime calls ∧ ¬ Ticks (rate mktime calls) (elapsed calls k₂) (elapsed calls k₁) ∨
    rate mktime calls < 0 ∧ ¬ Ticks (-rate mktime calls) (elapsed calls k₁) (elapsed calls k₂)

/-- A second that has begun shows in the number of whole seconds. -/
theorem not_ticks_iff {rate : ℚ} (hrate : 0 < rate) {d d' : ℕ} :
    ¬ Ticks rate d d' ↔ ⌊(d' / 1000 / rate : ℚ)⌋ ≤ ⌊(d / 1000 / rate : ℚ)⌋ := by
  rw [← not_lt, not_iff_not, Int.lt_iff_add_one_le]
  constructor
  · rintro ⟨n, hlow, hhigh⟩
    have hless : ⌊(d / 1000 / rate : ℚ)⌋ < n := by
      rw [Int.floor_lt, Int.cast_natCast, div_lt_iff₀ hrate]
      exact hlow
    have hle : (n : ℤ) ≤ ⌊(d' / 1000 / rate : ℚ)⌋ := by
      rw [Int.le_floor, Int.cast_natCast, le_div_iff₀ hrate]
      exact hhigh
    omega
  · intro h
    have hnonneg : 0 ≤ ⌊(d / 1000 / rate : ℚ)⌋ := Int.floor_nonneg.mpr (by positivity)
    obtain ⟨n, hn⟩ := Int.eq_ofNat_of_zero_le (show 0 ≤ ⌊(d / 1000 / rate : ℚ)⌋ + 1 by omega)
    refine ⟨n, ?_, ?_⟩
    · rw [← div_lt_iff₀ hrate, ← Int.cast_natCast n, ← Int.floor_lt]
      omega
    · rw [← le_div_iff₀ hrate, ← Int.cast_natCast n, ← Int.le_floor]
      omega

theorem Tracks.notEarlier_iff (htracks : Tracks mktime calls s) {k₁ k₂ : ℕ} :
    s.NotEarlier k₁ k₂ ↔ Forward mktime calls k₁ k₂ := by
  unfold NotEarlier Forward
  rcases lt_trichotomy (rate mktime calls) 0 with hneg | hzero | hpos
  · have hflip : ∀ k, truncate ((UInt32.ofNat k - reference calls).toNat / 1000 /
        rate mktime calls) = -⌊(elapsed calls k / 1000 / -rate mktime calls : ℚ)⌋ := by
      intro k
      rw [← truncate_neg (div_nonneg (by positivity) (by linarith)), ← div_neg, neg_neg]
      rfl
    rw [htracks.timeUnixNow _ hneg.ne, htracks.timeUnixNow _ hneg.ne, hflip, hflip,
      not_ticks_iff (neg_pos.mpr hneg)]
    simp only [Option.some.injEq, exists_and_left, exists_eq_left', hneg, hneg.not_gt, false_and,
      true_and, false_or]
    omega
  · have hnone : ∀ k, s.timeUnixNow k = none := fun k => if_pos (htracks.koeff.trans hzero)
    simp [hnone, hzero]
  · have hfloor : ∀ k, truncate ((UInt32.ofNat k - reference calls).toNat / 1000 /
        rate mktime calls) = ⌊(elapsed calls k / 1000 / rate mktime calls : ℚ)⌋ := fun k =>
      truncate_of_nonneg (div_nonneg (by positivity) hpos.le)
    rw [htracks.timeUnixNow _ hpos.ne', htracks.timeUnixNow _ hpos.ne', hfloor, hfloor,
      not_ticks_iff hpos]
    simp only [Option.some.injEq, exists_and_left, exists_eq_left', hpos, hpos.not_gt, false_and,
      true_and, or_false]
    omega

/-- **When the clock does not run backwards**, behind any calls, between any two moments. -/
theorem goes_forward_iff (hrun : LTS.Run (LTS.stepOf (step mktime)) boot calls s) (k₁ k₂ : ℕ) :
    s.NotEarlier k₁ k₂ ↔ Forward mktime calls k₁ k₂ :=
  (tracks_run hrun).notEarlier_iff

/-- A second call, for which the counter has gone twice as far as the time. -/
def toldAgain : Call :=
  ⟨21000, fun i => (ascii "2023-08-22T09:04:38.0000000+00:00").getD i 0⟩

theorem rate_toldAgain : rate Tm.sec [told, toldAgain] = 2 := by
  have hcounter : (toldAgain.counter - told.counter).toNat = 20000 := by decide
  have hunix : toldAgain.unix Tm.sec - told.unix Tm.sec = 10 := by decide
  show ratio Tm.sec told toldAgain = 2
  rw [ratio, hcounter, hunix]
  norm_num

theorem goes_forward_iff_toldAgain :
    ∃ s, LTS.Run (LTS.stepOf (step Tm.sec)) boot [told, toldAgain] s ∧
      s.NotEarlier 21000 31000 := by
  obtain ⟨s, hstep, htracks, -⟩ := @Tracks.step_of_none Tm.sec boot [] told tracks_boot rfl
  have hagain := @Tracks.step_of_some Tm.sec s [told] toldAgain told htracks rfl
  rw [if_neg (by decide)] at hagain
  have hfirst : LTS.Run (LTS.stepOf (step Tm.sec)) boot [told] s := .single hstep
  have hrun := hfirst.exec hagain
  refine ⟨_, hrun, (goes_forward_iff hrun 21000 31000).mpr (.inl ⟨?_, ?_⟩)⟩
  · rw [List.singleton_append, rate_toldAgain]
    exact two_pos
  · have hbefore : elapsed [told, toldAgain] 21000 = 20000 := by decide
    have hafter : elapsed [told, toldAgain] 31000 = 30000 := by decide
    rw [List.singleton_append, rate_toldAgain, hbefore, hafter]
    rintro ⟨n, hlow, hhigh⟩
    norm_num at hlow hhigh
    linarith

/-- **The clock runs backwards** when the counter comes back to where it was at the first call. -/
theorem not_goes_forward_wrapped :
    ¬ ∀ (mktime : Tm → ℤ) (calls : List Call) (s : HAL_RTC) (k₁ k₂ : ℕ),
        LTS.Run (LTS.stepOf (step mktime)) boot calls s → k₁ ≤ k₂ → s.NotEarlier k₁ k₂ := by
  intro hall
  obtain ⟨s, hstep, htracks, -⟩ := @Tracks.step_of_none Tm.sec boot [] told tracks_boot rfl
  have hforward := htracks.notEarlier_iff.mp
    (hall Tm.sec [told] s (1000 + 4294967295) (1000 + 4294967296) (.single hstep) (by decide))
  have hrate : rate Tm.sec [told] = 1 := rfl
  have hbefore : elapsed [told] (1000 + 4294967295) = 4294967295 := by decide
  have hafter : elapsed [told] (1000 + 4294967296) = 0 := by decide
  rw [List.nil_append, Forward, hrate, hbefore, hafter] at hforward
  rcases hforward with ⟨-, hnone⟩ | ⟨hneg, -⟩
  · exact hnone ⟨1, by norm_num, by norm_num⟩
  · exact absurd hneg (by norm_num)

end HAL_RTC

end USKD
