import USKD.Lib.Stages
import USKD.Loader.Handshake

/-!
# The file is open, or given up, in time

The loader waits in two state machines with a meter each, `SIM868` up to its limit and `Updater` to
the millisecond before it.  Two states of `Updater` have no meter at all: `IDLE` and
`NEED_SAPBR_3_GPRS` wait for nothing but the next call, so they cost what lies between two polls.

So 820 seconds and two such gaps after `ATE0` the loader has begun the image, has found that there is
none, or has begun again (`opened_in_time`), in every run from boot.  From then on each chunk of the
image has 75 seconds.
-/

namespace USKD

namespace Loader

open NorFlash Stages

/-! ## The stages -/

/-- The states of `SIM868` in their order. -/
def orderSIM868 : List SIM868.State :=
  [.START, .WAIT_ATE0, .WAIT_BAUDRADE, .WAIT_GSMBUSY, .WAIT_CREG_INIT, .WAIT_REGISTRATION,
    .WAIT_IP_INITIAL]

/-- The states of `Updater` in their order. -/
def orderUpdater : List Updater.State :=
  [.IDLE, .NEED_SAPBR_3_GPRS, .NEED_SAPBR_3_APN, .NEED_SAPBR_3_USER, .NEED_SAPBR_3_PWD,
    .NEED_SAPBR_1_1, .NEED_FTPCID, .NEED_FTPSERV, .NEED_FTPUN, .NEED_FTPPW, .NEED_FTPGETPATH,
    .NEED_SET_NAME_FIRMWARE, .NEED_REQUEST_CONNECT, .NEED_WAIT_CONNECT, .GET_BYTES_VER,
    .GET_BYTES_CRC, .GET_BYTES_FIRMWARE, .COMPLETED]

/-- The place of a stage among all of them. -/
def rank (st : Stage) : ℕ :=
  if st.1 = .RUNNING_UPDATER then 7 + orderUpdater.idxOf st.2 else orderSIM868.idxOf st.1

/-- The last moment, by its meter, at which a stage does not give up. -/
def waits : Stage → Option ℕ
  | (.START, _) => none
  | (.WAIT_REGISTRATION, _) => some 60000
  | (.RUNNING_UPDATER, updater) =>
      match updater with
      | .IDLE | .NEED_SAPBR_3_GPRS | .COMPLETED => none
      | .NEED_SAPBR_3_APN | .NEED_SAPBR_3_USER | .NEED_SAPBR_3_PWD | .NEED_SAPBR_1_1
      | .NEED_FTPCID => some 84999
      | .NEED_FTPSERV | .NEED_FTPUN | .NEED_FTPPW | .NEED_FTPGETPATH | .NEED_SET_NAME_FIRMWARE
      | .NEED_REQUEST_CONNECT => some 9999
      | .NEED_WAIT_CONNECT | .GET_BYTES_VER | .GET_BYTES_CRC | .GET_BYTES_FIRMWARE => some 74999
  | _ => some 10000

/-- The meter of the state machine that waits. -/
def meter (s : Loader) : TimeMeterMS :=
  if s.sim868.state = .RUNNING_UPDATER then s.updater.stateMeter else s.sim868.meter

/-- The file is open and its image begun, or there is none. -/
def Late (st : Stage) : Prop :=
  st.1 = .RUNNING_UPDATER ∧ (st.2 = .GET_BYTES_FIRMWARE ∨ st.2 = .COMPLETED)

instance : DecidablePred Late := fun _ => inferInstanceAs (Decidable (_ ∧ _))

/-- How long each stage lasts, by its rank: a stage without a meter until the next poll. -/
def limits (gap : ℕ) : List ℕ :=
  [0, 10000, 10000, 10000, 10000, 60000, 10000, gap, gap, 84999, 84999, 84999, 84999, 84999, 9999,
    9999, 9999, 9999, 9999, 9999, 74999, 74999, 74999]

def limit (gap k : ℕ) : ℕ := (limits gap).getD k 0

variable {gap : ℕ} {st next : Stage}

theorem limit_of_waits {time : ℕ} (h : waits st = some time) (hlate : ¬ Late st) :
    limit gap (rank st) = time := by
  obtain ⟨sim, updater⟩ := st
  cases sim with
  | START => exact absurd h (by simp [waits])
  | RUNNING_UPDATER =>
      cases updater with
      | IDLE | NEED_SAPBR_3_GPRS | COMPLETED => exact absurd h (by simp [waits])
      | GET_BYTES_FIRMWARE => exact absurd ⟨rfl, .inl rfl⟩ hlate
      | _ => exact Option.some.inj h
  | _ => exact Option.some.inj h

theorem limit_of_waits_none (h : waits st = none) (hstart : st.1 ≠ .START) (hlate : ¬ Late st) :
    limit gap (rank st) = gap := by
  obtain ⟨sim, updater⟩ := st
  cases sim with
  | START => exact absurd rfl hstart
  | RUNNING_UPDATER =>
      cases updater with
      | IDLE | NEED_SAPBR_3_GPRS => rfl
      | COMPLETED => exact absurd ⟨rfl, .inr rfl⟩ hlate
      | _ => exact absurd h (by simp [waits])
  | _ => exact absurd h (by simp [waits])

/-- With a meter the gap does not matter. -/
theorem limit_eq_of_waits (h : waits st ≠ none) (hlate : ¬ Late st) (gap : ℕ) :
    limit 0 (rank st) = limit gap (rank st) := by
  obtain ⟨time, htime⟩ := Option.ne_none_iff_exists'.mp h
  rw [limit_of_waits htime hlate, limit_of_waits htime hlate]

theorem limit_zero_le (hstart : st.1 ≠ .START) (hlate : ¬ Late st) :
    limit 0 (rank st) ≤ limit gap (rank st) := by
  by_cases h : waits st = none
  · rw [limit_of_waits_none h hstart hlate]
    exact Nat.zero_le _
  · exact (limit_eq_of_waits h hlate gap).le

theorem le_of_waits {time : ℕ} (h : waits st = some time) : time ≤ 84999 := by
  obtain ⟨sim, updater⟩ := st
  cases sim with
  | START => exact absurd h (by simp [waits])
  | RUNNING_UPDATER =>
      cases updater with
      | IDLE | NEED_SAPBR_3_GPRS | COMPLETED => exact absurd h (by simp [waits])
      | _ => exact (Option.some.inj h) ▸ by decide
  | _ => exact (Option.some.inj h) ▸ by decide

theorem rank_lt (h : ¬ Late st) : rank st < 23 := by
  obtain ⟨sim, updater⟩ := st
  cases sim with
  | RUNNING_UPDATER =>
      cases updater with
      | GET_BYTES_FIRMWARE => exact absurd ⟨rfl, .inl rfl⟩ h
      | COMPLETED => exact absurd ⟨rfl, .inr rfl⟩ h
      | _ => decide
  | _ => cases updater <;> decide

/-- The stages before the image, together. -/
theorem budget_image (gap : ℕ) : budget (limit gap) 23 = 819986 + 2 * gap := by
  simp only [budget, Finset.sum_range_succ, Finset.sum_range_zero, limit, limits,
    List.getD_cons_succ, List.getD_cons_zero]
  omega

/-! ## One answer -/

variable {chip : Chip} {s t : Loader} {now : UInt32} {answer : List UInt8}
  {commands : List Transmit}

/-- The meter of the stage, if it has one, has not run out. -/
def Left (s : Loader) (now : UInt32) : Prop :=
  ∀ time, waits s.stage = some time → (s.meter.elapsedTime now).toNat ≤ time

/-- The meter of the stage, if it has one, was reset at `now`. -/
def Metered (s : Loader) (now : UInt32) : Prop := waits s.stage ≠ none → s.meter = .reset now

/-- **What an answer does** before the image is begun: everything begins again, or there is time left
and a stage with a meter stays, or a later one is entered. -/
inductive Moves (s : Loader) (now : UInt32) (t : Loader) : Prop
  | resets (h : t.sim868.state = .START)
  | stays (hwaits : waits s.stage ≠ none) (hleft : Left s now) (hsame : t = s)
  | goes (hleft : Left s now) (hlater : rank s.stage < rank t.stage) (hmeter : Metered t now)

theorem left_of_lt {time : UInt32} {last : ℕ} (hrunning : s.sim868.state = .RUNNING_UPDATER)
    (hwaits : waits s.stage = some last)
    (h : s.updater.stateMeter.elapsedTime now < time) (hlast : last + 1 = time.toNat) :
    Left s now := by
  intro last' hlast'
  obtain rfl := Option.some.inj (hwaits.symm.trans hlast')
  rw [meter, if_pos hrunning]
  have hlt : (s.updater.stateMeter.elapsedTime now).toNat < time.toNat := h
  omega

theorem left_of_le {time : UInt32} {last : ℕ} (hrunning : s.sim868.state ≠ .RUNNING_UPDATER)
    (hwaits : waits s.stage = some last) (h : s.sim868.meter.elapsedTime now ≤ time)
    (hlast : last = time.toNat) : Left s now := by
  intro last' hlast'
  obtain rfl := Option.some.inj (hwaits.symm.trans hlast')
  rw [meter, if_neg hrunning, hlast]
  exact h

/-- The meter of `SIM868` has run out, or there is time left. -/
theorem meterIsRunningSIM868_left {time : UInt32}
    {body : Loader → Option (List Transmit × Loader)} {r : List Transmit × Loader}
    (h : s.meterIsRunningSIM868 now time body = some r) :
    r = ([], s.reset) ∨ s.sim868.meter.elapsedTime now ≤ time ∧ body s = some r := by
  rw [meterIsRunningSIM868] at h
  split at h
  · exact .inr ⟨‹_›, h⟩
  · exact .inl (Option.some.inj h).symm

/-- A later state of `Updater`. -/
theorem moves_updater (next : Updater.State) (hrunning : t.sim868.state = .RUNNING_UPDATER)
    (hleft : Left s now) (hnext : t.updater.state = next)
    (hlater : rank s.stage < rank (.RUNNING_UPDATER, next))
    (hmeter : waits (.RUNNING_UPDATER, next) ≠ none → t.updater.stateMeter = .reset now) :
    Moves s now t := by
  have hstage : t.stage = (.RUNNING_UPDATER, next) := by rw [stage, hrunning, hnext]
  refine .goes hleft (hstage ▸ hlater) fun hwaits => ?_
  rw [meter, if_pos hrunning]
  exact hmeter (hstage ▸ hwaits)

/-- A later state of `SIM868`. -/
theorem moves_setSIM868 {state : SIM868.State} (hstate : state ≠ .RUNNING_UPDATER)
    (hleft : Left s now) (hlater : rank s.stage < rank (state, s.updater.state)) :
    Moves s now (s.setSIM868 now state) := by
  refine .goes hleft hlater fun _ => ?_
  rw [meter, if_neg (show (s.setSIM868 now state).sim868.state ≠ _ from hstate)]
  rfl

theorem moves_waitOK {time : UInt32} {next : Updater.State} {command : String}
    (hrunning : s.sim868.state = .RUNNING_UPDATER)
    {last : ℕ} (hwaits : waits s.stage = some last) (hlast : last + 1 = time.toNat)
    (hlater : rank s.stage < rank (.RUNNING_UPDATER, next))
    (h : s.waitOK now time answer next command = some (commands, t)) : Moves s now t := by
  rcases meterIsRunning_cases h with h | ⟨htime, h⟩
  · obtain ⟨-, rfl⟩ := Prod.mk.inj h
    exact .resets rfl
  have hleft := left_of_lt hrunning hwaits htime hlast
  split at h
  · obtain ⟨-, rfl⟩ := Prod.mk.inj (Option.some.inj h)
    exact moves_updater next hrunning hleft rfl hlater fun _ => rfl
  · obtain ⟨-, rfl⟩ := Prod.mk.inj (Option.some.inj h)
    exact .stays (by simp [hwaits]) hleft rfl

theorem moves_waitConnect (hrunning : s.sim868.state = .RUNNING_UPDATER)
    (hstate : s.updater.state = .NEED_WAIT_CONNECT)
    (h : s.waitConnect now answer = some (commands, t)) : Moves s now t := by
  have hstage : s.stage = (.RUNNING_UPDATER, .NEED_WAIT_CONNECT) := by rw [stage, hrunning, hstate]
  have hwaits : waits s.stage = some 74999 := by rw [hstage]; rfl
  rcases meterIsRunning_cases h with h | ⟨htime, h⟩
  · obtain ⟨-, rfl⟩ := Prod.mk.inj h
    exact .resets rfl
  have hleft := left_of_lt hrunning hwaits htime rfl
  simp only [Option.bind_eq_bind, Option.bind_eq_some_iff] at h
  obtain ⟨word, -, h⟩ := h
  split at h
  · split at h
    · obtain ⟨-, rfl⟩ := Prod.mk.inj (Option.some.inj h)
      exact moves_updater .GET_BYTES_VER hrunning hleft rfl (by rw [hstage]; decide) fun _ => rfl
    split at h
    · obtain ⟨-, rfl⟩ := Prod.mk.inj (Option.some.inj h)
      exact moves_updater .COMPLETED hrunning hleft rfl (by rw [hstage]; decide) fun hnone =>
        absurd rfl hnone
    · obtain ⟨-, rfl⟩ := Prod.mk.inj (Option.some.inj h)
      exact .stays (by simp [hwaits]) hleft rfl
  · obtain ⟨-, rfl⟩ := Prod.mk.inj (Option.some.inj h)
    exact .stays (by simp [hwaits]) hleft rfl

theorem moves_getBytesVer (hrunning : s.sim868.state = .RUNNING_UPDATER)
    (hstate : s.updater.state = .GET_BYTES_VER)
    (h : s.getBytesVer now = some (commands, t)) : Moves s now t := by
  have hstage : s.stage = (.RUNNING_UPDATER, .GET_BYTES_VER) := by rw [stage, hrunning, hstate]
  have hwaits : waits s.stage = some 74999 := by rw [hstage]; rfl
  rcases meterIsRunning_cases h with h | ⟨htime, h⟩
  · obtain ⟨-, rfl⟩ := Prod.mk.inj h
    exact .resets rfl
  have hleft := left_of_lt hrunning hwaits htime rfl
  simp only at h
  split at h
  · obtain ⟨-, rfl⟩ := Prod.mk.inj (Option.some.inj h)
    exact moves_updater .GET_BYTES_CRC hrunning hleft rfl (by rw [hstage]; decide) fun _ => rfl
  · obtain ⟨-, rfl⟩ := Prod.mk.inj (Option.some.inj h)
    exact .stays (by simp [hwaits]) hleft rfl

theorem moves_getBytesCrc (hrunning : s.sim868.state = .RUNNING_UPDATER)
    (hstate : s.updater.state = .GET_BYTES_CRC)
    (h : s.getBytesCrc now = some (commands, t)) : Moves s now t := by
  have hstage : s.stage = (.RUNNING_UPDATER, .GET_BYTES_CRC) := by rw [stage, hrunning, hstate]
  have hwaits : waits s.stage = some 74999 := by rw [hstage]; rfl
  rcases meterIsRunning_cases h with h | ⟨htime, h⟩
  · obtain ⟨-, rfl⟩ := Prod.mk.inj h
    exact .resets rfl
  have hleft := left_of_lt hrunning hwaits htime rfl
  simp only at h
  split at h
  · obtain ⟨-, rfl⟩ := Prod.mk.inj (Option.some.inj h)
    exact moves_updater .GET_BYTES_FIRMWARE hrunning hleft rfl (by rw [hstage]; decide) fun _ => rfl
  · obtain ⟨-, rfl⟩ := Prod.mk.inj (Option.some.inj h)
    exact .stays (by simp [hwaits]) hleft rfl

/-- **`Updater::Update`** before the image. -/
theorem moves_updateUpdater (hrunning : s.sim868.state = .RUNNING_UPDATER) (hlate : ¬ Late s.stage)
    (h : s.updateUpdater chip now answer = some (commands, t)) : Moves s now t := by
  have hstage : s.stage = (.RUNNING_UPDATER, s.updater.state) := by rw [stage, hrunning]
  unfold updateUpdater at h
  cases hstate : s.updater.state with
  | IDLE =>
      rw [hstate] at h hstage
      obtain ⟨-, rfl⟩ := Prod.mk.inj (Option.some.inj h)
      refine moves_updater .NEED_SAPBR_3_GPRS hrunning ?_ rfl (by rw [hstage]; decide) fun hnone =>
        absurd rfl hnone
      intro time htime
      rw [hstage] at htime
      exact absurd htime (by simp [waits])
  | NEED_SAPBR_3_GPRS =>
      rw [hstate] at h hstage
      obtain ⟨-, rfl⟩ := Prod.mk.inj (Option.some.inj h)
      refine moves_updater .NEED_SAPBR_3_APN hrunning ?_ rfl (by rw [hstage]; decide) fun _ => rfl
      intro time htime
      rw [hstage] at htime
      exact absurd htime (by simp [waits])
  | NEED_WAIT_CONNECT =>
      rw [hstate] at h
      exact moves_waitConnect hrunning hstate h
  | GET_BYTES_VER =>
      rw [hstate] at h
      exact moves_getBytesVer hrunning hstate h
  | GET_BYTES_CRC =>
      rw [hstate] at h
      exact moves_getBytesCrc hrunning hstate h
  | GET_BYTES_FIRMWARE => exact absurd ⟨hrunning, .inl hstate⟩ hlate
  | COMPLETED => exact absurd ⟨hrunning, .inr hstate⟩ hlate
  -- what is left are the states that wait for `OK`
  | _ =>
      rw [hstate] at h hstage
      exact moves_waitOK hrunning (by rw [hstage]; rfl) rfl (by rw [hstage]; decide) h

theorem moves_waitAnswer {expected : String} {next : SIM868.State} {sent : List Transmit}
    (hrunning : s.sim868.state ≠ .RUNNING_UPDATER) (hwaits : waits s.stage = some 10000)
    (hnext : next ≠ .RUNNING_UPDATER) (hlater : rank s.stage < rank (next, s.updater.state))
    (h : s.waitAnswer now answer expected next sent = some (commands, t)) : Moves s now t := by
  rcases meterIsRunningSIM868_left h with h | ⟨htime, h⟩
  · obtain ⟨-, rfl⟩ := Prod.mk.inj h
    exact .resets rfl
  have hleft := left_of_le hrunning hwaits htime rfl
  split at h
  · obtain ⟨-, rfl⟩ := Prod.mk.inj (Option.some.inj h)
    exact moves_setSIM868 hnext hleft hlater
  · obtain ⟨-, rfl⟩ := Prod.mk.inj (Option.some.inj h)
    exact .stays (by simp [hwaits]) hleft rfl

theorem moves_waitRegistration (hstage : s.stage = (.WAIT_REGISTRATION, .IDLE))
    (h : s.dispatch chip now answer = some (commands, t)) : Moves s now t := by
  obtain ⟨hstate, hidle⟩ := Prod.mk.inj hstage
  have hrunning : s.sim868.state ≠ .RUNNING_UPDATER := by rw [hstate]; decide
  have hwaits : waits s.stage = some 60000 := by rw [hstage]; rfl
  unfold dispatch at h
  rw [hstate] at h
  rcases meterIsRunningSIM868_left h with h | ⟨htime, h⟩
  · obtain ⟨-, rfl⟩ := Prod.mk.inj h
    exact .resets rfl
  have hleft := left_of_le hrunning hwaits htime rfl
  simp only [Option.bind_eq_bind, Option.bind_eq_some_iff] at h
  obtain ⟨word, -, h⟩ := h
  split at h
  · obtain ⟨stat, -, h⟩ := Option.bind_eq_some_iff.mp h
    split at h
    · obtain ⟨-, rfl⟩ := Prod.mk.inj (Option.some.inj h)
      exact moves_setSIM868 (by decide) hleft (by rw [hstage, hidle]; decide)
    · obtain ⟨-, rfl⟩ := Prod.mk.inj (Option.some.inj h)
      exact .stays (by simp [hwaits]) hleft rfl
  · obtain ⟨-, rfl⟩ := Prod.mk.inj (Option.some.inj h)
    exact .stays (by simp [hwaits]) hleft rfl

/-- `WAIT_IP_INITIAL` leaves its meter as it is: `IDLE` has none. -/
theorem moves_waitIpInitial (hstage : s.stage = (.WAIT_IP_INITIAL, .IDLE))
    (h : s.dispatch chip now answer = some (commands, t)) : Moves s now t := by
  obtain ⟨hstate, hidle⟩ := Prod.mk.inj hstage
  have hrunning : s.sim868.state ≠ .RUNNING_UPDATER := by rw [hstate]; decide
  have hwaits : waits s.stage = some 10000 := by rw [hstage]; rfl
  unfold dispatch at h
  rw [hstate] at h
  rcases meterIsRunningSIM868_left h with h | ⟨htime, h⟩
  · obtain ⟨-, rfl⟩ := Prod.mk.inj h
    exact .resets rfl
  have hleft := left_of_le hrunning hwaits htime rfl
  simp only [Option.bind_eq_bind, Option.bind_eq_some_iff] at h
  obtain ⟨word, -, h⟩ := h
  split at h
  · obtain ⟨-, rfl⟩ := Prod.mk.inj (Option.some.inj h)
    exact moves_updater .IDLE rfl hleft hidle (by rw [hstage]; decide) fun hnone => absurd rfl hnone
  · obtain ⟨-, rfl⟩ := Prod.mk.inj (Option.some.inj h)
    exact .stays (by simp [hwaits]) hleft rfl

/-- **The `switch` of `SIM868::Update`** before the image. -/
theorem moves_dispatch (hpaired : Paired s.stage) (hstart : s.sim868.state ≠ .START)
    (hlate : ¬ Late s.stage) (h : s.dispatch chip now answer = some (commands, t)) :
    Moves s now t := by
  by_cases hrunning : s.sim868.state = .RUNNING_UPDATER
  · rw [dispatch, hrunning] at h
    exact moves_updateUpdater hrunning hlate h
  have hidle : s.updater.state = .IDLE := hpaired hrunning
  have hstage : s.stage = (s.sim868.state, .IDLE) := by rw [stage, hidle]
  cases hstate : s.sim868.state with
  | START => exact absurd hstate hstart
  | RUNNING_UPDATER => exact absurd hstate hrunning
  | WAIT_REGISTRATION => exact moves_waitRegistration (hstate ▸ hstage) h
  | WAIT_IP_INITIAL => exact moves_waitIpInitial (hstate ▸ hstage) h
  -- what is left are the states that wait for a fixed answer
  | _ =>
      rw [hstate] at hstage
      unfold dispatch at h
      rw [hstate] at h
      exact moves_waitAnswer hrunning (by rw [hstage]; rfl) (by decide)
        (by rw [hstage, hidle]; decide) h

/-- An unsolicited answer has a first word; it resets everything or stores the level. -/
theorem handled_of_processUnsolicited {processed : Bool}
    (h : s.processUnsolicited answer = some (processed, t)) :
    (processed = false → t = s) ∧
      (processed = true → answer ≠ [] ∧
        (t.sim868.state = .START ∨ t.stage = s.stage ∧ t.meter = s.meter)) := by
  simp only [processUnsolicited, Option.bind_eq_bind, Option.bind_eq_some_iff] at h
  obtain ⟨word, hword, h⟩ := h
  split at h
  · rename_i hclosed
    obtain ⟨rfl, rfl⟩ := Prod.mk.inj (Option.some.inj h)
    exact ⟨fun h => absurd h (by simp), fun _ => ⟨by rw [hclosed]; decide, .inl rfl⟩⟩
  split at h
  · rename_i hcsq
    obtain ⟨level, -, h⟩ := Option.bind_eq_some_iff.mp h
    split at h
    · obtain ⟨rfl, rfl⟩ := Prod.mk.inj (Option.some.inj h)
      refine ⟨fun h => absurd h (by simp), fun _ => ⟨?_, .inr ⟨rfl, rfl⟩⟩⟩
      rintro rfl
      rw [hcsq] at hword
      exact absurd hword (by decide)
    · exact absurd h (by simp)
  split at h
  · rename_i hfail
    obtain ⟨rfl, rfl⟩ := Prod.mk.inj (Option.some.inj h)
    exact ⟨fun h => absurd h (by simp), fun _ => ⟨by rw [hfail]; decide, .inl rfl⟩⟩
  split at h
  · rename_i hok
    obtain ⟨rfl, rfl⟩ := Prod.mk.inj (Option.some.inj h)
    exact ⟨fun h => absurd h (by simp), fun _ => ⟨by rw [hok]; decide, .inr ⟨rfl, rfl⟩⟩⟩
  · obtain ⟨rfl, rfl⟩ := Prod.mk.inj (Option.some.inj h)
    exact ⟨fun _ => rfl, fun h => absurd h (by simp)⟩

/-- **The image is not left again**, unless everything begins again. -/
theorem late_of_dispatch (hlate : Late s.stage)
    (h : s.dispatch chip now answer = some (commands, t)) :
    t.sim868.state = .START ∨ Late t.stage := by
  have hrunning : s.sim868.state = .RUNNING_UPDATER := hlate.1
  rw [dispatch, hrunning] at h
  rcases hlate.2 with hstate | hstate
  · have hupdater : s.updater.state = .GET_BYTES_FIRMWARE := hstate
    unfold updateUpdater at h
    rw [hupdater] at h
    rcases meterIsRunning_cases h with h | ⟨-, h⟩
    · obtain ⟨-, rfl⟩ := Prod.mk.inj h
      exact .inl rfl
    simp only at h
    split at h
    · simp only [endOfFile, Option.bind_eq_bind, Option.bind_eq_some_iff] at h
      obtain ⟨p, -, q, -, h⟩ := h
      split at h
      · obtain ⟨-, rfl⟩ := Prod.mk.inj (Option.some.inj h)
        exact .inr hlate
      · obtain ⟨-, rfl⟩ := Prod.mk.inj (Option.some.inj h)
        exact .inl rfl
    split at h
    · obtain ⟨p, -, h⟩ := Option.map_eq_some_iff.mp h
      obtain ⟨-, rfl⟩ := Prod.mk.inj h
      exact .inr hlate
    · obtain ⟨-, rfl⟩ := Prod.mk.inj (Option.some.inj h)
      exact .inr hlate
  · have hupdater : s.updater.state = .COMPLETED := hstate
    unfold updateUpdater at h
    rw [hupdater] at h
    obtain ⟨-, rfl⟩ := Prod.mk.inj (Option.some.inj h)
    exact .inr hlate

/-! ## Runs -/

/-- A step, in milliseconds that do not wrap. -/
inductive Call
  | receive (symbol : UInt8)
  | modem (env : Modem.Env)
  | answer (now : ℕ) (answer : List UInt8)
  | copy

/-- The step of the loader; its counter wraps. -/
def Call.op : Call → Op
  | .receive symbol => .receive symbol
  | .modem env => .modem env
  | .answer now answer => .answer (.ofNat now) answer
  | .copy => .copy

/-- The stage waits for an answer. -/
def Waiting (st : Stage) : Prop := st.1 ≠ .START ∧ ¬ Late st

instance : DecidablePred Waiting := fun _ => inferInstanceAs (Decidable (_ ∧ _))

/-- The loader, and the clock since its last `ATE0`. -/
structure Timed where
  loader : Loader
  clock : Clock

namespace Timed

/-- The state at boot. -/
def boot (cells : Memory) : Timed := ⟨Loader.boot cells, .start 0⟩

/-- The clock behind a step that leaves `t`: `ATE0` starts it again. -/
def clockBehind (a : Timed) (t : Loader) : Call → Clock
  | .answer now answer =>
      if a.loader.sim868.state = .START then .start now
      else a.clock.tick now (answer = []) (t.stage ≠ a.loader.stage)
  | .receive _ | .modem _ | .copy => a.clock

/-- One step. -/
def step (chip : Chip) (a : Timed) (c : Call) : Option Timed :=
  (a.loader.next chip c.op).map fun t => ⟨t, a.clockBehind t c⟩

/-- A stage that waits is called in order, and polled at least every `gap` milliseconds. -/
def Polled (gap : ℕ) (a : Timed) : Call → Prop
  | .answer now _ => Waiting a.loader.stage → a.clock.Follows gap now
  | .receive _ | .modem _ | .copy => True

instance (gap : ℕ) (a : Timed) : DecidablePred (Polled gap a)
  | .answer _ _ => inferInstanceAs (Decidable (_ → _))
  | .receive _ | .modem _ | .copy => inferInstanceAs (Decidable True)

/-- **The invariant of a stage that waits**: it is in time, with no wait where there is no meter, and
its meter was reset when it was entered. -/
structure Sound (gap : ℕ) (a : Timed) : Prop where
  inTime : InTime (limit 0) (limit gap) (rank a.loader.stage) a.clock
  meter : Metered a.loader (.ofNat a.clock.entered)

variable {a b : Timed} {c : Call} {time : ℕ}

/-- What the meter shows has passed; without a meter, what lies between two polls. -/
theorem Sound.le_of_left (h : Sound gap a) (hgap : gap ≤ 2 ^ 31) (hwaiting : Waiting a.loader.stage)
    (hnow : a.clock.Follows gap time) (hleft : Left a.loader (.ofNat time)) :
    time ≤ a.clock.entered + limit gap (rank a.loader.stage) := by
  obtain ⟨hstart, hlate⟩ := hwaiting
  obtain ⟨hlow, hhigh⟩ := h.inTime.bounds hnow
  cases hwaits : waits a.loader.stage with
  | none =>
      rw [limit_of_waits_none hwaits hstart hlate] at hhigh ⊢
      omega
  | some last =>
      have hshown := hleft last hwaits
      have hlast := le_of_waits hwaits
      rw [limit_of_waits hwaits hlate] at hhigh ⊢
      rw [h.meter (by simp [hwaits]), TimeMeterMS.toNat_elapsedTime hlow (by omega)] at hshown
      omega

/-- The stage goes on. -/
theorem Sound.stay (h : Sound gap a) {poll : Bool} (hnow : a.clock.called ≤ time)
    (hstage : t.stage = a.loader.stage) (hmeter : t.meter = a.loader.meter)
    (hleft : poll = true → time ≤ a.clock.entered + limit 0 (rank a.loader.stage)) :
    Sound gap ⟨t, a.clock.tick time poll false⟩ := by
  refine ⟨?_, ?_⟩
  · show InTime _ _ (rank t.stage) _
    rw [hstage]
    exact h.inTime.stay hnow hleft
  · intro hsome
    show t.meter = _
    rw [hmeter]
    exact h.meter (hstage ▸ hsome)

/-- A later stage is entered. -/
theorem Sound.go (h : Sound gap a) {poll : Bool} (hnow : a.clock.called ≤ time)
    (hlater : rank a.loader.stage < rank t.stage) (hmeter : Metered t (.ofNat time))
    (hleft : time ≤ a.clock.entered + limit gap (rank a.loader.stage)) :
    Sound gap ⟨t, a.clock.tick time poll true⟩ :=
  ⟨h.inTime.go hnow hleft hlater, hmeter⟩

/-- **The invariant**: `START`, the image, or a stage that waits. -/
structure Timely (gap : ℕ) (a : Timed) : Prop where
  ordered : ∃ sent, Ordered ⟨a.loader, sent⟩
  sound : a.loader.sim868.state = .START ∨ Late a.loader.stage ∨ Sound gap a

theorem timely_boot (cells : Memory) : Timely gap (boot cells) :=
  ⟨⟨[], ordered_boot cells⟩, .inl rfl⟩

/-- `ATE0`. -/
theorem sound_of_start (hstart : s.sim868.state = .START) (hpaired : Paired s.stage)
    (h : s.dispatch chip (.ofNat time) answer = some (commands, t)) :
    Sound gap ⟨t, .start time⟩ := by
  have hidle : s.updater.state = .IDLE := hpaired (show s.sim868.state ≠ _ by rw [hstart]; decide)
  unfold dispatch at h
  rw [hstart] at h
  obtain ⟨-, rfl⟩ := Prod.mk.inj (Option.some.inj h)
  exact ⟨inTime_start _ _ _ _, fun _ => rfl⟩

/-- **An answer.** -/
theorem Timely.updateSIM868 (h : Timely gap a) (hgap : gap ≤ 2 ^ 31)
    (hpolled : Polled gap a (.answer time answer))
    (hstep : a.loader.updateSIM868 chip (.ofNat time) answer = some (commands, t)) :
    t.sim868.state = .START ∨ Late t.stage ∨
      Sound gap ⟨t, a.clockBehind t (.answer time answer)⟩ := by
  obtain ⟨sent, hordered⟩ := h.ordered
  have hpaired : Paired a.loader.stage := hordered.scripted.paired
  simp only [Loader.updateSIM868, Option.bind_eq_bind, Option.bind_eq_some_iff] at hstep
  obtain ⟨⟨processed, u⟩, hanswer, hstep⟩ := hstep
  obtain ⟨hpass, hhandled⟩ := handled_of_processUnsolicited hanswer
  by_cases hstart : a.loader.sim868.state = .START
  · cases processed with
    | true =>
        obtain ⟨-, rfl⟩ := Prod.mk.inj (Option.some.inj hstep)
        rcases (hhandled rfl).2 with hreset | ⟨hstage, -⟩
        · exact .inl hreset
        · exact .inl ((congrArg Prod.fst hstage).trans hstart)
    | false =>
        obtain rfl := hpass rfl
        refine .inr (.inr ?_)
        rw [clockBehind, if_pos hstart]
        exact sound_of_start hstart hpaired hstep
  rw [clockBehind, if_neg hstart]
  by_cases hlate : Late a.loader.stage
  · cases processed with
    | true =>
        obtain ⟨-, rfl⟩ := Prod.mk.inj (Option.some.inj hstep)
        rcases (hhandled rfl).2 with hreset | ⟨hstage, -⟩
        · exact .inl hreset
        · exact .inr (.inl (hstage ▸ hlate))
    | false =>
        obtain rfl := hpass rfl
        rcases late_of_dispatch hlate hstep with hreset | hlate
        · exact .inl hreset
        · exact .inr (.inl hlate)
  have hsound := (h.sound.resolve_left hstart).resolve_left hlate
  have hwaiting : Waiting a.loader.stage := ⟨hstart, hlate⟩
  have hnow := hpolled hwaiting
  cases processed with
  | true =>
      obtain ⟨-, rfl⟩ := Prod.mk.inj (Option.some.inj hstep)
      obtain ⟨hne, hreset | ⟨hstage, hmeter⟩⟩ := hhandled rfl
      · exact .inl hreset
      · refine .inr (.inr ?_)
        rw [decide_eq_false hne, decide_eq_false (not_not.mpr hstage)]
        exact hsound.stay hnow.1 hstage hmeter fun h => absurd h (by simp)
  | false =>
      obtain rfl := hpass rfl
      cases moves_dispatch hpaired hstart hlate hstep with
      | resets hreset => exact .inl hreset
      | stays hwaits hleft hsame =>
          subst hsame
          refine .inr (.inr ?_)
          rw [decide_eq_false (not_not.mpr (rfl : a.loader.stage = a.loader.stage))]
          refine hsound.stay hnow.1 rfl rfl fun _ => ?_
          rw [limit_eq_of_waits hwaits hlate gap]
          exact hsound.le_of_left hgap hwaiting hnow hleft
      | goes hleft hlater hmeter =>
          refine .inr (.inr ?_)
          have hne : t.stage ≠ a.loader.stage := by
            intro hsame
            rw [hsame] at hlater
            exact absurd hlater (Nat.lt_irrefl _)
          rw [decide_eq_true hne]
          exact hsound.go hnow.1 hlater hmeter (hsound.le_of_left hgap hwaiting hnow hleft)

/-- A step that leaves the stage, its meter and the clock alone. -/
theorem Timely.same (h : Timely gap a) (hstage : t.stage = a.loader.stage)
    (hmeter : t.meter = a.loader.meter) :
    t.sim868.state = .START ∨ Late t.stage ∨ Sound gap ⟨t, a.clock⟩ := by
  rcases h.sound with hstart | hlate | hsound
  · exact .inl ((congrArg Prod.fst hstage).trans hstart)
  · exact .inr (.inl (hstage ▸ hlate))
  · refine .inr (.inr ⟨?_, ?_⟩)
    · show InTime _ _ (rank t.stage) _
      rw [hstage]
      exact hsound.inTime
    · intro hsome
      show t.meter = _
      rw [hmeter]
      exact hsound.meter (hstage ▸ hsome)

/-- **Step lemma.** -/
theorem Timely.step (h : Timely gap a) (hgap : gap ≤ 2 ^ 31) (hpolled : Polled gap a c)
    (hstep : a.step chip c = some b) : Timely gap b := by
  obtain ⟨t, hmap, rfl⟩ := Option.map_eq_some_iff.mp hstep
  obtain ⟨⟨commands, u⟩, hnext, rfl⟩ := Option.map_eq_some_iff.mp hmap
  clear hstep hmap
  obtain ⟨sent, hordered⟩ := h.ordered
  have hordered' : Ordered ⟨u, sent ++ commands⟩ :=
    hordered.step (show Option.map _ (a.loader.step chip c.op) = _ by rw [hnext]; rfl)
  refine ⟨⟨_, hordered'⟩, ?_⟩
  show u.sim868.state = .START ∨ Late u.stage ∨ Sound gap ⟨u, a.clockBehind u c⟩
  cases c with
  | receive symbol =>
      -- the interrupt touches the reader alone
      have hsame : u.stage = a.loader.stage ∧ u.meter = a.loader.meter := by
        have hreceive : a.loader.receive symbol = some (commands, u) := hnext
        unfold Loader.receive at hreceive
        split at hreceive
        · obtain ⟨r, -, hreceive⟩ := Option.map_eq_some_iff.mp hreceive
          obtain ⟨-, rfl⟩ := Prod.mk.inj hreceive
          exact ⟨rfl, rfl⟩
        · obtain ⟨-, rfl⟩ := Prod.mk.inj (Option.some.inj hreceive)
          exact ⟨rfl, rfl⟩
      exact h.same hsame.1 hsame.2
  | modem env =>
      obtain ⟨hcopying, hnext⟩ := Option.ite_none_right_eq_some.mp hnext
      obtain ⟨-, rfl⟩ := Prod.mk.inj (Option.some.inj hnext)
      show (a.loader.updateModem env).sim868.state = _ ∨ _
      unfold updateModem
      cases hcall : (a.loader.modem.update env).2 with
      | reset => exact .inl rfl
      | nothing | inDataUpdate => exact h.same rfl rfl
  | answer now answer =>
      obtain ⟨-, hnext⟩ := Option.ite_none_right_eq_some.mp hnext
      exact h.updateSIM868 hgap hpolled hnext
  | copy =>
      obtain ⟨n, hcopying, hnext⟩ := Option.bind_eq_some_iff.mp hnext
      obtain ⟨v, hround, hnext⟩ := Option.map_eq_some_iff.mp hnext
      obtain ⟨-, rfl⟩ := Prod.mk.inj hnext
      obtain ⟨p, -, hround⟩ := Option.map_eq_some_iff.mp hround
      split at hround
      · subst hround
        have hopened := hordered.copying (by rw [hcopying]; simp)
        exact .inr (.inl ⟨hopened.1, .inr rfl⟩)
      · subst hround
        exact h.same rfl rfl

/-- **The file is open, or given up, in time.**  In every run of the loader that polls the modem in
every `gap`, whatever the modem answers and however often everything begins again: at a poll later
than 820 seconds and two gaps after the last `ATE0`, the image has been begun or the loader is
through, unless everything begins again; and no stage waits for longer than it may. -/
theorem opened_in_time (hgap : gap ≤ 2 ^ 31) {cells : Memory} {cs : List Call}
    (hrun : LTS.Run (LTS.Guarded (Polled gap) (LTS.stepOf (step chip))) (boot cells) cs a)
    (hwaiting : Waiting a.loader.stage) :
    a.clock.polled ≤ a.clock.started + 819986 + 2 * gap ∧
      ∀ last, waits a.loader.stage = some last → a.clock.polled ≤ a.clock.entered + last := by
  have htimely : Timely gap a := by
    refine hrun.invariant (timely_boot cells) ?_
    rintro a c b h ⟨hpolled, hstep⟩
    exact h.step hgap hpolled hstep
  obtain ⟨hstart, hlate⟩ := hwaiting
  have hsound := (htimely.sound.resolve_left hstart).resolve_left hlate
  refine ⟨?_, fun last hlast => ?_⟩
  · have hbudget := hsound.inTime.polled_le (limit_zero_le hstart hlate) (rank_lt hlate)
    rw [budget_image] at hbudget
    omega
  · have hlimit := hsound.inTime.polled
    rwa [limit_of_waits hlast hlate] at hlimit

/-- A modem that answers late: the last poll is the last one that `NEED_SAPBR_3_APN` has time for. -/
def lateAnswers : List Call :=
  (⟨0, false, false⟩ :: Modem.powerUp 0).map .modem ++
    [.answer 4294966296 [], .answer 4294967295 (ascii "OK"), .answer 4294967297 (ascii "RDY"),
      .answer 4294968000 (ascii "OK"), .answer 4294969000 (ascii "OK"),
      .answer 4295020000 (ascii "+CREG: 1"), .answer 4295021000 (ascii "STATE: IP INITIAL"),
      .answer 4295022000 [], .answer 4295023000 [], .answer 4295107999 []]

/-- A modem that answers late, over a wrap of the counter. -/
theorem opened_in_time_lateAnswers : ∃ a,
    LTS.Run (LTS.Guarded (Polled 90000) (LTS.stepOf (step andChip))) (boot fun _ => 0xFF)
      lateAnswers a ∧
      a.loader.stage = (.RUNNING_UPDATER, .NEED_SAPBR_3_APN) ∧
      a.clock.polled ≤ a.clock.started + 819986 + 2 * 90000 ∧
      a.clock.polled ≤ a.clock.entered + 84999 ∧ a.clock.polled = a.clock.entered + 84999 := by
  have hrun : LTS.Run (LTS.Guarded (Polled 90000) (LTS.stepOf (step andChip))) (boot fun _ => 0xFF)
      lateAnswers _ := LTS.run_of_execRun_guardedBy rfl
  obtain ⟨hbudget, hlimit⟩ := opened_in_time (by decide) hrun (by decide)
  exact ⟨_, hrun, rfl, hbudget, hlimit 84999 rfl, rfl⟩

end Timed

end Loader

end USKD
