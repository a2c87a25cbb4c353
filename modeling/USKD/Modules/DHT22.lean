import Mathlib.Algebra.Order.Ring.Int
import Mathlib.Data.UInt
import USKD.Lib.Pulses
import USKD.Lib.Run
import USKD.Lib.Trace

/-!
# `DHT`: temperature and humidity from the sensor

`DHT_getData` asks the sensor by a pulse on its line, waits for the answer, and reads forty bits, each
of which is one if the line was high for longer than it had been low.  Four bytes are the values, the
fifth is their sum.  What an earlier call has found is returned again for a second.

A call samples the line from `line 0` on, behind the request.  Temperature and humidity are in
tenths, which the source multiplies by `0.1f`; its `22.0f` and `66.0f` are 220 and 660.
-/

namespace USKD

/-- `DHT_type`. -/
inductive DHTType
  | DHT11
  | DHT22
deriving DecidableEq

/-- `struct DataDHT`, in tenths. -/
structure DataDHT where
  temperature : ℤ
  humidity : ℤ
deriving DecidableEq

/-- `struct DHT_sensor`, without its pin. -/
structure DHTSensor where
  type : DHTType
  lastPollingTime : UInt32
  lastTemp : ℤ
  lastHum : ℤ
deriving DecidableEq

namespace DHT

open Pulses

/-- `DHT_TIMEOUT`. -/
def TIMEOUT : ℕ := 10000

/-- Where a count ends: the largest `uint16_t`. -/
def COUNT : ℕ := 65535

/-- `DHT_POLLING_INTERVAL_DHT11` and `DHT_POLLING_INTERVAL_DHT22`. -/
def pollingInterval : DHTType → UInt32
  | .DHT11 => 2000
  | .DHT22 => 1000

/-- What is returned when the sensor says nothing. -/
def byDefault : DataDHT := ⟨220, 660⟩

/-- The static `sensor` of `DHT::GetMeasuremets`. -/
def boot : DHTSensor := ⟨.DHT22, 0, 0, 0⟩

/-- What a call finds: `Timer::TimeMS()` in the test and behind it, and the samples of the line. -/
structure Env where
  check : UInt32
  stamp : UInt32
  line : ℕ → Bool

/-- The wait for the line to leave a level, with its `timeout`. -/
def waitWhile (line : ℕ → Bool) (level : Bool) (pos : ℕ) : Option ℕ :=
  wait line level (TIMEOUT + 1) pos

/-- The body of the loop over the bits. -/
def readBit (line : ℕ → Bool) (pos : ℕ) : Bool × ℕ :=
  let (lT, pos) := count line false COUNT pos
  let (hT, pos) := count line true COUNT pos
  (decide (hT > lT), pos)

/-- The loop over the bits of `rawData[a]`. -/
def readByte (line : ℕ → Bool) (pos : ℕ) : UInt8 × ℕ :=
  [7, 6, 5, 4, 3, 2, 1, 0].foldl (fun (s : UInt8 × ℕ) (b : ℕ) =>
    let (bit, pos) := readBit line s.2
    (if bit then s.1 ||| .ofNat (1 <<< b) else s.1, pos)) (0, pos)

/-- The loop over `rawData`. -/
def readBytes (line : ℕ → Bool) : ℕ → ℕ → List UInt8 × ℕ
  | 0, pos => ([], pos)
  | n + 1, pos =>
      let (byte, pos) := readByte line pos
      let (bytes, pos) := readBytes line n pos
      (byte :: bytes, pos)

/-- `((uint16_t)hi << 8) | lo`. -/
def word (hi lo : UInt8) : ℕ := hi.toNat <<< 8 ||| lo.toNat

/-- The conversion of a correct answer. -/
def convert (type : DHTType) (rawData : List UInt8) : DataDHT :=
  let raw (i : ℕ) : UInt8 := rawData.getD i 0
  match type with
  | .DHT22 => {
      humidity := word (raw 0) (raw 1)
      temperature :=
        if raw 2 &&& 0x80 = 0 then word (raw 2) (raw 3)
        else -(word (raw 2 &&& ~~~0x80) (raw 3) : ℤ) }
  | .DHT11 => ⟨10 * (raw 2).toNat, 10 * (raw 0).toNat⟩

/-- The test of the sum. -/
def isCorrect (rawData : List UInt8) : Bool :=
  let raw (i : ℕ) : UInt8 := rawData.getD i 0
  raw 0 + raw 1 + raw 2 + raw 3 == raw 4

/-- Keep what is returned. -/
def keep (sensor : DHTSensor) (data : DataDHT) : DHTSensor :=
  { sensor with lastHum := data.humidity, lastTemp := data.temperature }

/-- `DHT_getData` behind the request: the answer of the sensor. -/
def answer (sensor : DHTSensor) (line : ℕ → Bool) : DataDHT × DHTSensor :=
  match waitWhile line true 0 with
  | none => (byDefault, keep sensor byDefault)
  | some pos =>
      match waitWhile line false pos with
      | none => (byDefault, keep sensor byDefault)
      | some pos =>
          match waitWhile line true pos with
          -- here nothing is kept
          | none => (byDefault, sensor)
          | some pos =>
              let rawData := (readBytes line 5 pos).1
              let data := if isCorrect rawData then convert sensor.type rawData else byDefault
              (data, keep sensor data)

/-- The answer of an earlier call is returned again. -/
def IsRecent (sensor : DHTSensor) (check : UInt32) : Prop :=
  check - sensor.lastPollingTime < pollingInterval sensor.type ∧ sensor.lastPollingTime ≠ 0

instance (sensor : DHTSensor) (check : UInt32) : Decidable (IsRecent sensor check) :=
  inferInstanceAs (Decidable (_ ∧ _))

/-- `DHT_getData`. -/
def getData (sensor : DHTSensor) (env : Env) : DataDHT × DHTSensor :=
  if IsRecent sensor env.check then (⟨sensor.lastTemp, sensor.lastHum⟩, sensor)
  else answer { sensor with lastPollingTime := env.stamp + 1 } env.line

/-- `DHT::GetMeasuremets`. -/
def getMeasuremets (isLayout : Bool) (sensor : DHTSensor) (env : Env) : DataDHT × DHTSensor :=
  if isLayout then (byDefault, sensor) else getData sensor env

/-! ## The bits of an answer -/

/-- A byte as it is sent, the highest bit first. -/
def bits (x : UInt8) : List Bool := [7, 6, 5, 4, 3, 2, 1, 0].map x.toNat.testBit

/-- A pulse is one if it is high for longer than it has been low. -/
def isOne (p : Pulse) : Bool := decide (p.low < p.high)

variable {line : ℕ → Bool} {pos : ℕ} {ps : List Pulse}

/-- A bit is read from its second sample on. -/
theorem readBit_of_carries {p : Pulse} (h : Carries line pos (p :: ps))
    (hps : ∀ q ∈ p :: ps, q.Counted COUNT) :
    readBit line (pos + 1) = (isOne p, pos + p.low + p.high + 1) := by
  have hp := hps p List.mem_cons_self
  have hlow := hp.low_pos
  have hhigh := hp.high_pos
  have hmore : p.high - 1 > p.low - 1 ↔ p.low < p.high := by omega
  simp only [readBit, count_low h hp, count_high h hps, isOne, hmore]

/-- The bits of a byte, put together again. -/
theorem foldl_testBit (x : UInt8) :
    [7, 6, 5, 4, 3, 2, 1, 0].foldl
      (fun (raw : UInt8) (b : ℕ) => if x.toNat.testBit b then raw ||| .ofNat (1 <<< b) else raw) 0 =
        x := by
  have hall : ∀ n < 256, [7, 6, 5, 4, 3, 2, 1, 0].foldl (fun (raw : UInt8) (b : ℕ) =>
      if (UInt8.ofNat n).toNat.testBit b then raw ||| .ofNat (1 <<< b) else raw) 0 = .ofNat n := by
    decide +kernel
  have hx := hall x.toNat x.toNat_lt
  rwa [UInt8.ofNat_toNat] at hx

/-- **A byte is read.** -/
theorem readByte_of_carries {x : UInt8} {front : List Pulse} (h : Carries line pos (front ++ ps))
    (hps : ∀ q ∈ front ++ ps, q.Counted COUNT) (hbits : front.map isOne = bits x) :
    ∃ next, readByte line (pos + 1) = (x, next + 1) ∧ Carries line next ps := by
  -- the loop over any of the bits
  have hloop : ∀ (bs : List ℕ) (raw : UInt8) (pos : ℕ) (front : List Pulse),
      Carries line pos (front ++ ps) → (∀ q ∈ front ++ ps, q.Counted COUNT) →
      front.map isOne = bs.map x.toNat.testBit →
      ∃ next, bs.foldl (fun (s : UInt8 × ℕ) (b : ℕ) =>
          let (bit, pos) := readBit line s.2
          (if bit then s.1 ||| .ofNat (1 <<< b) else s.1, pos)) (raw, pos + 1) =
        (bs.foldl (fun (raw : UInt8) (b : ℕ) =>
          if x.toNat.testBit b then raw ||| .ofNat (1 <<< b) else raw) raw, next + 1) ∧
        Carries line next ps := by
    intro bs
    induction bs with
    | nil =>
        intro raw pos front hcarries _ hvalues
        obtain rfl : front = [] := List.map_eq_nil_iff.mp hvalues
        exact ⟨pos, rfl, hcarries⟩
    | cons b bs ih =>
        intro raw pos front hcarries hcounted hvalues
        obtain ⟨p, front, rfl, hp, hvalues⟩ := List.map_eq_cons_iff.mp hvalues
        rw [List.foldl_cons, List.foldl_cons]
        simp only [readBit_of_carries hcarries hcounted, hp]
        exact ih _ _ front hcarries.2.2
          (fun q hq => hcounted q (List.mem_cons_of_mem p hq)) hvalues
  obtain ⟨next, hread, hrest⟩ := hloop [7, 6, 5, 4, 3, 2, 1, 0] 0 pos front h hps hbits
  rw [foldl_testBit] at hread
  exact ⟨next, hread, hrest⟩

/-- **The bytes are read.** -/
theorem readBytes_of_carries {rawData : List UInt8} (h : Carries line pos ps)
    (hps : ∀ q ∈ ps, q.Counted COUNT) (hbits : ps.map isOne = rawData.flatMap bits) :
    (readBytes line rawData.length (pos + 1)).1 = rawData := by
  induction rawData generalizing pos ps with
  | nil => rfl
  | cons x rawData ih =>
      rw [List.flatMap_cons] at hbits
      obtain ⟨front, ps, rfl, hfront, hrest⟩ := List.map_eq_append_iff.mp hbits
      obtain ⟨next, hread, hcarries⟩ := readByte_of_carries h hps hfront
      have hbehind := ih hcarries (fun q hq => hps q (List.mem_append_right front hq)) hrest
      simp only [List.length_cons, readBytes, hread, hbehind]

/-! ## The answer of the sensor -/

/-- **How the sensor sends some bytes**: it answers the request by a low and a high part, and sends
the bits. -/
structure Frame (rawData : List UInt8) where
  idle : ℕ
  low : ℕ
  high : ℕ
  pulses : List Pulse
  idle_le : idle ≤ TIMEOUT
  low_pos : 0 < low
  low_le : low ≤ TIMEOUT + 1
  high_pos : 0 < high
  high_le : high ≤ TIMEOUT + 1
  counted : ∀ p ∈ pulses, p.Counted COUNT
  bits : pulses.map isOne = rawData.flatMap bits

/-- The line brings the frame. -/
structure Frame.On {rawData : List UInt8} (f : Frame rawData) (line : ℕ → Bool) : Prop where
  idle : Keeps line true 0 f.idle
  low : Keeps line false f.idle f.low
  high : Keeps line true (f.idle + f.low) f.high
  pulses : Carries line (f.idle + f.low + f.high) f.pulses

/-- What is made of five bytes. -/
def told (type : DHTType) (rawData : List UInt8) : DataDHT :=
  if isCorrect rawData then convert type rawData else byDefault

/-- The five bytes on the line, behind the three waits; `none` if one of them gives up. -/
def heard (line : ℕ → Bool) : Option (List UInt8) :=
  (waitWhile line true 0).bind fun pos =>
    (waitWhile line false pos).bind fun pos =>
      (waitWhile line true pos).map fun pos => (readBytes line 5 pos).1

/-- The answer of the sensor breaks off before the data. -/
def breaks (line : ℕ → Bool) : Bool :=
  match waitWhile line true 0 with
  | none => false
  | some pos =>
      match waitWhile line false pos with
      | none => false
      | some pos => (waitWhile line true pos).isNone

variable {rawData : List UInt8} {sensor : DHTSensor} {env : Env}

/-- **What is made of the line**, and kept if the answer does not break off. -/
theorem answer_eq (sensor : DHTSensor) (line : ℕ → Bool) : answer sensor line =
    ((heard line).elim byDefault (told sensor.type),
      if breaks line then sensor
      else keep sensor ((heard line).elim byDefault (told sensor.type))) := by
  unfold answer heard breaks
  cases hfirst : waitWhile line true 0 with
  | none => rfl
  | some pos =>
      cases hsecond : waitWhile line false pos with
      | none => simp [hsecond]
      | some pos =>
          cases hthird : waitWhile line true pos with
          | none => simp [hsecond, hthird]
          | some pos => simp [hsecond, hthird, told]

theorem breaks_of_heard (h : heard line = some rawData) : breaks line = false := by
  unfold breaks
  obtain ⟨pos, hfirst, h⟩ := Option.bind_eq_some_iff.mp h
  obtain ⟨pos', hsecond, h⟩ := Option.bind_eq_some_iff.mp h
  obtain ⟨pos'', hthird, -⟩ := Option.map_eq_some_iff.mp h
  simp [hfirst, hsecond, hthird]

/-- **The frame is read.** -/
theorem heard_of_frame (f : Frame rawData) (hline : f.On line) (hlength : rawData.length = 5) :
    heard line = some rawData := by
  have hidle := f.idle_le
  have hlow := f.low_le
  have hhigh := f.high_le
  have hdown : line f.idle = false := hline.low 0 f.low_pos
  have hup : line (f.idle + f.low) = true := hline.high 0 f.high_pos
  have hdata : line (f.idle + f.low + f.high) = false := hline.pulses.low f.counted
  have hfirst : waitWhile line true 0 = some (f.idle + 1) := by
    rw [waitWhile, wait_of_keeps hline.idle (by rw [Nat.zero_add, hdown]; decide) (by omega),
      Nat.zero_add]
  have hlowsum : f.idle + 1 + (f.low - 1) = f.idle + f.low := by
    have := f.low_pos
    omega
  have hsecond : waitWhile line false (f.idle + 1) = some (f.idle + f.low + 1) := by
    rw [waitWhile, wait_of_keeps hline.low.second (by rw [hlowsum, hup]; decide) (by omega), hlowsum]
  have hhighsum : f.idle + f.low + 1 + (f.high - 1) = f.idle + f.low + f.high := by
    have := f.high_pos
    omega
  have hthird : waitWhile line true (f.idle + f.low + 1) =
      some (f.idle + f.low + f.high + 1) := by
    rw [waitWhile, wait_of_keeps hline.high.second (by rw [hhighsum, hdata]; decide) (by omega),
      hhighsum]
  have hread := readBytes_of_carries hline.pulses f.counted f.bits
  rw [hlength] at hread
  rw [heard, hfirst, Option.bind_some, hsecond, Option.bind_some, hthird, Option.map_some, hread]

/-- What it tells is returned, and kept. -/
theorem answer_of_frame (f : Frame rawData) (hline : f.On line) (hlength : rawData.length = 5) :
    answer sensor line = (told sensor.type rawData, keep sensor (told sensor.type rawData)) := by
  have hheard := heard_of_frame f hline hlength
  rw [answer_eq, breaks_of_heard hheard, hheard]
  rfl

/-! ## What the sensor means -/

/-- **What the sensor measures**, in tenths: sixteen bits of humidity, fifteen of temperature and its
sign. -/
structure Reading where
  temperature : ℤ
  humidity : ℕ
  temperature_lt : temperature.natAbs < 2 ^ 15
  humidity_lt : humidity < 2 ^ 16

namespace Reading

variable (r : Reading)

/-- As it is returned. -/
def data : DataDHT := ⟨r.temperature, r.humidity⟩

/-- The four bytes of the values. -/
def values : List UInt8 :=
  [.ofNat (r.humidity / 256), .ofNat (r.humidity % 256),
    .ofNat (r.temperature.natAbs / 256 + if r.temperature < 0 then 128 else 0),
    .ofNat (r.temperature.natAbs % 256)]

/-- As it is sent. -/
def bytes : List UInt8 := r.values ++ [r.values.sum]

end Reading

theorem word_eq (hi lo : UInt8) : word hi lo = 256 * hi.toNat + lo.toNat := by
  have hlo := lo.toNat_lt
  rw [word, ← Nat.shiftLeft_add_eq_or_of_lt hlo, Nat.shiftLeft_eq]
  omega

/-- The sign of a temperature, and what stands behind it. -/
theorem sign_eq {n : ℕ} (h : n < 128) :
    UInt8.ofNat n &&& 0x80 = 0 ∧ UInt8.ofNat (n + 128) &&& 0x80 ≠ 0 ∧
      UInt8.ofNat (n + 128) &&& ~~~0x80 = .ofNat n := by
  have hall : ∀ n < 128, UInt8.ofNat n &&& 0x80 = 0 ∧ UInt8.ofNat (n + 128) &&& 0x80 ≠ 0 ∧
      UInt8.ofNat (n + 128) &&& ~~~0x80 = .ofNat n := by
    decide +kernel
  exact hall n h

theorem isCorrect_bytes (r : Reading) : isCorrect r.bytes = true := by
  simp [isCorrect, Reading.bytes, Reading.values, UInt8.add_assoc]

/-- **The conversion takes the bytes back to the values.** -/
theorem convert_bytes (r : Reading) : convert .DHT22 r.bytes = r.data := by
  have htemperature := r.temperature_lt
  have hhumidity := r.humidity_lt
  have hbyte : ∀ n < 256, (UInt8.ofNat n).toNat = n := fun n hn => by
    rw [UInt8.toNat_ofNat']
    exact Nat.mod_eq_of_lt hn
  obtain ⟨hplus, hminus, hmagnitude⟩ := sign_eq (show r.temperature.natAbs / 256 < 128 by omega)
  have hhum : (word (.ofNat (r.humidity / 256)) (.ofNat (r.humidity % 256)) : ℤ) = r.humidity := by
    rw [word_eq, hbyte _ (by omega), hbyte _ (by omega)]
    omega
  have habs : (word (.ofNat (r.temperature.natAbs / 256)) (.ofNat (r.temperature.natAbs % 256)) : ℤ) =
      r.temperature.natAbs := by
    rw [word_eq, hbyte _ (by omega), hbyte _ (by omega)]
    omega
  by_cases hneg : r.temperature < 0
  · have hvalues : r.bytes = [.ofNat (r.humidity / 256), .ofNat (r.humidity % 256),
        .ofNat (r.temperature.natAbs / 256 + 128), .ofNat (r.temperature.natAbs % 256),
        r.values.sum] := by
      rw [Reading.bytes, Reading.values, if_pos hneg]
      rfl
    rw [hvalues]
    simp only [convert, List.getD_cons_zero, List.getD_cons_succ, if_neg hminus, hmagnitude, hhum,
      habs, Reading.data]
    congr 1
    omega
  · have hvalues : r.bytes = [.ofNat (r.humidity / 256), .ofNat (r.humidity % 256),
        .ofNat (r.temperature.natAbs / 256), .ofNat (r.temperature.natAbs % 256),
        r.values.sum] := by
      rw [Reading.bytes, Reading.values, if_neg hneg]
      rfl
    rw [hvalues]
    simp only [convert, List.getD_cons_zero, List.getD_cons_succ, if_pos hplus, hhum, habs,
      Reading.data]
    congr 1
    omega

/-- **What the sensor measures is returned**, and kept: whatever temperature and humidity it sends,
below zero too, and however long its pulses are, as long as they can be counted. -/
theorem getData_of_reading (r : Reading) (f : Frame r.bytes) (hline : f.On env.line)
    (htype : sensor.type = .DHT22) (hask : ¬ IsRecent sensor env.check) :
    getData sensor env =
      (r.data, ⟨.DHT22, env.stamp + 1, r.temperature, r.humidity⟩) := by
  have hanswer : answer { sensor with lastPollingTime := env.stamp + 1 } env.line = _ :=
    answer_of_frame f hline rfl
  rw [getData, if_neg hask, hanswer, told, if_pos (isCorrect_bytes r)]
  simp only [htype, convert_bytes]
  rfl

instance (line : ℕ → Bool) (level : Bool) (pos n : ℕ) : Decidable (Keeps line level pos n) :=
  inferInstanceAs (Decidable (∀ k < n, line (pos + k) = level))

instance decidableCarries (line : ℕ → Bool) : ∀ (ps : List Pulse) (pos : ℕ),
    Decidable (Carries line pos ps)
  | [], pos => inferInstanceAs (Decidable (line pos = false))
  | p :: ps, pos =>
      haveI := decidableCarries line ps (pos + p.low + p.high)
      inferInstanceAs (Decidable (Keeps line false pos p.low ∧ Keeps line true (pos + p.low) p.high ∧
        Carries line (pos + p.low + p.high) ps))

/-- 10.1 degrees below zero, and 65.2 percent. -/
def frost : Reading := ⟨-101, 652, by decide, by decide⟩

/-- The pulses of some bytes: two samples low, and one or three high. -/
def pulsesOf (rawData : List UInt8) : List Pulse :=
  (rawData.flatMap bits).map fun bit => ⟨2, if bit then 3 else 1⟩

/-- The answer to the request, and the pulses. -/
def samples (rawData : List UInt8) : List Bool :=
  [true, false, false, true, true] ++ (pulsesOf rawData).flatMap fun p =>
    List.replicate p.low false ++ List.replicate p.high true

/-- The line over these samples, and low behind them. -/
def lineOf (rawData : List UInt8) (i : ℕ) : Bool := (samples rawData).getD i false

/-- The frame on this line. -/
def frameOf (rawData : List UInt8) : Frame rawData where
  idle := 1
  low := 2
  high := 2
  pulses := pulsesOf rawData
  idle_le := by decide
  low_pos := by decide
  low_le := by decide
  high_pos := by decide
  high_le := by decide
  counted p hp := by
    obtain ⟨bit, -, rfl⟩ := List.mem_map.mp hp
    cases bit <;> exact ⟨by decide, by decide, by decide, by decide⟩
  bits := by
    rw [pulsesOf, List.map_map]
    exact (List.map_congr_left fun bit _ => by cases bit <;> rfl).trans (List.map_id _)

theorem getData_frost :
    getData boot ⟨5000, 5000, lineOf frost.bytes⟩ = (⟨-101, 652⟩, ⟨.DHT22, 5001, -101, 652⟩) :=
  getData_of_reading frost (frameOf frost.bytes)
    ⟨by decide, by decide, by decide, by decide +kernel⟩ rfl (by decide)

/-! ## A byte that is misread -/

/-- The bytes are those of the reading but for one. -/
def Misread (r : Reading) (rawData : List UInt8) : Prop :=
  ∃ front x y tail, rawData = front ++ x :: tail ∧ r.bytes = front ++ y :: tail ∧ x ≠ y

theorem isCorrect_iff {rawData : List UInt8} {values : List UInt8} {sum : UInt8}
    (hvalues : values.length = 4) (hraw : rawData = values ++ [sum]) :
    isCorrect rawData = true ↔ values.sum = sum := by
  obtain ⟨a, b, c, d, rfl⟩ : ∃ a b c d, values = [a, b, c, d] := by
    match values, hvalues with
    | [a, b, c, d], _ => exact ⟨a, b, c, d, rfl⟩
  rw [hraw, isCorrect]
  simp [UInt8.add_assoc]

/-- **The sum shows it.** -/
theorem isCorrect_of_misread {r : Reading} (h : Misread r rawData) : isCorrect rawData = false := by
  obtain ⟨front, x, y, tail, hraw, hbytes, hne⟩ := h
  rw [Bool.eq_false_iff, ne_eq]
  rcases List.eq_nil_or_concat tail with rfl | ⟨tail, sum, rfl⟩
  · -- the sum itself
    obtain ⟨hfront, hy⟩ := List.append_inj' hbytes rfl
    rw [isCorrect_iff (hfront ▸ rfl) hraw, ← hfront]
    intro hsum
    exact hne (hsum.symm.trans (List.singleton_inj.mp hy))
  · rw [List.concat_eq_append, ← List.cons_append, ← List.append_assoc] at hraw hbytes
    obtain ⟨hvalues, hsum⟩ := List.append_inj' hbytes rfl
    have hsame : (front ++ x :: tail).length = (front ++ y :: tail).length := by simp
    have hlength : (front ++ x :: tail).length = 4 :=
      hsame.trans (congrArg List.length hvalues).symm
    rw [isCorrect_iff hlength hraw, ← List.singleton_inj.mp hsum, hvalues, List.sum_append,
      List.sum_append, List.sum_cons, List.sum_cons]
    intro heq
    exact hne (add_right_cancel (add_left_cancel heq))

/-- **A byte that is misread is noticed**, whatever it is misread for: nothing of the answer is
believed. -/
theorem getData_of_misread (r : Reading) (hmisread : Misread r rawData) (f : Frame rawData)
    (hline : f.On env.line) (hask : ¬ IsRecent sensor env.check) :
    getData sensor env = (byDefault, { sensor with
      lastPollingTime := env.stamp + 1
      lastTemp := byDefault.temperature
      lastHum := byDefault.humidity }) := by
  have hlength : rawData.length = 5 := by
    obtain ⟨front, x, y, tail, rfl, hbytes, -⟩ := hmisread
    have hsame : (front ++ x :: tail).length = (front ++ y :: tail).length := by simp
    exact hsame.trans (congrArg List.length hbytes).symm
  have hanswer : answer { sensor with lastPollingTime := env.stamp + 1 } env.line = _ :=
    answer_of_frame f hline hlength
  rw [getData, if_neg hask, hanswer, told, isCorrect_of_misread hmisread]
  rfl

/-- One bit of the temperature is lost. -/
def misreadFrost : List UInt8 := [0x02, 0x8C, 0x80, 0x64, 0x73]

theorem getData_misreadFrost :
    getData boot ⟨5000, 5000, lineOf misreadFrost⟩ = (byDefault, ⟨.DHT22, 5001, 220, 660⟩) :=
  getData_of_misread frost ⟨[0x02, 0x8C, 0x80], 0x64, 0x65, [0x73], rfl, by decide, by decide⟩
    (frameOf misreadFrost) ⟨by decide, by decide, by decide, by decide +kernel⟩ (by decide)

/-! ## Runs of polls -/

/-- A call: when it tests the time, when it notes the time, and what it finds on the line. -/
structure Call where
  check : ℕ
  stamp : ℕ
  line : ℕ → Bool

/-- What a call has done: it has asked the sensor, or returned what was kept. -/
inductive Event
  | asked (check stamp : ℕ) (line : ℕ → Bool) (data : DataDHT)
  | cached (check : ℕ) (data : DataDHT)

/-- The sensor, and what has happened. -/
structure Polls where
  sensor : DHTSensor
  history : List Event

namespace Polls

def boot (type : DHTType) : Polls := ⟨⟨type, 0, 0, 0⟩, []⟩

/-- `DHT_getData` is called. -/
def step (p : Polls) (c : Call) : Option Polls :=
  let env : Env := ⟨.ofNat c.check, .ofNat c.stamp, c.line⟩
  let (data, sensor) := getData p.sensor env
  let event : Event :=
    if IsRecent p.sensor env.check then .cached c.check data
    else .asked c.check c.stamp c.line data
  some ⟨sensor, p.history ++ [event]⟩

/-- When the sensor was last asked. -/
def lastStamp (history : List Event) : Option ℕ :=
  (history.filterMap fun
    | .asked _ stamp _ _ => some stamp
    | .cached _ _ => none).getLast?

/-- The last answer that did not break off; the static data are zero before the first one. -/
def lastKept (history : List Event) : DataDHT :=
  ((history.filterMap fun
    | .asked _ _ line data => if breaks line then none else some data
    | .cached _ _ => none).getLast?).getD ⟨0, 0⟩

/-- Time goes on: the request alone takes 18 ms. -/
def InOrder (p : Polls) (c : Call) : Prop :=
  c.check ≤ c.stamp ∧ ∀ stamp ∈ lastStamp p.history, stamp < c.check

/-- **What a call may do**: ask the sensor when the interval is over, or when the time noted had
wrapped to zero, and make of the five bytes on its line what their sum allows; and return what was
kept, as long as the counter shows less than the interval. -/
def Polled (type : DHTType) (pre : List Event) : Event → Prop
  | .asked check _ line data => data = (heard line).elim byDefault (told type) ∧
      ∀ stamp ∈ lastStamp pre,
        stamp + (pollingInterval type).toNat < check ∨ (stamp + 1) % 2 ^ 32 = 0
  | .cached check data => data = lastKept pre ∧
      ∃ stamp ∈ lastStamp pre, (check - (stamp + 1)) % 2 ^ 32 < (pollingInterval type).toNat

/-- **The invariant**: the static data of the sensor are those of the last call that asked it. -/
structure Sound (type : DHTType) (p : Polls) : Prop where
  sensor : p.sensor.type = type
  stamp : p.sensor.lastPollingTime = (lastStamp p.history).elim 0 fun s => .ofNat (s + 1)
  kept : (⟨p.sensor.lastTemp, p.sensor.lastHum⟩ : DataDHT) = lastKept p.history
  polled : Trace.Each (Polled type) p.history

variable {type : DHTType} {p q : Polls} {c : Call}

theorem sound_boot (type : DHTType) : Sound type (boot type) := ⟨rfl, rfl, rfl, Trace.each_nil⟩

/-- What the counter shows, behind the time that was noted. -/
theorem toNat_sub_ofNat {stamp check : ℕ} (h : stamp < check) :
    (UInt32.ofNat check - UInt32.ofNat (stamp + 1)).toNat = (check - (stamp + 1)) % 2 ^ 32 := by
  rw [UInt32.toNat_sub, UInt32.toNat_ofNat', UInt32.toNat_ofNat']
  omega

/-- What was kept is returned. -/
theorem step_of_recent (hrecent : IsRecent p.sensor (.ofNat c.check)) : p.step c =
    some ⟨p.sensor,
      p.history ++ [.cached c.check ⟨p.sensor.lastTemp, p.sensor.lastHum⟩]⟩ := by
  simp only [step, getData, if_pos hrecent]

/-- The sensor is asked. -/
theorem step_of_not_recent {data : DataDHT} {sensor : DHTSensor}
    (hrecent : ¬ IsRecent p.sensor (.ofNat c.check))
    (h : answer { p.sensor with lastPollingTime := .ofNat c.stamp + 1 } c.line = (data, sensor)) :
    p.step c = some ⟨sensor, p.history ++ [.asked c.check c.stamp c.line data]⟩ := by
  simp only [step, getData, if_neg hrecent, h]

theorem Sound.step (h : Sound type p) (horder : InOrder p c) (hstep : p.step c = some q) :
    Sound type q := by
  by_cases hrecent : IsRecent p.sensor (.ofNat c.check)
  · obtain rfl := Option.some.inj ((step_of_recent hrecent).symm.trans hstep)
    refine ⟨h.sensor, ?_, ?_, Trace.each_snoc.mpr ⟨h.polled, h.kept, ?_⟩⟩
    · rw [h.stamp, lastStamp, lastStamp, List.filterMap_append]
      simp
    · rw [h.kept, lastKept, lastKept, List.filterMap_append]
      simp
    · obtain ⟨hless, hne⟩ := hrecent
      rw [h.stamp] at hless hne
      cases hlast : lastStamp p.history with
      | none =>
          rw [hlast] at hne
          exact absurd rfl hne
      | some stamp =>
          rw [hlast, Option.elim_some, h.sensor, UInt32.lt_iff_toNat_lt,
            toNat_sub_ofNat (horder.2 stamp hlast)] at hless
          exact ⟨stamp, rfl, hless⟩
  · obtain ⟨data, sensor, hanswer⟩ : ∃ data sensor,
        answer { p.sensor with lastPollingTime := .ofNat c.stamp + 1 } c.line = (data, sensor) :=
      ⟨_, _, rfl⟩
    obtain rfl := Option.some.inj ((step_of_not_recent hrecent hanswer).symm.trans hstep)
    have hboth := answer_eq { p.sensor with lastPollingTime := .ofNat c.stamp + 1 } c.line
    obtain ⟨hdata, hkeep⟩ := Prod.mk.inj (hanswer.symm.trans hboth)
    rw [← hdata] at hkeep
    simp only [h.sensor] at hdata
    have hstamp : lastStamp (p.history ++ [.asked c.check c.stamp c.line data]) = some c.stamp := by
      rw [lastStamp, List.filterMap_append]
      simp
    refine ⟨?_, ?_, ?_, Trace.each_snoc.mpr ⟨h.polled, hdata, fun stamp hlast => ?_⟩⟩
    · rw [hkeep, ← h.sensor]
      split <;> rfl
    · have hnoted : sensor.lastPollingTime = .ofNat c.stamp + 1 := by
        rw [hkeep]
        split <;> rfl
      rw [hstamp, Option.elim_some, hnoted, UInt32.ofNat_add]
      rfl
    · rw [hkeep, lastKept, List.filterMap_append]
      by_cases hbreaks : breaks c.line = true
      · rw [if_pos hbreaks]
        simpa [hbreaks, lastKept] using h.kept
      · rw [if_neg hbreaks]
        simp [hbreaks, keep]
    · -- the interval is over, or the time noted is zero
      have hlater := horder.2 stamp hlast
      have hnoted := h.stamp
      rw [hlast, Option.elim_some] at hnoted
      rw [IsRecent, not_and_or, hnoted, h.sensor, UInt32.lt_iff_toNat_lt, toNat_sub_ofNat hlater,
        not_lt, not_not] at hrecent
      rcases hrecent with hover | hzero
      · exact .inl (by omega)
      · refine .inr ?_
        have := congrArg UInt32.toNat hzero
        rwa [UInt32.toNat_ofNat'] at this

/-- **The polls of the sensor.**  In every run, at whatever times it is called and whatever is on the
line: the sensor is asked again only when the interval is over, but for the millisecond in which
the time noted wraps; what is returned without asking is what the last answer said that did not
break off; and of what is on the line nothing is returned but five bytes whose sum is right. -/
theorem polled_of_run {cs : List Call}
    (hrun : LTS.Run (LTS.Guarded InOrder (LTS.stepOf step)) (boot type) cs p) :
    Trace.Each (Polled type) p.history := by
  have hsound : Sound type p :=
    hrun.invariant (sound_boot type) fun _ _ _ h hstep => h.step hstep.1 hstep.2
  exact hsound.polled

/-- The sensor is asked, what it has said is returned half a second later, and then it is asked
again and misread. -/
def frosty : List Call :=
  [⟨5000, 5000, lineOf frost.bytes⟩, ⟨5500, 5500, lineOf misreadFrost⟩,
    ⟨7000, 7000, lineOf misreadFrost⟩]

/-- The state of `frosty`. -/
def frosted : Polls :=
  ⟨⟨.DHT22, 7001, 220, 660⟩, [.asked 5000 5000 (lineOf frost.bytes) ⟨-101, 652⟩,
    .cached 5500 ⟨-101, 652⟩, .asked 7000 7000 (lineOf misreadFrost) byDefault]⟩

theorem run_frosty : LTS.Run (LTS.Guarded InOrder (LTS.stepOf step)) (boot .DHT22) frosty
    frosted := by
  have hfirst : step (boot .DHT22) ⟨5000, 5000, lineOf frost.bytes⟩ =
      some ⟨⟨.DHT22, 5001, -101, 652⟩, [.asked 5000 5000 (lineOf frost.bytes) ⟨-101, 652⟩]⟩ :=
    step_of_not_recent (by decide) (by decide +kernel)
  have hasked : LTS.Run (LTS.Guarded InOrder (LTS.stepOf step)) (boot .DHT22)
      [⟨5000, 5000, lineOf frost.bytes⟩] _ := LTS.Run.single
    ⟨⟨Nat.le_refl 5000, fun stamp hstamp => absurd hstamp (by simp [lastStamp, boot])⟩, hfirst⟩
  have hlater : ∀ {now stamp : ℕ}, some 5000 = some stamp → 5000 < now → stamp < now := by
    intro now stamp hstamp hless
    rwa [← Option.some.inj hstamp]
  have hcached := hasked.snoc (l := ⟨5500, 5500, lineOf misreadFrost⟩)
    ⟨⟨Nat.le_refl 5500, fun stamp hstamp => hlater hstamp (by decide)⟩,
      step_of_recent (by decide)⟩
  exact hcached.snoc ⟨⟨Nat.le_refl 7000, fun stamp hstamp => hlater hstamp (by decide)⟩,
    step_of_not_recent (by decide) (by decide +kernel)⟩

theorem polled_frosty : LTS.Run (LTS.Guarded InOrder (LTS.stepOf step)) (boot .DHT22) frosty
    frosted ∧ Trace.Each (Polled .DHT22) frosted.history :=
  ⟨run_frosty, polled_of_run run_frosty⟩

end Polls

end DHT

end USKD
