import Mathlib.RingTheory.Nilpotent.Basic
import USKD.Loader.Staging
import USKD.Modem.Parser
import USKD.Utils.Burst

/-!
# `HandlerBIN`: the file that the loader fetches

The image of the compiler becomes `USKD.frm` on the host: four bytes of version, which is read
from the first line of `common_defines.h`, four bytes of checksum, and the image.  The checksum
is that of the image as it is.  The loader takes it over the image filled up to whole words with
`0xFF`, and these bytes always show: the checksum is odd behind them what it was even in front
of them (`calculateCRC_padded_iff`).
-/

namespace USKD

open NorFlash

namespace HandlerBIN

/-- `Hash`, the copy of `Math::Hash` on the host. -/
def hash (hash : UInt32) (byte : UInt8) : UInt32 :=
  byte.toUInt32 + (hash <<< 6) + (hash <<< 16) - hash

/-- `input_ver >> line`, on the rest of the stream and `line`.  At the end of the stream `line` is
left as it is. -/
def extract : List UInt8 × List UInt8 → List UInt8 × List UInt8
  | (input, line) =>
      match input.dropWhile isSpace with
      | [] => ([], line)
      | b :: rest => ((b :: rest).dropWhile (!isSpace ·), (b :: rest).takeWhile (!isSpace ·))

/-- What is written to `USKD.frm`. -/
def frm (version hash : UInt32) (image : List UInt8) : List UInt8 :=
  (Word.ofUInt32 version).bytes ++ (Word.ofUInt32 hash).bytes ++ image

/-- `main`, from the image and the text of `common_defines.h`. -/
def main (image commonDefines : List UInt8) : Option (List UInt8) :=
  let line := (extract (extract (extract (commonDefines, [])))).2
  (atoi line).map fun version => frm (.ofInt version) (image.foldl hash 0) image

/-- The file carries the checksum of the device. -/
theorem main_eq_some {image commonDefines file : List UInt8}
    (h : main image commonDefines = some file) :
    ∃ version, file = frm version (Math.calculateCRC image) image := by
  obtain ⟨version, -, rfl⟩ := Option.map_eq_some_iff.mp h
  exact ⟨.ofInt version, rfl⟩

/-! ## The parts of the file -/

variable (version crc : UInt32) (image : List UInt8)

theorem take_drop_frm :
    ((frm version crc image).drop 4).take 4 = (Word.ofUInt32 crc).bytes := rfl

theorem drop_frm : (frm version crc image).drop 8 = image := rfl

end HandlerBIN

/-! ## Padding -/

namespace Math

open Horner
open scoped UInt32.CommRing

/-- Twice a number is nilpotent, modulo `2 ^ 32`. -/
theorem isUnit_two_mul_add_one (h : UInt32) : IsUnit (2 * h + 1) := by
  apply IsNilpotent.isUnit_add_one
  refine ⟨32, ?_⟩
  have hzero : (2 : UInt32) ^ 32 = 0 := by decide
  rw [mul_pow, hzero, zero_mul]

/-- One, two or three bytes `0xFF` change the checksum of whatever they stand behind. -/
theorem calculateCRC_append_replicate_iff (data : List UInt8) {n : ℕ} (hn : n < 4) :
    calculateCRC (data ++ List.replicate n 0xFF) = calculateCRC data ↔ n = 0 := by
  rw [calculateCRC_eq_horner, calculateCRC_eq_horner, horner_append]
  generalize horner 65599 UInt8.toUInt32 0 data = h
  have hodd : (65599 - 1) * h + UInt8.toUInt32 0xFF = 2 * (32799 * h + 127) + 1 := by
    have hbyte : UInt8.toUInt32 0xFF = 2 * 127 + 1 := by decide
    have hfactor : (65599 - 1 : UInt32) = 2 * 32799 := by decide
    rw [hbyte, hfactor]
    ring
  have hunit : IsUnit ((65599 - 1) * h + UInt8.toUInt32 0xFF) := by
    rw [hodd]
    exact isUnit_two_mul_add_one _
  rw [horner_replicate_eq_iff hunit]
  -- none of the three power sums vanishes
  obtain rfl | rfl | rfl | rfl : n = 0 ∨ n = 1 ∨ n = 2 ∨ n = 3 := by omega
  · simp
  all_goals decide

/-- **The checksum of the padded image** is that of the image only if nothing was filled in. -/
theorem calculateCRC_padded_iff (data : List UInt8) :
    calculateCRC (Programmer.padded data) = calculateCRC data ↔ data.length % 4 = 0 := by
  rw [Programmer.padded, calculateCRC_append_replicate_iff data (Nat.mod_lt _ (by decide))]
  omega

end Math

end USKD
