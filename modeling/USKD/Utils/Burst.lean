import Mathlib.Data.UInt
import USKD.Lib.Horner
import USKD.Utils.Math

/-!
# The checksum detects short bursts

`Math::Hash` multiplies by 65599 and adds the byte, so that `Math::CalculateCRC` is Horner's
scheme at an odd number, modulo `2 ^ 32`.  An odd number is a unit there: what follows a
difference does not take it away.  It remains that no three byte differences, not all zero, make
`65599 ^ 2 * a + 65599 * b + c` zero modulo `2 ^ 32`.

Four bytes are too many for that: four words besides zero have the checksum zero
(`calculateCRC_four_eq_zero_iff`).
-/

namespace USKD.Math

open Horner
open scoped UInt32.CommRing

/-- The two shifts and the subtraction are a multiplication. -/
theorem hash_eq (h : UInt32) (byte : UInt8) : hash h byte = byte.toUInt32 + 65599 * h := by
  apply UInt32.toNat_inj.mp
  have hbyte := byte.toNat_lt
  have hhash := h.toNat_lt
  simp only [hash, UInt32.toNat_add, UInt32.toNat_sub, UInt32.toNat_mul, UInt32.toNat_shiftLeft,
    UInt8.toNat_toUInt32, Nat.shiftLeft_eq, UInt32.reduceToNat, Nat.reduceMod, Nat.reducePow]
  omega

theorem calculateCRC_eq_horner (data : List UInt8) :
    calculateCRC data = horner 65599 UInt8.toUInt32 0 data := by
  have hstep : hash = fun h byte => byte.toUInt32 + 65599 * h := by
    funext h byte
    exact hash_eq h byte
  rw [calculateCRC, hstep]
  rfl

theorem isUnit_multiplier : IsUnit (65599 : UInt32) := by
  apply IsUnit.of_mul_eq_one 2390421439
  decide

/-! ## Three bytes -/

/-- **No small solution.**  Modulo `2 ^ 32` the square of the multiplier is `8261505`.  A
difference in the first byte is therefore made up for by the second one only if it is at most
two, and then it leaves a rest that the third one cannot make up for. -/
theorem no_small_solution {a b c : ℤ} (ha : -255 ≤ a ∧ a ≤ 255) (hb : -255 ≤ b ∧ b ≤ 255)
    (hc : -255 ≤ c ∧ c ≤ 255) (h : (2 ^ 32 : ℤ) ∣ c + 65599 * (b + 65599 * a)) :
    a = 0 ∧ b = 0 ∧ c = 0 := by
  have hzero : 8261505 * a + 65599 * b + c = 0 := by omega
  have hfirst : a = 0 := by
    have hsmall : a = -2 ∨ a = -1 ∨ a = 0 ∨ a = 1 ∨ a = 2 := by omega
    rcases hsmall with rfl | rfl | rfl | rfl | rfl <;> omega
  have hsecond : b = 0 := by omega
  omega

theorem toNat_horner_three (a b c : UInt8) :
    (horner 65599 UInt8.toUInt32 0 [a, b, c]).toNat =
      (c.toNat + 65599 * (b.toNat + 65599 * a.toNat)) % 2 ^ 32 := by
  simp only [horner_cons, horner_nil, UInt32.toNat_add, UInt32.toNat_mul, UInt8.toNat_toUInt32,
    UInt32.reduceToNat]
  omega

/-- **Three bytes have a checksum of their own.** -/
theorem horner_three_inj {a b c a' b' c' : UInt8}
    (h : horner 65599 UInt8.toUInt32 0 [a, b, c] = horner 65599 UInt8.toUInt32 0 [a', b', c']) :
    a = a' ∧ b = b' ∧ c = c' := by
  have hnat := congrArg UInt32.toNat h
  rw [toNat_horner_three, toNat_horner_three] at hnat
  have hbound : ∀ x y : UInt8, -255 ≤ (x.toNat : ℤ) - y.toNat ∧ (x.toNat : ℤ) - y.toNat ≤ 255 := by
    intro x y
    have hx := x.toNat_lt
    have hy := y.toNat_lt
    omega
  obtain ⟨ha, hb, hc⟩ := no_small_solution (hbound a a') (hbound b b') (hbound c c') (by omega)
  simp only [← UInt8.toNat_inj]
  omega

/-- **At most three bytes do**: zeros in front make three of them. -/
theorem horner_inj_of_length_le {us vs : List UInt8} (hlen : us.length = vs.length)
    (hshort : us.length ≤ 3)
    (h : horner 65599 UInt8.toUInt32 0 us = horner 65599 UInt8.toUInt32 0 vs) : us = vs := by
  match us, vs, hlen with
  | [], [], _ => rfl
  | [a], [a'], _ =>
      obtain ⟨-, -, rfl⟩ := @horner_three_inj 0 0 a 0 0 a' h
      rfl
  | [a, b], [a', b'], _ =>
      obtain ⟨-, rfl, rfl⟩ := @horner_three_inj 0 a b 0 a' b' h
      rfl
  | [a, b, c], [a', b', c'], _ =>
      obtain ⟨rfl, rfl, rfl⟩ := horner_three_inj h
      rfl
  | _ :: _ :: _ :: _ :: _, _, _ =>
      simp only [List.length_cons] at hshort
      omega

/-! ## Four bytes -/

/-- The four bytes whose checksum is zero. -/
def silentBytes : List (ℕ × ℕ × ℕ × ℕ) :=
  [(0, 0, 0, 0), (16, 47, 110, 79), (32, 94, 220, 158), (49, 48, 143, 16), (65, 95, 253, 95)]

/-- What the last three of them have to add up to, behind the first one.  Modulo `2 ^ 32` the third
power of the multiplier is `780587199`. -/
def complement (b0 : ℕ) : ℕ := (2 ^ 32 - 780587199 * b0 % 2 ^ 32) % 2 ^ 32

/-- Behind two of them the other two are the digits of what is left. -/
def Completes (b0 b1 : ℕ) : Prop :=
  (complement b0 - 8261505 * b1) / 65599 < 256 → (complement b0 - 8261505 * b1) % 65599 < 256 →
    (b0, b1, (complement b0 - 8261505 * b1) / 65599, (complement b0 - 8261505 * b1) % 65599) ∈
      silentBytes

instance (b0 b1 : ℕ) : Decidable (Completes b0 b1) :=
  inferInstanceAs (Decidable (_ → _ → _))

theorem completes : ∀ b0 < 256, ∀ d < 3, Completes b0 (complement b0 / 8261505 - d) := by
  decide +kernel

/-- **No other four bytes.**  The last two are too small for more than three values of the second
one, so that three times 256 cases are left. -/
theorem silent_of_eq_zero {b0 b1 b2 b3 : ℕ} (h0 : b0 < 256) (h1 : b1 < 256) (h2 : b2 < 256)
    (h3 : b3 < 256) (h : (b3 + 65599 * (b2 + 65599 * (b1 + 65599 * b0))) % 2 ^ 32 = 0) :
    (b0, b1, b2, b3) ∈ silentBytes := by
  have hsum : 8261505 * b1 + 65599 * b2 + b3 = complement b0 := by
    unfold complement
    omega
  have hrest : complement b0 - 8261505 * b1 = 65599 * b2 + b3 := by omega
  obtain ⟨d, hd, hb1⟩ : ∃ d < 3, b1 = complement b0 / 8261505 - d :=
    ⟨complement b0 / 8261505 - b1, by omega, by omega⟩
  have hcompletes := completes b0 h0 d hd
  have hdiv : (65599 * b2 + b3) / 65599 = b2 := by omega
  have hmod : (65599 * b2 + b3) % 65599 = b3 := by omega
  rw [← hb1, Completes, hrest, hdiv, hmod] at hcompletes
  exact hcompletes h2 h3

/-- **The four bytes whose checksum is zero.** -/
theorem calculateCRC_four_eq_zero_iff (b0 b1 b2 b3 : UInt8) :
    calculateCRC [b0, b1, b2, b3] = 0 ↔
      (b0.toNat, b1.toNat, b2.toNat, b3.toNat) ∈ silentBytes := by
  have hvalue : (calculateCRC [b0, b1, b2, b3]).toNat =
      (b3.toNat + 65599 * (b2.toNat + 65599 * (b1.toNat + 65599 * b0.toNat))) % 2 ^ 32 := by
    rw [calculateCRC_eq_horner]
    simp only [horner_cons, horner_nil, UInt32.toNat_add, UInt32.toNat_mul, UInt8.toNat_toUInt32,
      UInt32.reduceToNat]
    omega
  rw [← UInt32.toNat_inj, hvalue, UInt32.toNat_zero]
  refine ⟨silent_of_eq_zero b0.toNat_lt b1.toNat_lt b2.toNat_lt b3.toNat_lt, fun h => ?_⟩
  simp only [silentBytes, List.mem_cons, Prod.mk.injEq, List.not_mem_nil, or_false] at h
  rcases h with h | h | h | h | h <;> obtain ⟨h0, h1, h2, h3⟩ := h <;> rw [h0, h1, h2, h3] <;> rfl

/-- Two fronts of one length under a common tail. -/
theorem calculateCRC_append_inj {us vs : List UInt8} (hlen : us.length = vs.length)
    (tail : List UInt8) :
    calculateCRC (us ++ tail) = calculateCRC (vs ++ tail) ↔ calculateCRC us = calculateCRC vs := by
  simp only [calculateCRC_eq_horner]
  exact horner_window isUnit_multiplier [] tail hlen

/-! ## Bursts -/

/-- Two arrays that differ within three consecutive positions at most. -/
def Burst (xs ys : List UInt8) : Prop :=
  ∃ k, ∀ i, xs[i]? ≠ ys[i]? → k ≤ i ∧ i < k + 3

/-- A burst is a window of three between a common front and a common tail. -/
theorem Burst.window {xs ys : List UInt8} (h : Burst xs ys) :
    ∃ k, xs.take k = ys.take k ∧ (xs.drop k).drop 3 = (ys.drop k).drop 3 := by
  obtain ⟨k, hk⟩ := h
  refine ⟨k, ?_, ?_⟩
  · ext1 i
    by_cases hi : i < k
    · rw [List.getElem?_take_of_lt hi, List.getElem?_take_of_lt hi]
      by_contra hne
      exact absurd (hk i hne).1 (Nat.not_le.mpr hi)
    · rw [List.getElem?_take, List.getElem?_take, if_neg hi, if_neg hi]
  · ext1 i
    simp only [List.getElem?_drop]
    by_contra hne
    have hless := (hk _ hne).2
    omega

/-- **A burst within three bytes changes the checksum.** -/
theorem calculateCRC_ne_of_burst {xs ys : List UInt8} (hlen : xs.length = ys.length)
    (hne : xs ≠ ys) (hburst : Burst xs ys) : calculateCRC xs ≠ calculateCRC ys := by
  intro hcrc
  obtain ⟨k, hfront, htail⟩ := hburst.window
  have hsplit : ∀ zs : List UInt8,
      zs = zs.take k ++ (zs.drop k).take 3 ++ (zs.drop k).drop 3 := by
    intro zs
    rw [List.append_assoc, List.take_append_drop, List.take_append_drop]
  have hwindow : ((xs.drop k).take 3).length = ((ys.drop k).take 3).length := by
    simp only [List.length_take, List.length_drop, hlen]
  rw [calculateCRC_eq_horner, calculateCRC_eq_horner, hsplit xs, hsplit ys, hfront, htail,
    horner_window isUnit_multiplier _ _ hwindow] at hcrc
  have hsame := horner_inj_of_length_le hwindow (List.length_take_le 3 _) hcrc
  exact hne (by rw [hsplit xs, hsplit ys, hfront, htail, hsame])

/-- Two bytes exchanged. -/
theorem calculateCRC_ne_exchanged :
    [0x10, 0x55, 0x53, 0x4B] ≠ ([0x10, 0x53, 0x55, 0x4B] : List UInt8) ∧
      calculateCRC [0x10, 0x55, 0x53, 0x4B] ≠ calculateCRC [0x10, 0x53, 0x55, 0x4B] := by
  have hne : [0x10, 0x55, 0x53, 0x4B] ≠ ([0x10, 0x53, 0x55, 0x4B] : List UInt8) := by decide
  have hburst : Burst [0x10, 0x55, 0x53, 0x4B] [0x10, 0x53, 0x55, 0x4B] := by
    refine ⟨1, fun i hdiff => ?_⟩
    match i with
    | 0 => exact absurd rfl hdiff
    | 1 | 2 | 3 => decide
    | i + 4 => exact absurd rfl hdiff
  exact ⟨hne, calculateCRC_ne_of_burst rfl hne hburst⟩

end USKD.Math
