import USKD.Utils.Burst
import USKD.Utils.Text

/-!
# `HAL::GetUID`

What the device goes by is the checksum of the twelve bytes that the chip is numbered with, in
hexadecimal: it stands in the client id, in the topics and in the messages.  Eight digits hold
every checksum, so that two devices go by the same name exactly if their checksums are the same
(`getUID_eq_iff`).
-/

namespace USKD

/-- A digit of `%X`. -/
def hexDigit (n : ℕ) : UInt8 := .ofNat (if n < 10 then 0x30 + n else 0x37 + n)

/-- The last `count` digits of a number. -/
def hexDigits : ℕ → ℕ → List UInt8
  | 0, _ => []
  | count + 1, n => hexDigits count (n / 16) ++ [hexDigit (n % 16)]

theorem length_hexDigits (count n : ℕ) : (hexDigits count n).length = count := by
  induction count generalizing n with
  | zero => rfl
  | succ count ih => rw [hexDigits, List.length_append, ih, List.length_singleton]

theorem toNat_hexDigit {n : ℕ} (h : n < 16) :
    (hexDigit n).toNat = if n < 10 then 0x30 + n else 0x37 + n := by
  rw [hexDigit, UInt8.toNat_ofNat']
  apply Nat.mod_eq_of_lt
  split <;> omega

/-- A digit is `0` to `9` or `A` to `F`. -/
theorem bounds_of_mem_hexDigits {count n : ℕ} {b : UInt8} (h : b ∈ hexDigits count n) :
    0x30 ≤ b.toNat ∧ b.toNat ≤ 0x46 := by
  induction count generalizing n with
  | zero => exact absurd h List.not_mem_nil
  | succ count ih =>
      rcases List.mem_append.mp h with hfront | hlast
      · exact ih hfront
      · rw [List.mem_singleton.mp hlast, toNat_hexDigit (Nat.mod_lt _ (by decide))]
        split <;> omega

theorem hexDigit_inj {m n : ℕ} (hm : m < 16) (hn : n < 16) :
    hexDigit m = hexDigit n ↔ m = n := by
  rw [← UInt8.toNat_inj, toNat_hexDigit hm, toNat_hexDigit hn]
  constructor
  · intro h
    split at h <;> split at h <;> omega
  · rintro rfl
    rfl

/-- **The digits say the number**, as far as there are digits. -/
theorem hexDigits_inj {count m n : ℕ} :
    hexDigits count m = hexDigits count n ↔ m % 16 ^ count = n % 16 ^ count := by
  induction count generalizing m n with
  | zero => simp [hexDigits, Nat.mod_one]
  | succ count ih =>
      have hdigit : ∀ k : ℕ, k % 16 < 16 := fun k => Nat.mod_lt k (by decide)
      have hsplit : ∀ k : ℕ, k % 16 ^ (count + 1) = k % 16 + 16 * (k / 16 % 16 ^ count) := by
        intro k
        rw [pow_succ', Nat.mod_mul]
      rw [hexDigits, hexDigits, hsplit, hsplit]
      constructor
      · intro h
        obtain ⟨hfront, hlast⟩ := List.append_inj' h rfl
        rw [ih.mp hfront, (hexDigit_inj (hdigit m) (hdigit n)).mp (List.singleton_inj.mp hlast)]
      · intro h
        have hm := hdigit m
        have hn := hdigit n
        have hlast : m % 16 = n % 16 := by omega
        have hfront : m / 16 % 16 ^ count = n / 16 % 16 ^ count := by omega
        rw [ih.mpr hfront, hlast]

/-- `%08X`. -/
def hex (v : UInt32) : List UInt8 := hexDigits 8 v.toNat

theorem hex_inj {v w : UInt32} : hex v = hex w ↔ v = w := by
  have hv : v.toNat % 16 ^ 8 = v.toNat := Nat.mod_eq_of_lt v.toNat_lt
  have hw : w.toNat % 16 ^ 8 = w.toNat := Nat.mod_eq_of_lt w.toNat_lt
  rw [hex, hex, hexDigits_inj, hv, hw, UInt32.toNat_inj]

theorem zero_not_mem_hex (v : UInt32) : 0 ∉ hex v := by
  intro h
  exact absurd (bounds_of_mem_hexDigits h).1 (by decide)

namespace HAL

/-- `HAL::GetUID`, from the bytes at `0x1FFFF7E8`.  The buffer is filled by the first call, and the
bytes do not change. -/
def getUID (bytes : Vector UInt8 12) : Utils.String :=
  ⟨hex (Math.calculateCRC bytes.toList), zero_not_mem_hex _⟩

/-- `HAL::IsLayout`. -/
def isLayout (bytes : Vector UInt8 12) : Bool := (getUID bytes).bytes = ascii "F95562E2"

theorem size_getUID (bytes : Vector UInt8 12) : (getUID bytes).size = 8 :=
  length_hexDigits 8 _

/-- **Two devices go by one name** if and only if their chips have one checksum. -/
theorem getUID_eq_iff (id id' : Vector UInt8 12) :
    getUID id = getUID id' ↔ Math.calculateCRC id.toList = Math.calculateCRC id'.toList := by
  rw [← hex_inj]
  constructor
  · intro h
    exact congrArg Utils.String.bytes h
  · intro h
    exact Utils.String.mk.injEq .. ▸ h

/-- The chip of the board without sensors could have this number. -/
def layout : Vector UInt8 12 := #v[0, 0, 0, 0, 0, 0, 0, 4, 184, 245, 25, 250]

example : isLayout layout := by decide

end HAL

end USKD
