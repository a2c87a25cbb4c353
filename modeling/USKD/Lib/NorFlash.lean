import Mathlib.Data.List.Basic
import Mathlib.Algebra.Order.Group.Nat

/-!
# NOR flash memory

A flash memory is a map from byte addresses to bytes.  It is changed in two ways
only: a page erase sets every byte of a page to `0xFF`, and a word is programmed
through the controller.  What a controller leaves in a word that was **not**
erased differs between parts, so it is a parameter, `Chip.program`, of which only
the two documented cases are fixed: an erased word takes the value it is given,
and programming zero leaves zero.

`programBytes` is the usual loop that writes a buffer word by word.  The facts the
developments over it need are that it touches nothing outside its range
(`programBytes_of_outside`), that over an erased range it stores the buffer
(`read_programBytes`), and that a buffer may be cut at any word (`programBytes_append`).
`wordsAt` lists the words it programs.
-/

namespace NorFlash

/-- A flash memory: the byte at each address. -/
abbrev Memory := ℕ → UInt8

/-- A 32-bit flash word, as its four bytes in address order. -/
structure Word where
  b0 : UInt8
  b1 : UInt8
  b2 : UInt8
  b3 : UInt8
deriving DecidableEq, Repr

namespace Word

/-- The content of an erased word. -/
def erased : Word := ⟨0xFF, 0xFF, 0xFF, 0xFF⟩

/-- The word all of whose bits are programmed. -/
def zero : Word := ⟨0, 0, 0, 0⟩

/-- The bytes of a word in address order. -/
def bytes (w : Word) : List UInt8 := [w.b0, w.b1, w.b2, w.b3]

@[simp] theorem length_bytes (w : Word) : w.bytes.length = 4 := rfl

theorem bytes_inj {w w' : Word} : w.bytes = w'.bytes ↔ w = w' := by
  cases w
  cases w'
  simp [bytes]

/-- The little-endian value of a word. -/
def toUInt32 (w : Word) : UInt32 :=
  w.b0.toUInt32 + (w.b1.toUInt32 <<< 8) + (w.b2.toUInt32 <<< 16) + (w.b3.toUInt32 <<< 24)

/-- The word that holds a value, least significant byte first. -/
def ofUInt32 (v : UInt32) : Word :=
  ⟨v.toUInt8, (v >>> 8).toUInt8, (v >>> 16).toUInt8, (v >>> 24).toUInt8⟩

theorem ofUInt32_eq_erased_iff (v : UInt32) : ofUInt32 v = erased ↔ v = 0xFFFFFFFF := by
  constructor
  · intro h
    simp only [ofUInt32, erased, Word.mk.injEq, ← UInt8.toNat_inj, ← UInt32.toNat_inj,
      UInt32.toNat_toUInt8, UInt32.toNat_shiftRight] at h ⊢
    have hlt := v.toNat_lt
    simp [Nat.shiftRight_eq_div_pow] at h ⊢
    omega
  · rintro rfl
    decide

/-- The value of a word, byte by byte. -/
theorem toNat_toUInt32 (w : Word) : w.toUInt32.toNat =
    w.b0.toNat + 2 ^ 8 * w.b1.toNat + 2 ^ 16 * w.b2.toNat + 2 ^ 24 * w.b3.toNat := by
  have h0 := w.b0.toNat_lt
  have h1 := w.b1.toNat_lt
  have h2 := w.b2.toNat_lt
  have h3 := w.b3.toNat_lt
  simp only [toUInt32, UInt32.toNat_add, UInt32.toNat_shiftLeft, UInt8.toNat_toUInt32,
    Nat.shiftLeft_eq, UInt32.reduceToNat, Nat.reduceMod, Nat.reducePow]
  omega

theorem toUInt32_inj {w w' : Word} : w.toUInt32 = w'.toUInt32 ↔ w = w' := by
  refine ⟨fun h => ?_, fun h => congrArg toUInt32 h⟩
  have hnat := congrArg UInt32.toNat h
  rw [toNat_toUInt32, toNat_toUInt32] at hnat
  obtain ⟨b0, b1, b2, b3⟩ := w
  obtain ⟨b0', b1', b2', b3'⟩ := w'
  have h0 := b0.toNat_lt
  have h1 := b1.toNat_lt
  have h2 := b2.toNat_lt
  have h0' := b0'.toNat_lt
  have h1' := b1'.toNat_lt
  have h2' := b2'.toNat_lt
  simp only [Word.mk.injEq, ← UInt8.toNat_inj] at hnat ⊢
  omega

/-- **A value is read back from the word that holds it.** -/
theorem toUInt32_ofUInt32 (v : UInt32) : (ofUInt32 v).toUInt32 = v := by
  have hlt := v.toNat_lt
  rw [← UInt32.toNat_inj, toNat_toUInt32]
  simp only [ofUInt32, UInt32.toNat_toUInt8, UInt32.toNat_shiftRight, UInt32.reduceToNat,
    Nat.shiftRight_eq_div_pow, Nat.reduceMod, Nat.reducePow]
  omega

end Word

/-- A flash controller: what a word holds after `new` is programmed over `old`. -/
structure Chip where
  program : Word → Word → Word
  /-- An erased word takes the programmed value. -/
  program_erased : ∀ new, program .erased new = new
  /-- Programming zero clears the word. -/
  program_zero : ∀ old, program old .zero = .zero

/-- The controller whose cells can only be cleared: the programmed value is the
bitwise conjunction of the old and the new one. -/
def andChip : Chip where
  program old new := ⟨old.b0 &&& new.b0, old.b1 &&& new.b1, old.b2 &&& new.b2, old.b3 &&& new.b3⟩
  program_erased new := by
    have h : ∀ b : UInt8, 0xFF &&& b = b := fun b => by
      rw [UInt8.and_comm]; exact UInt8.and_neg_one
    simp [Word.erased, h]
  program_zero old := by simp [Word.zero]

namespace Memory

/-- The word at an address. -/
def word (m : Memory) (a : ℕ) : Word := ⟨m a, m (a + 1), m (a + 2), m (a + 3)⟩

/-- The memory with the word at `a` replaced. -/
def putWord (m : Memory) (a : ℕ) (w : Word) : Memory := fun x =>
  if x = a then w.b0 else if x = a + 1 then w.b1 else if x = a + 2 then w.b2
    else if x = a + 3 then w.b3 else m x

/-- The `n` bytes from address `a` on. -/
def read (m : Memory) : ℕ → ℕ → List UInt8
  | _, 0 => []
  | a, n + 1 => m a :: m.read (a + 1) n

/-- Every byte of `[a, a + n)` is erased. -/
def ErasedOn (m : Memory) (a n : ℕ) : Prop := ∀ x, a ≤ x → x < a + n → m x = 0xFF

@[simp] theorem length_read (m : Memory) (a n : ℕ) : (m.read a n).length = n := by
  induction n generalizing a with
  | zero => rfl
  | succ n ih => simp [read, ih]

theorem read_congr {m m' : Memory} {a n : ℕ} (h : ∀ x, a ≤ x → x < a + n → m x = m' x) :
    m.read a n = m'.read a n := by
  induction n generalizing a with
  | zero => rfl
  | succ n ih =>
      rw [read, read, h a le_rfl (by omega), ih fun x hx hx' => h x (by omega) (by omega)]

theorem getElem?_read (m : Memory) (a : ℕ) {n i : ℕ} (h : i < n) :
    (m.read a n)[i]? = some (m (a + i)) := by
  induction n generalizing a i with
  | zero => omega
  | succ n ih =>
      cases i with
      | zero => rfl
      | succ i => rw [read, List.getElem?_cons_succ, ih (a + 1) (by omega)]; congr 2; omega

/-- A reading of `0xFF` bytes is an erased range. -/
theorem erasedOn_of_read {m : Memory} {a n : ℕ} (h : ∀ b ∈ m.read a n, b = 0xFF) :
    m.ErasedOn a n := by
  intro x hx hx'
  refine h _ (List.mem_of_getElem? (i := x - a) ?_)
  rw [getElem?_read m a (by omega), Nat.add_sub_cancel' hx]

theorem read_add (m : Memory) (a n k : ℕ) :
    m.read a (n + k) = m.read a n ++ m.read (a + n) k := by
  induction n generalizing a with
  | zero => simp [read]
  | succ n ih => rw [Nat.succ_add, read, read, ih, List.cons_append, Nat.add_right_comm]; rfl

@[simp] theorem word_putWord (m : Memory) (a : ℕ) (w : Word) : (m.putWord a w).word a = w := by
  simp [word, putWord]

theorem putWord_of_outside (m : Memory) {a x : ℕ} (w : Word) (h : x < a ∨ a + 4 ≤ x) :
    m.putWord a w x = m x := by
  rw [putWord, if_neg (by omega), if_neg (by omega), if_neg (by omega), if_neg (by omega)]

theorem read_four (m : Memory) (a : ℕ) : m.read a 4 = (m.word a).bytes := rfl

theorem word_eq_erased {m : Memory} {a : ℕ} (h : m.ErasedOn a 4) : m.word a = .erased := by
  simp [word, Word.erased, h a (by omega) (by omega), h (a + 1) (by omega) (by omega),
    h (a + 2) (by omega) (by omega), h (a + 3) (by omega) (by omega)]

end Memory

/-- Program one word. -/
def programWord (chip : Chip) (m : Memory) (a : ℕ) (w : Word) : Memory :=
  m.putWord a (chip.program (m.word a) w)

/-- Program a buffer word by word from address `a` on; a last incomplete word is
not programmed. -/
def programBytes (chip : Chip) : Memory → ℕ → List UInt8 → Memory
  | m, a, b0 :: b1 :: b2 :: b3 :: rest =>
      programBytes chip (programWord chip m a ⟨b0, b1, b2, b3⟩) (a + 4) rest
  | m, _, _ => m

/-- Erase the page of `size` bytes at `base`. -/
def erasePage (size : ℕ) (m : Memory) (base : ℕ) : Memory := fun x =>
  if base ≤ x ∧ x < base + size then 0xFF else m x

theorem programWord_of_outside (chip : Chip) (m : Memory) {a x : ℕ} (w : Word)
    (h : x < a ∨ a + 4 ≤ x) : programWord chip m a w x = m x :=
  m.putWord_of_outside _ h

theorem word_programWord (chip : Chip) (m : Memory) (a : ℕ) (w : Word) :
    (programWord chip m a w).word a = chip.program (m.word a) w :=
  m.word_putWord _ _

/-- **Frame.**  Programming a buffer leaves every byte outside its range alone. -/
theorem programBytes_of_outside (chip : Chip) (m : Memory) (a : ℕ) (data : List UInt8) {x : ℕ}
    (h : x < a ∨ a + data.length ≤ x) : programBytes chip m a data x = m x := by
  induction m, a, data using programBytes.induct chip with
  | case1 m a b0 b1 b2 b3 rest ih =>
      simp only [List.length_cons] at h
      rw [programBytes, ih (by omega), programWord_of_outside chip m _ (by omega)]
  | case2 data m a hshort => rw [programBytes]; exact hshort

/-- A buffer of whole words is empty or begins with a word. -/
theorem whole_words {data : List UInt8} (h : data.length % 4 = 0) :
    data = [] ∨ ∃ b0 b1 b2 b3 rest, data = b0 :: b1 :: b2 :: b3 :: rest ∧ rest.length % 4 = 0 := by
  match data, h with
  | [], _ => exact .inl rfl
  | [_], h | [_, _], h | [_, _, _], h => simp at h
  | b0 :: b1 :: b2 :: b3 :: rest, h =>
      refine .inr ⟨b0, b1, b2, b3, rest, rfl, ?_⟩
      simp only [List.length_cons] at h
      omega

/-- **Write-back.**  Over an erased range a buffer of whole words is stored as it
is. -/
theorem read_programBytes (chip : Chip) (m : Memory) (a : ℕ) (data : List UInt8)
    (hlen : data.length % 4 = 0) (herased : m.ErasedOn a data.length) :
    (programBytes chip m a data).read a data.length = data := by
  induction m, a, data using programBytes.induct chip with
  | case1 m a b0 b1 b2 b3 rest ih =>
      simp only [List.length_cons] at hlen herased ⊢
      have hword : m.word a = .erased :=
        Memory.word_eq_erased fun x hx hx' => herased x hx (by omega)
      have hrest : (programWord chip m a ⟨b0, b1, b2, b3⟩).ErasedOn (a + 4) rest.length := by
        intro x hx hx'
        rw [programWord_of_outside chip m _ (by omega)]
        exact herased x (by omega) (by omega)
      have hframe : (programBytes chip m a (b0 :: b1 :: b2 :: b3 :: rest)).read a 4 =
          (programWord chip m a ⟨b0, b1, b2, b3⟩).read a 4 :=
        Memory.read_congr fun x _ hx' => by
          rw [programBytes, programBytes_of_outside chip _ _ _ (by omega)]
      have hfirst : (programBytes chip m a (b0 :: b1 :: b2 :: b3 :: rest)).read a 4 =
          [b0, b1, b2, b3] := by
        rw [hframe, Memory.read_four, word_programWord, hword, chip.program_erased]
        rfl
      rw [show rest.length + 1 + 1 + 1 + 1 = 4 + rest.length by omega, Memory.read_add, hfirst,
        programBytes, ih (by omega) hrest]
      rfl
  | case2 data m a hshort =>
      rcases whole_words hlen with rfl | ⟨b0, b1, b2, b3, rest, hdata, -⟩
      · rfl
      · exact absurd hdata (hshort b0 b1 b2 b3 rest)

/-- **A buffer may be cut at any word.** -/
theorem programBytes_append (chip : Chip) (m : Memory) (a : ℕ) (xs ys : List UInt8)
    (h : xs.length % 4 = 0) :
    programBytes chip m a (xs ++ ys) =
      programBytes chip (programBytes chip m a xs) (a + xs.length) ys := by
  induction m, a, xs using programBytes.induct chip with
  | case1 m a b0 b1 b2 b3 rest ih =>
      simp only [List.length_cons] at h
      show programBytes chip _ (a + 4) (rest ++ ys) = _
      rw [ih (by omega), programBytes]
      congr 1
      simp only [List.length_cons]
      omega
  | case2 xs m a hshort =>
      rcases whole_words h with rfl | ⟨b0, b1, b2, b3, rest, hxs, -⟩
      · rfl
      · exact absurd hxs (hshort b0 b1 b2 b3 rest)

/-- The words a buffer is programmed as, each with its address. -/
def wordsAt : ℕ → List UInt8 → List (ℕ × Word)
  | a, b0 :: b1 :: b2 :: b3 :: rest => (a, ⟨b0, b1, b2, b3⟩) :: wordsAt (a + 4) rest
  | _, _ => []

theorem wordsAt_append (a : ℕ) (xs ys : List UInt8) (h : xs.length % 4 = 0) :
    wordsAt a (xs ++ ys) = wordsAt a xs ++ wordsAt (a + xs.length) ys := by
  induction a, xs using wordsAt.induct with
  | case1 a b0 b1 b2 b3 rest ih =>
      simp only [List.length_cons] at h
      show (a, _) :: wordsAt (a + 4) (rest ++ ys) = _
      rw [ih (by omega), wordsAt, List.cons_append]
      congr 3
      simp only [List.length_cons]
      omega
  | case2 xs a hshort =>
      rcases whole_words h with rfl | ⟨b0, b1, b2, b3, rest, hxs, -⟩
      · rfl
      · exact absurd hxs (hshort b0 b1 b2 b3 rest)

/-- The words of a buffer lie one behind the other. -/
theorem addresses_wordsAt (a : ℕ) {data : List UInt8} (h : data.length % 4 = 0) :
    (wordsAt a data).map Prod.fst = (List.range (data.length / 4)).map fun i => a + 4 * i := by
  induction a, data using wordsAt.induct with
  | case1 a b0 b1 b2 b3 rest ih =>
      simp only [List.length_cons] at h
      have hlen : (b0 :: b1 :: b2 :: b3 :: rest).length / 4 = rest.length / 4 + 1 := by
        simp only [List.length_cons]
        omega
      rw [wordsAt, List.map_cons, ih (by omega), hlen, List.range_succ_eq_map, List.map_cons,
        List.map_map]
      congr 1
      refine List.map_congr_left fun i _ => ?_
      simp only [Function.comp_apply]
      omega
  | case2 data a hshort =>
      rcases whole_words h with rfl | ⟨b0, b1, b2, b3, rest, hdata, -⟩
      · rfl
      · exact absurd hdata (hshort b0 b1 b2 b3 rest)

/-- The words of a buffer are the buffer. -/
theorem bytes_wordsAt (a : ℕ) {data : List UInt8} (h : data.length % 4 = 0) :
    (wordsAt a data).flatMap (fun w => w.2.bytes) = data := by
  induction a, data using wordsAt.induct with
  | case1 a b0 b1 b2 b3 rest ih =>
      simp only [List.length_cons] at h
      rw [wordsAt, List.flatMap_cons, ih (by omega)]
      rfl
  | case2 data a hshort =>
      rcases whole_words h with rfl | ⟨b0, b1, b2, b3, rest, hdata, -⟩
      · rfl
      · exact absurd hdata (hshort b0 b1 b2 b3 rest)

/-- **The words of a copy**: what was read in one place is programmed in another word by word. -/
theorem wordsAt_read (m : Memory) (a b n : ℕ) :
    wordsAt a (m.read b (4 * n)) = (List.range n).map fun j => (a + 4 * j, m.word (b + 4 * j)) := by
  induction n generalizing a b with
  | zero => rfl
  | succ n ih =>
      rw [Nat.mul_succ, Nat.add_comm (4 * n) 4, Memory.read_add, Memory.read_four]
      show (a, m.word b) :: wordsAt (a + 4) (m.read (b + 4) (4 * n)) = _
      rw [ih, List.range_succ_eq_map, List.map_cons, List.map_map]
      congr 1
      apply List.map_congr_left
      intro j _
      have hnext : ∀ c, c + 4 + 4 * j = c + 4 * (j + 1) := fun c => by omega
      simp only [Function.comp_apply, hnext, Nat.succ_eq_add_one]

/-- What a store that does not go through the controller leaves in the memory.  Bytes that are there
already are not changed by it. -/
structure Bus where
  store : Memory → ℕ → List UInt8 → Memory
  store_same : ∀ (m : Memory) (a : ℕ) (data : List UInt8), m.read a data.length = data →
    ∀ x, a ≤ x → x < a + data.length → store m a data x = m x

/-- The bus of a memory that takes what is stored. -/
def ramBus : Bus where
  store m a data x := if a ≤ x then (data[x - a]?).getD (m x) else m x
  store_same m a data hread x hx hx' := by
    have hbyte : data[x - a]? = some (m x) := by
      rw [← hread, Memory.getElem?_read _ _ (by omega), Nat.add_sub_cancel' hx]
    rw [if_pos hx, hbyte, Option.getD_some]

theorem erasePage_of_outside (size : ℕ) (m : Memory) {base x : ℕ}
    (h : x < base ∨ base + size ≤ x) : erasePage size m base x = m x := by
  rw [erasePage, if_neg (by omega)]

theorem erasedOn_erasePage (size : ℕ) (m : Memory) (base : ℕ) :
    (erasePage size m base).ErasedOn base size := by
  intro x hx hx'
  rw [erasePage, if_pos ⟨hx, hx'⟩]

end NorFlash
