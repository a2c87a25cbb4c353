import Mathlib.Data.Nat.SuccPred
import Mathlib.Data.List.Basic

/-!
# `Buffer<capacity>`

The byte queue that the interrupt handlers, the line scanner and the packet processor
share.  The model keeps the first `size` bytes of the array; that they fit is a field,
so that an overfull buffer cannot be built.

`Append` drops what does not fit and reports it.  `RemoveFirst(n)` with `n > size` would
hand `memmove` a negative length: here it is `none`.
-/

namespace USKD

/-- `template<int capacity> class Buffer`. -/
@[ext] structure Buffer (capacity : ℕ) where
  bytes : List UInt8
  size_le : bytes.length ≤ capacity
deriving DecidableEq

namespace Buffer

variable {capacity : ℕ}

/-- The empty buffer: the constructor and `Clear`. -/
def clear : Buffer capacity := ⟨[], Nat.zero_le _⟩

def size (b : Buffer capacity) : ℕ := b.bytes.length

/-- `operator[]`: zero outside of the contents. -/
def get (b : Buffer capacity) (i : ℕ) : UInt8 := b.bytes.getD i 0

/-- `Append(const void *, int)`. -/
def append (b : Buffer capacity) (data : List UInt8) : Buffer capacity × Bool :=
  if h : b.bytes.length + data.length ≤ capacity then
    (⟨b.bytes ++ data, by simpa using h⟩, true)
  else (b, false)

/-- `Append(char)`. -/
def push (b : Buffer capacity) (symbol : UInt8) : Buffer capacity × Bool :=
  if h : b.bytes.length < capacity then
    (⟨b.bytes ++ [symbol], by simp; omega⟩, true)
  else (b, false)

/-- `if (!b.Append(…)) b.Clear();` -/
def orClear (appended : Buffer capacity × Bool) : Buffer capacity :=
  if appended.2 then appended.1 else clear

/-- `RemoveFirst`. -/
def removeFirst (b : Buffer capacity) (n : ℕ) : Option (Buffer capacity) :=
  if n ≤ b.bytes.length then some ⟨b.bytes.drop n, by
    have := b.size_le
    simp only [List.length_drop]
    omega⟩
  else none

@[simp] theorem bytes_clear : (clear : Buffer capacity).bytes = [] := rfl

@[simp] theorem size_eq (b : Buffer capacity) : b.size = b.bytes.length := rfl

theorem append_of_le {b : Buffer capacity} {data : List UInt8}
    (h : b.bytes.length + data.length ≤ capacity) :
    (b.append data).1.bytes = b.bytes ++ data := by
  rw [append, dif_pos h]

theorem orClear_append_of_le {b : Buffer capacity} {data : List UInt8}
    (h : b.bytes.length + data.length ≤ capacity) :
    (orClear (b.append data)).bytes = b.bytes ++ data := by
  rw [orClear, append, dif_pos h]
  rfl

theorem push_of_lt {b : Buffer capacity} {symbol : UInt8} (h : b.bytes.length < capacity) :
    (b.push symbol).1.bytes = b.bytes ++ [symbol] := by
  rw [push, dif_pos h]

theorem orClear_push_of_lt {b : Buffer capacity} {symbol : UInt8}
    (h : b.bytes.length < capacity) : (orClear (b.push symbol)).bytes = b.bytes ++ [symbol] := by
  rw [orClear, push, dif_pos h]
  rfl

theorem bytes_removeFirst {b b' : Buffer capacity} {n : ℕ} (h : b.removeFirst n = some b') :
    b'.bytes = b.bytes.drop n := by
  rw [removeFirst] at h
  split at h
  · rw [← Option.some.inj h]
  · exact absurd h (by simp)

/-- Two buffers with the same contents are the same. -/
theorem bytes_inj {b b' : Buffer capacity} (h : b.bytes = b'.bytes) : b = b' :=
  Buffer.ext h

end Buffer

end USKD
