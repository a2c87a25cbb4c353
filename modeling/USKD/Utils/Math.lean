import Mathlib.Data.List.Basic

/-!
# `Utils/Math.h`: the checksum

`Math::Hash` and `Math::CalculateCRC`, on 32-bit unsigned arithmetic.  The address
and size of the source's `CalculateCRC` become the list of bytes read there.
-/

namespace USKD.Math

/-- `Math::Hash`: one byte folded into the checksum. -/
def hash (hash : UInt32) (byte : UInt8) : UInt32 :=
  byte.toUInt32 + (hash <<< 6) + (hash <<< 16) - hash

/-- `Math::CalculateCRC` over the bytes at `address`. -/
def calculateCRC (data : List UInt8) : UInt32 := data.foldl hash 0

@[simp] theorem calculateCRC_nil : calculateCRC [] = 0 := rfl

end USKD.Math
