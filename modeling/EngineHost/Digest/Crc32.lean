import EngineHost.Text.Bytes

/-!
# The 32-bit cyclic redundancy check

The reflected check with polynomial `0xEDB88320`: the remainder starts with all bits set, takes each
octet into its low end, is shifted eight times, and is inverted at the end. It is written one bit at
a time, because a single shift is linear in exclusive or and that is what error detection rests on.
-/

namespace EngineHost.Crc32

/-- The generator polynomial, low-order term first. -/
def polynomial : UInt32 := 0xEDB88320

/-- One shift of the remainder: the bit that falls out decides whether the polynomial is added. -/
def shift (r : UInt32) : UInt32 :=
  if r &&& 1 = 1 then (r >>> 1) ^^^ polynomial else r >>> 1

/-- `n` shifts. -/
def shifts : Nat → UInt32 → UInt32
  | 0, r => r
  | n + 1, r => shifts n (shift r)

/-- The remainder after one more octet. -/
def step (r : UInt32) (b : UInt8) : UInt32 :=
  shifts 8 (r ^^^ b.toUInt32)

/-- The check value of a byte string. -/
def checksum (bs : Bytes) : UInt32 :=
  ~~~ (bs.foldl step 0xFFFFFFFF)

end EngineHost.Crc32
