/-!
# Binary floating-point patterns

A floating-point number is kept as its bit pattern. `Format` gives the two field widths of an
interchange format; everything that depends on them is written once, on natural numbers: what
magnitude a pattern stands for (`Format.parts`, `m · 2 ^ e`) and which pattern is nearest to a
non-negative ratio (`Format.ofRatio`, a tie going to the even pattern, too large a ratio to
infinity). Every conversion between formats, integers and decimals is one of these two steps after
the other.

Arithmetic on patterns follows the usual rule for results that are no number: a not-a-number operand
is the result, with its quiet bit set, the first before the second, and an operation with no result
gives the pattern with sign, exponent and quiet bit set and all else clear.
-/

namespace EngineHost

/-- The field widths of a binary interchange format. -/
structure Format where
  fractionBits : Nat
  exponentBits : Nat
  deriving DecidableEq, Repr

namespace Format

/-- Sixteen bits: five of exponent, ten of fraction. -/
def half : Format := ⟨10, 5⟩

/-- Thirty-two bits: eight of exponent, twenty-three of fraction. -/
def single : Format := ⟨23, 8⟩

/-- Sixty-four bits: eleven of exponent, fifty-two of fraction. -/
def double : Format := ⟨52, 11⟩

variable (f : Format)

/-- The weight of the sign bit. -/
def signWeight : Nat :=
  Nat.pow 2 (f.exponentBits + f.fractionBits)

/-- The magnitude part of the pattern of infinity; larger magnitudes are no numbers. -/
def infinity : Nat :=
  (Nat.pow 2 f.exponentBits - 1) * Nat.pow 2 f.fractionBits

/-- The exponent of the least positive number. -/
def leastExponent : Int :=
  2 - (Nat.pow 2 (f.exponentBits - 1) : Nat) - f.fractionBits

/-- Is the sign bit of a pattern set? -/
def isNegative (bits : Nat) : Bool :=
  f.signWeight ≤ bits

/-- A pattern without its sign bit. -/
def magnitude (bits : Nat) : Nat :=
  bits % f.signWeight

/-- Is a pattern no number? -/
def isNaN (bits : Nat) : Bool :=
  f.infinity < f.magnitude bits

/-- Is a pattern a finite number? -/
def isFinite (bits : Nat) : Bool :=
  f.magnitude bits < f.infinity

/-- The significand and the exponent of a finite magnitude. -/
def parts (magnitude : Nat) : Nat × Int :=
  let exponent := magnitude / Nat.pow 2 f.fractionBits
  let fraction := magnitude % Nat.pow 2 f.fractionBits
  if exponent = 0 then (fraction, f.leastExponent)
  else (Nat.pow 2 f.fractionBits + fraction, f.leastExponent + (exponent - 1 : Nat))

/-- Puts a sign before a magnitude. -/
def withSign (negative : Bool) (magnitude : Nat) : Nat :=
  if negative then f.signWeight + magnitude else magnitude

end Format

/-- The quotient rounded to the nearest whole number, a tie to the even one. -/
def roundDiv (num den : Nat) : Nat :=
  let q := num / den
  let twice := 2 * (num % den)
  if den < twice ∨ (twice = den ∧ q % 2 = 1) then q + 1 else q

/-- A ratio divided by `2 ^ e`. -/
def scaleRatio (num den : Nat) (e : Int) : Nat × Nat :=
  if 0 ≤ e then (num, den <<< e.toNat) else (num <<< (-e).toNat, den)

/-- The whole part of the binary logarithm of a positive ratio. -/
def ratioLog (num den : Nat) : Int :=
  let guess : Int := (num.log2 : Int) - den.log2
  let (n, d) := scaleRatio num den guess
  if d ≤ n then guess else guess - 1

namespace Format

variable (f : Format)

/-- The magnitude of the number nearest to a ratio. The significand is rounded on the grid of the
ratio's binade, or of the subnormals; the carry of a significand that rounds up to the next binade
lands in the exponent field by itself. -/
def ofRatio (num den : Nat) : Nat :=
  if num = 0 then 0
  else
    let e := max (ratioLog num den - f.fractionBits) f.leastExponent
    let (n, d) := scaleRatio num den e
    min f.infinity ((e - f.leastExponent).toNat * Nat.pow 2 f.fractionBits + roundDiv n d)

/-- The magnitude of the number nearest to `m · 2 ^ e`. -/
def ofScaled (m : Nat) (e : Int) : Nat :=
  let (n, d) := scaleRatio m 1 (-e)
  f.ofRatio n d

/-- The pattern of the number nearest to an integer. -/
def ofInt (n : Int) : Nat :=
  f.withSign (n < 0) (f.ofRatio n.natAbs 1)

/-- The whole part of a finite number, toward zero. -/
def truncate (bits : Nat) : Int :=
  let (m, e) := f.parts (f.magnitude bits)
  let (n, d) := scaleRatio m 1 (-e)
  let whole : Int := (n / d : Nat)
  if f.isNegative bits then -whole else whole

/-- Is a finite number whole? -/
def isWhole (bits : Nat) : Bool :=
  let (m, e) := f.parts (f.magnitude bits)
  let (n, d) := scaleRatio m 1 (-e)
  n % d == 0

/-- The same number, or the nearest one, in another format. A pattern that is no number keeps the
high bits of its fraction and becomes quiet. -/
def convert (g : Format) (bits : Nat) : Nat :=
  let negative := f.isNegative bits
  let m := f.magnitude bits
  if f.infinity < m then
    let fraction := (m % Nat.pow 2 f.fractionBits) <<< g.fractionBits >>> f.fractionBits
    g.withSign negative (g.infinity ||| Nat.pow 2 (g.fractionBits - 1) ||| fraction)
  else if m = f.infinity then g.withSign negative g.infinity
  else
    let (s, e) := f.parts m
    g.withSign negative (g.ofScaled s e)

end Format

/-! ### The three formats in use -/

/-- A number of sixteen bits. -/
structure Half where
  bits : UInt16
  deriving DecidableEq, Repr, Inhabited

/-- A number of thirty-two bits. -/
structure Single where
  bits : UInt32
  deriving DecidableEq, Repr, Inhabited

/-- A number of sixty-four bits. -/
structure Double where
  bits : UInt64
  deriving DecidableEq, Repr, Inhabited

/-- The whole part of a number within a range, and the least integer of the range for everything
else: an infinity, no number, a whole part that does not fit. This is what amd64 does; other
processors may give the end of the range that is nearest, or zero. -/
def Format.toRange (f : Format) (low high : Int) (bits : Nat) : Int :=
  if f.isFinite bits then
    let n := f.truncate bits
    if low ≤ n ∧ n ≤ high then n else low
  else low

namespace Single

/-- Positive zero. -/
def zero : Single := ⟨0⟩

/-- One. -/
def one : Single := ⟨0x3F800000⟩

/-- Is it no number? -/
def isNaN (x : Single) : Bool :=
  Format.single.isNaN x.bits.toNat

/-- Is it neither infinite nor no number? -/
def isFinite (x : Single) : Bool :=
  Format.single.isFinite x.bits.toNat

/-- The quiet form of a pattern that is no number. -/
def quiet (x : Single) : Single :=
  ⟨x.bits ||| 0x00400000⟩

/-- The result of an operation that has none. -/
def undefined : Single := ⟨0xFFC00000⟩

/-- An operation on numbers carried over to patterns. -/
def lift (op : Float32 → Float32 → Float32) (x y : Single) : Single :=
  if x.isNaN then x.quiet
  else if y.isNaN then y.quiet
  else
    let r : Single := ⟨(op (.ofBits x.bits) (.ofBits y.bits)).toBits⟩
    if r.isNaN then undefined else r

/-- The rounded sum. -/
def add (x y : Single) : Single :=
  lift (· + ·) x y

/-- The rounded product. -/
def mul (x y : Single) : Single :=
  lift (· * ·) x y

/-- The larger of a number and zero: a zero of either sign and every negative number become positive
zero, and what is no number stays. -/
def relu (x : Single) : Single :=
  if x.isNaN then x
  else if Format.single.isNegative x.bits.toNat then zero
  else x

/-- The nearest number to an integer. -/
def ofInt (n : Int) : Single :=
  ⟨UInt32.ofNat (Format.single.ofInt n)⟩

/-- The whole part as an integer of thirty-two bits. -/
def toInt32 (x : Single) : Int32 :=
  Int32.ofInt (Format.single.toRange Int32.minValue.toInt Int32.maxValue.toInt x.bits.toNat)

/-- The whole part as an integer of sixty-four bits. -/
def toInt64 (x : Single) : Int64 :=
  Int64.ofInt (Format.single.toRange Int64.minValue.toInt Int64.maxValue.toInt x.bits.toNat)

/-- The same number with sixty-four bits. -/
def toDouble (x : Single) : Double :=
  ⟨UInt64.ofNat (Format.single.convert .double x.bits.toNat)⟩

/-- The nearest number with sixteen bits. -/
def toHalf (x : Single) : Half :=
  ⟨UInt16.ofNat (Format.single.convert .half x.bits.toNat)⟩

end Single

/-- The same number with thirty-two bits. -/
def Half.toSingle (x : Half) : Single :=
  ⟨UInt32.ofNat (Format.half.convert .single x.bits.toNat)⟩

/-- Is it no number? -/
def Half.isNaN (x : Half) : Bool :=
  Format.half.isNaN x.bits.toNat

namespace Double

/-- Positive zero. -/
def zero : Double := ⟨0⟩

/-- Is it no number? -/
def isNaN (x : Double) : Bool :=
  Format.double.isNaN x.bits.toNat

/-- Is it neither infinite nor no number? -/
def isFinite (x : Double) : Bool :=
  Format.double.isFinite x.bits.toNat

/-- Is it a finite number without a fraction? -/
def isWhole (x : Double) : Bool :=
  x.isFinite && Format.double.isWhole x.bits.toNat

/-- The nearest number to an integer. -/
def ofInt (n : Int) : Double :=
  ⟨UInt64.ofNat (Format.double.ofInt n)⟩

/-- The whole part of a finite number, toward zero. -/
def truncate (x : Double) : Int :=
  Format.double.truncate x.bits.toNat

/-- The whole part as an integer of sixty-four bits. -/
def toInt64 (x : Double) : Int64 :=
  Int64.ofInt (Format.double.toRange Int64.minValue.toInt Int64.maxValue.toInt x.bits.toNat)

/-- The nearest number with thirty-two bits. -/
def toSingle (x : Double) : Single :=
  ⟨UInt32.ofNat (Format.double.convert .single x.bits.toNat)⟩

/-- The rounded quotient. -/
def div (x y : Double) : Double :=
  ⟨(Float.ofBits x.bits / Float.ofBits y.bits).toBits⟩

/-- The rounded product. -/
def mul (x y : Double) : Double :=
  ⟨(Float.ofBits x.bits * Float.ofBits y.bits).toBits⟩

/-- The rounded sum. -/
def add (x y : Double) : Double :=
  ⟨(Float.ofBits x.bits + Float.ofBits y.bits).toBits⟩

/-- Is the distance of two numbers above a bound? Never so where the distance is no number. -/
def apart (x y bound : Double) : Bool :=
  Float.ofBits bound.bits < (Float.ofBits x.bits - Float.ofBits y.bits).abs

end Double

end EngineHost
