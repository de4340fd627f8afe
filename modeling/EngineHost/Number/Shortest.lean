import EngineHost.Number.Binary

/-!
# Shortest decimals

The decimal of a positive finite number is the one with the fewest digits among those that read back
as that number, and of these the nearest; a tie goes to the even last digit. A decimal reads back
exactly when it lies between the midpoints to the number's two neighbours, ends included when the
significand is even. For each count of digits only the two grid points beside the number need a
look: if any point of that grid lies in the interval, one of them does.
-/

namespace EngineHost

/-- A positive decimal: the whole number `digits` with the point behind its first digit, times ten
to the `exponent`. -/
structure Decimal where
  digits : Nat
  exponent : Int
  deriving DecidableEq, Repr

namespace Shortest

/-- A number with the ends of its interval, all over one denominator. -/
structure Interval where
  low : Nat
  value : Nat
  high : Nat
  den : Nat
  closed : Bool

/-- The interval of the decimals that read back as a positive finite magnitude. -/
def interval (f : Format) (magnitude : Nat) : Interval :=
  let (m, e) := f.parts magnitude
  -- Below a power of two the neighbours stand half as far apart, subnormals excepted.
  let below := if m = Nat.pow 2 f.fractionBits ∧ f.leastExponent < e then 1 else 2
  let scale (k : Nat) : Nat := (scaleRatio k 1 (2 - e)).1
  { low := scale (4 * m - below), value := scale (4 * m), high := scale (4 * m + 2),
    den := (scaleRatio 1 1 (2 - e)).2, closed := m % 2 = 0 }

/-- Does the decimal `d · unit` lie in an interval, where `unit` is given as a ratio? -/
def Interval.holds (i : Interval) (d unitNum unitDen : Nat) : Bool :=
  let point := d * unitNum * i.den
  if i.closed then i.low * unitDen ≤ point && point ≤ i.high * unitDen
  else i.low * unitDen < point && point < i.high * unitDen

/-- Ten to an integer power, as a ratio. -/
def tenPower (e : Int) : Nat × Nat :=
  if 0 ≤ e then (Nat.pow 10 e.toNat, 1) else (1, Nat.pow 10 (-e).toNat)

/-- The number of decimal digits of a natural number; zero has one. -/
def decimalLength (n : Nat) : Nat :=
  (Nat.toDigits 10 n).length

/-- The exponent of the leading decimal digit of a positive ratio. -/
def leadingExponent (num den : Nat) : Int :=
  let guess : Int := (decimalLength num : Int) - decimalLength den
  let (pn, pd) := tenPower guess
  if pn * den ≤ num * pd then guess else guess - 1

/-- The better of the two neighbours on the grid of a given step, if one of them lies in the
interval. -/
def onGrid (i : Interval) (step : Int) : Option Nat :=
  let (un, ud) := tenPower step
  let floor := i.value * ud / (i.den * un)
  let up := floor + 1
  let fromFloor := i.value * ud - floor * un * i.den
  let toUp := up * un * i.den - i.value * ud
  match i.holds floor un ud, i.holds up un ud with
  | true, true =>
    if fromFloor < toUp ∨ (fromFloor = toUp ∧ floor % 2 = 0) then some floor else some up
  | true, false => some floor
  | false, true => some up
  | false, false => none

/-- Looks for the least number of digits, `count` at first and at most `fuel` tries. -/
def search (i : Interval) (lead : Int) : (fuel count : Nat) → Nat × Int
  | 0, count => (i.value, lead - count)
  | fuel + 1, count =>
    let step := lead + 1 - (count : Int)
    match onGrid i step with
    | some d => (d, step)
    | none => search i lead fuel (count + 1)

/-- Drops zeros at the end of a number, each with a step up of its exponent. -/
def dropZeros : (fuel : Nat) → Nat → Int → Nat × Int
  | 0, d, e => (d, e)
  | fuel + 1, d, e => if d % 10 = 0 ∧ d ≠ 0 then dropZeros fuel (d / 10) (e + 1) else (d, e)

/-- The shortest decimal of a positive finite magnitude. -/
def decimal (f : Format) (magnitude : Nat) : Decimal :=
  let i := interval f magnitude
  let (d, step) := search i (leadingExponent i.value i.den) 20 1
  let (d, step) := dropZeros 20 d step
  { digits := d, exponent := step + (decimalLength d - 1 : Nat) }

end Shortest

end EngineHost
