import EngineHost.Number.Shortest
import EngineHost.Text.Pieces

/-!
# How numbers are written

`Layout` says where positional notation ends and how many digits an exponent has at least. Two
layouts are in use: `Layout.general` in messages and previews, `Layout.json` in JSON. `fixed` writes
a number with a given count of places, rounded exactly.
-/

namespace EngineHost

/-- The decisions of a way to write numbers: the least and the first exponent beyond which a number
is not written positionally, and the least number of exponent digits. -/
structure Layout where
  positionalFrom : Int
  positionalTo : Int
  exponentWidth : Nat

namespace Layout

/-- Positional from `1e-4` up to, but not at, `1e6`; an exponent has two digits at least. -/
def general : Layout := ⟨-4, 6, 2⟩

/-- Positional from `1e-6` up to, but not at, `1e21`; an exponent has one digit at least. -/
def json : Layout := ⟨-6, 21, 1⟩

/-- Digits brought to a width by zeros in front. -/
def zeroPad (width : Nat) (s : String) : String :=
  Text.times '0' (width - s.length) ++ s

/-- A positive decimal in a layout. -/
def write (l : Layout) (d : Decimal) : String :=
  let digits := Nat.toDigits 10 d.digits
  let e := d.exponent
  if e < l.positionalFrom ∨ l.positionalTo ≤ e then
    let sign := if e < 0 then "-" else "+"
    let point := if digits.length ≤ 1 then "" else "."
    String.ofList (digits.take 1) ++ point ++ String.ofList (digits.drop 1) ++ "e" ++ sign ++
      zeroPad l.exponentWidth (toString e.natAbs)
  else if e < 0 then
    "0." ++ Text.times '0' (e.natAbs - 1) ++ String.ofList digits
  else
    let whole := e.toNat + 1
    if digits.length ≤ whole then
      String.ofList digits ++ Text.times '0' (whole - digits.length)
    else
      String.ofList (digits.take whole) ++ "." ++ String.ofList (digits.drop whole)

/-- A number of any format in a layout, by the shortest decimal that reads back in that format. -/
def number (l : Layout) (f : Format) (bits : Nat) : String :=
  let m := f.magnitude bits
  if f.infinity < m then "NaN"
  else
    let sign := if f.isNegative bits then "-" else ""
    if m = f.infinity then (if f.isNegative bits then "-Inf" else "+Inf")
    else if m = 0 then sign ++ "0"
    else sign ++ l.write (Shortest.decimal f m)

end Layout

/-- A number of thirty-two bits in a layout. -/
def Single.text (l : Layout) (x : Single) : String :=
  l.number .single x.bits.toNat

/-- A number of sixty-four bits in a layout. -/
def Double.text (l : Layout) (x : Double) : String :=
  l.number .double x.bits.toNat

/-- A non-negative ratio with a given number of places, a tie going to the even last digit. -/
def fixedRatio (places num den : Nat) : String :=
  let n := roundDiv (num * Nat.pow 10 places) den
  let whole := toString (n / Nat.pow 10 places)
  if places = 0 then whole
  else whole ++ "." ++ Layout.zeroPad places (toString (n % Nat.pow 10 places))

/-- A finite number with a given number of places. -/
def Double.fixed (places : Nat) (x : Double) : String :=
  let f := Format.double
  let (m, e) := f.parts (f.magnitude x.bits.toNat)
  let (n, d) := scaleRatio m 1 (-e)
  let sign := if f.isNegative x.bits.toNat then "-" else ""
  sign ++ fixedRatio places n d

end EngineHost
