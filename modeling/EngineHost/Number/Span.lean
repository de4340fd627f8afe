import EngineHost.Number.Layout
import EngineHost.Text.Integer
import EngineHost.Text.Quoted

/-!
# Spans of time

A span is a signed count of nanoseconds in sixty-four bits. It is written in hours, minutes and
seconds with as many decimals as it needs, or in one smaller unit where it is below a second. It is
read as a sum of decimal numbers, each with its unit.
-/

namespace EngineHost

/-- A span of time in nanoseconds. -/
abbrev Span := Int64

namespace Span

/-- `n / Nat.pow 10 places` with the places that are not zero at the end. -/
def withFraction (n places : Nat) : String :=
  let digits := (Layout.zeroPad places (toString (n % Nat.pow 10 places))).toList
  let kept := (digits.reverse.dropWhile (· = '0')).reverse
  let point := if kept.isEmpty then "" else "."
  toString (n / Nat.pow 10 places) ++ point ++ String.ofList kept

/-- A count of nanoseconds for reading. -/
def magnitudeText (n : Nat) : String :=
  if n = 0 then "0s"
  else if n < 1000 then toString n ++ "ns"
  else if n < 1000000 then withFraction n 3 ++ "µs"
  else if n < 1000000000 then withFraction n 6 ++ "ms"
  else
    let minutes := n / 60000000000
    let seconds := withFraction (n % 60000000000) 9 ++ "s"
    if minutes = 0 then seconds
    else if minutes < 60 then toString minutes ++ "m" ++ seconds
    else toString (minutes / 60) ++ "h" ++ toString (minutes % 60) ++ "m" ++ seconds

/-- A span for reading. -/
def text (d : Span) : String :=
  let n := d.toInt
  (if n < 0 then "-" else "") ++ magnitudeText n.natAbs

/-! ### Reading -/

/-- Why a text is refused as a span. -/
inductive ReadError where
  | malformed (whole : String)
  | missingUnit (whole : String)
  | unknownUnit (unit whole : String)
  deriving DecidableEq, Repr

/-- A text in quotes as these messages show it: every control below the space and every octet
outside ASCII in hexadecimal. -/
def shown (s : String) : String :=
  String.ofList ('"' :: (Bytes.ofText s).flatMap (fun b =>
    let c := Char.ofNat b.toNat
    if c = '"' ∨ c = '\\' then ['\\', c]
    else if b < 0x20 ∨ 0x80 ≤ b then '\\' :: 'x' :: Bytes.hexDigits 2 b.toNat
    else [c]) ++ ['"'])

/-- The wording of a refusal. -/
def ReadError.message : ReadError → String
  | .malformed whole => "time: invalid duration " ++ shown whole
  | .missingUnit whole => "time: missing unit in duration " ++ shown whole
  | .unknownUnit unit whole => "time: unknown unit " ++ shown unit ++ " in duration " ++ shown whole

/-- The nanoseconds of a unit. -/
def unit? (s : String) : Option Nat :=
  match s with
  | "ns" => some 1
  | "us" => some 1000
  | "µs" => some 1000
  | "μs" => some 1000
  | "ms" => some 1000000
  | "s" => some 1000000000
  | "m" => some 60000000000
  | "h" => some 3600000000000
  | _ => none

/-- The largest magnitude a sum may reach on the way. -/
def limit : Nat := Nat.pow 2 63

/-- The digits of a fraction that count: those that keep the number below `2 ^ 63`. -/
def fractionDigits (acc count : Nat) : List Char → Nat × Nat
  | [] => (acc, count)
  | c :: r =>
    match Text.digit? c with
    | none => (acc, count)
    | some d =>
      if (limit - 1) / 10 < acc ∨ limit < acc * 10 + d then (acc, count)
      else fractionDigits (acc * 10 + d) (count + 1) r

/-- Ten to a power, multiplied up and rounded step by step. -/
def fractionScale : (count : Nat) → Double
  | 0 => .ofInt 1
  | count + 1 => (fractionScale count).mul (.ofInt 10)

/-- The whole nanoseconds in a fraction of a unit, computed in floating point. -/
def fractionOf (unit : Nat) (digits : List Char) : Nat :=
  let (n, count) := fractionDigits 0 0 digits
  let step := (Double.ofInt unit).div (fractionScale count)
  ((Double.ofInt n).mul step).truncate.toNat

/-- Reads terms behind a sum of `total`; every term takes a character at least, so `fuel` need not
exceed their number. -/
def readTerms (whole : String) : (fuel total : Nat) → List Char → Except ReadError Nat
  | _, total, [] => .ok total
  | 0, _, _ => .error (.malformed whole)
  | fuel + 1, total, cs =>
    let isDigit (c : Char) : Bool := (Text.digit? c).isSome
    let intPart := cs.takeWhile isDigit
    let r := cs.dropWhile isDigit
    let (fracPart, r) := match r with
      | '.' :: r => (r.takeWhile isDigit, r.dropWhile isDigit)
      | r => ([], r)
    if intPart.isEmpty ∧ fracPart.isEmpty then .error (.malformed whole)
    else
      let v := (Text.digitsFrom? 0 intPart).getD 0
      if limit < v then .error (.malformed whole)
      else
        let name := r.takeWhile fun c => c ≠ '.' ∧ !isDigit c
        let r := r.dropWhile fun c => c ≠ '.' ∧ !isDigit c
        if name.isEmpty then .error (.missingUnit whole)
        else
          match unit? (String.ofList name) with
          | none => .error (.unknownUnit (String.ofList name) whole)
          | some u =>
            let term := v * u + fractionOf u fracPart
            if limit < v * u ∨ limit < term ∨ limit < total + term then .error (.malformed whole)
            else readTerms whole fuel (total + term) r

/-- Reads a span. -/
def read (s : String) : Except ReadError Span :=
  let (negative, cs) := match s.toList with
    | '-' :: r => (true, r)
    | '+' :: r => (false, r)
    | cs => (false, cs)
  if cs = ['0'] then .ok 0
  else if cs.isEmpty then .error (.malformed s)
  else
    match readTerms s cs.length 0 cs with
    | .error e => .error e
    | .ok n =>
      if negative then .ok (Int64.ofInt (-(n : Int)))
      else if n < limit then .ok (Int64.ofInt n)
      else .error (.malformed s)

end Span

end EngineHost
