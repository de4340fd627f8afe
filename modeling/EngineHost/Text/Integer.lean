/-!
# Decimal integers

An integer is written as an optional sign and decimal digits, nothing else. Reading distinguishes a
text that is no integer from one whose value does not fit sixty-four bits. The digits are taken from
the left, and a text is out of range as soon as those so far leave the unsigned range, whatever
follows them.
-/

namespace EngineHost.Text

/-- The value of a decimal digit. -/
def digit? (c : Char) : Option Nat :=
  if '0' ≤ c ∧ c ≤ '9' then some (c.toNat - 48) else none

/-- The number that decimal digits spell behind `acc`. -/
def digitsFrom? (acc : Nat) : List Char → Option Nat
  | [] => some acc
  | c :: r => (digit? c).bind fun d => digitsFrom? (acc * 10 + d) r

/-- A natural number written with at least one digit. -/
def natural? : List Char → Option Nat
  | [] => none
  | cs => digitsFrom? 0 cs

/-- Why a text is refused as an integer. -/
inductive IntegerError where
  | malformed
  | outOfRange
  deriving DecidableEq, Repr

/-- The wording of the reason. -/
def IntegerError.message : IntegerError → String
  | .malformed => "invalid syntax"
  | .outOfRange => "value out of range"

/-- An integer with an optional sign, of any size. -/
def integer? : List Char → Option Int
  | '+' :: r => (natural? r).map Int.ofNat
  | '-' :: r => (natural? r).map fun n => -Int.ofNat n
  | cs => (natural? cs).map Int.ofNat

/-- Reads decimal digits behind `acc`, none of which may lead above `limit`. -/
def readDigits (limit acc : Nat) : List Char → Except IntegerError Nat
  | [] => .ok acc
  | c :: r =>
    match digit? c with
    | none => .error .malformed
    | some d =>
      if limit < acc * 10 + d then .error .outOfRange else readDigits limit (acc * 10 + d) r

/-- Reads a magnitude, of at least one digit, and gives it a sign. -/
def readSigned (negative : Bool) (cs : List Char) : Except IntegerError Int64 :=
  if cs.isEmpty then .error .malformed
  else
    match readDigits 18446744073709551615 0 cs with
    | .error e => .error e
    | .ok n =>
      if negative then
        if n ≤ 9223372036854775808 then .ok (Int64.ofInt (-(n : Int))) else .error .outOfRange
      else if n < 9223372036854775808 then .ok (Int64.ofNat n) else .error .outOfRange

/-- Reads an integer of sixty-four bits. -/
def readInt64 (s : String) : Except IntegerError Int64 :=
  match s.toList with
  | '+' :: r => readSigned false r
  | '-' :: r => readSigned true r
  | cs => readSigned false cs

/-- An integer of sixty-four bits, if a text spells one. -/
def int64? (s : String) : Option Int64 :=
  (readInt64 s).toOption

/-- The decimal form of an integer of sixty-four bits. -/
def ofInt64 (n : Int64) : String :=
  toString n.toInt

/-- The truth values. -/
def ofBool (b : Bool) : String :=
  if b then "true" else "false"

end EngineHost.Text
