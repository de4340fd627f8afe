import EngineHost.Number.Literal

/-!
# Integers with a base mark

An integer may be written in base ten, or behind `0x`, `0o` or `0b` in the base that these mark; a
zero in front of other digits marks base eight. Single underscores may stand between digits and
behind the mark. A text is out of range as soon as its digits so far are, whatever follows them.
-/

namespace EngineHost.Based

/-- The base of digits without their sign, and the digits behind its mark. -/
def baseOf : List Char → Nat × List Char
  | '0' :: x :: c :: r =>
    if x.toLower = 'x' then (16, c :: r)
    else if x.toLower = 'o' then (8, c :: r)
    else if x.toLower = 'b' then (2, c :: r)
    else (8, x :: c :: r)
  | '0' :: r => (8, r)
  | cs => (10, cs)

/-- The value of a digit of any base up to thirty-six. -/
def digitValue? (c : Char) : Option Nat :=
  if '0' ≤ c ∧ c ≤ '9' then some (c.toNat - 48)
  else if 'a' ≤ c.toLower ∧ c.toLower ≤ 'z' then some (c.toLower.toNat - 87)
  else none

/-- Digits behind `acc`, none of which may lead above `limit`. -/
def readDigits (base limit acc : Nat) : List Char → Except Text.IntegerError Nat
  | [] => .ok acc
  | c :: r =>
    if c = '_' then readDigits base limit acc r
    else
      match digitValue? c with
      | none => .error .malformed
      | some d =>
        if base ≤ d then .error .malformed
        else if limit < acc * base + d then .error .outOfRange
        else readDigits base limit (acc * base + d) r

/-- Do the underscores of a number without its sign stand where they may? -/
def underscoresFit : List Char → Bool
  | '0' :: x :: r =>
    if x.toLower = 'x' ∨ x.toLower = 'o' ∨ x.toLower = 'b' then
      Literal.underscoresFit (x.toLower = 'x') .digit r
    else Literal.underscoresFit false .start ('0' :: x :: r)
  | cs => Literal.underscoresFit false .start cs

/-- The magnitude of a number without its sign. -/
def readMagnitude (limit : Nat) (cs : List Char) : Except Text.IntegerError Nat :=
  if cs.isEmpty then .error .malformed
  else
    let (base, digits) := baseOf cs
    match readDigits base limit 0 digits with
    | .error e => .error e
    | .ok n => if cs.contains '_' && !underscoresFit cs then .error .malformed else .ok n

/-- Reads an integer of sixty-four bits. -/
def readInt64 (s : String) : Except Text.IntegerError Int64 :=
  let (negative, cs) := Literal.readSign s.toList
  match readMagnitude (Nat.pow 2 64 - 1) cs with
  | .error e => .error e
  | .ok n =>
    if negative then
      if n ≤ Nat.pow 2 63 then .ok (Int64.ofInt (-(n : Int))) else .error .outOfRange
    else if n < Nat.pow 2 63 then .ok (Int64.ofNat n) else .error .outOfRange

/-- Reads a natural number of thirty-two bits. -/
def readUInt32 (s : String) : Except Text.IntegerError UInt32 :=
  (readMagnitude (Nat.pow 2 32 - 1) s.toList).map UInt32.ofNat

end EngineHost.Based
