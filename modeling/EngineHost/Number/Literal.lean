import EngineHost.Number.Shortest
import EngineHost.Text.Bytes
import EngineHost.Text.Integer

/-!
# Reading numbers

A number literal is decimal with an optional point and an optional power of ten, or hexadecimal with
an optional point and a mandatory power of two, or the name of an infinity or of not-a-number.
Single underscores may stand between digits. The value is exact until it is rounded once, to the
nearest number of the wanted format; a literal beyond the largest number is out of range.
-/

namespace EngineHost

/-- What a literal says, before rounding. -/
inductive Literal where
  | notANumber
  | infinite (negative : Bool)
  /-- `significand · 10 ^ exponent` -/
  | decimal (negative : Bool) (significand : Nat) (exponent : Int)
  /-- `significand · 2 ^ exponent` -/
  | binary (negative : Bool) (significand : Nat) (exponent : Int)
  deriving DecidableEq, Repr

namespace Literal

/-- Digits read so far: their value, whether there were any, how many stand behind the point. -/
structure Digits where
  value : Nat := 0
  any : Bool := false
  point : Bool := false
  places : Nat := 0

/-- Reads digits of a base up to the first other character, with one point and any underscores. -/
def readDigits (base : Nat) (acc : Digits) : List Char → Digits × List Char
  | [] => (acc, [])
  | c :: r =>
    if c = '_' then readDigits base acc r
    else if c = '.' then
      if acc.point then (acc, c :: r) else readDigits base { acc with point := true } r
    else
      match Bytes.hexValue? c with
      | some d =>
        if d < base then
          readDigits base
            { acc with
              value := acc.value * base + d, any := true,
              places := if acc.point then acc.places + 1 else acc.places } r
        else (acc, c :: r)
      | none => (acc, c :: r)

/-- An optional sign. -/
def readSign : List Char → Bool × List Char
  | '+' :: r => (false, r)
  | '-' :: r => (true, r)
  | cs => (false, cs)

/-- The digits of an exponent behind `acc`; those behind the fifth that counts are passed over. -/
def exponentDigits? (acc : Nat) : List Char → Option Nat
  | [] => some acc
  | c :: r =>
    if c = '_' then exponentDigits? acc r
    else
      match Text.digit? c with
      | none => none
      | some d => exponentDigits? (if acc < 10000 then acc * 10 + d else acc) r

/-- The digits of an exponent, at least one, to the end. -/
def readExponent? (cs : List Char) : Option Int :=
  let (negative, r) := readSign cs
  match r with
  | [] => none
  | c :: _ =>
    if (Text.digit? c).isNone then none
    else (exponentDigits? 0 r).map fun n => if negative then -Int.ofNat n else Int.ofNat n

/-- What the character before a place in a literal was. -/
inductive Before where
  | start
  | digit
  | underscore
  | other
  deriving DecidableEq

/-- Do underscores stand between digits only? A base mark counts as a digit. -/
def underscoresFit (hex : Bool) : (before : Before) → List Char → Bool
  | before, [] => before ≠ .underscore
  | before, c :: r =>
    if (Text.digit? c).isSome || (hex && (Bytes.hexValue? c).isSome) then
      underscoresFit hex .digit r
    else if c = '_' then before = .digit && underscoresFit hex .underscore r
    else before ≠ .underscore && underscoresFit hex .other r

/-- Does a text equal a word in lower case, whatever its own case? -/
def isWord (word : String) (cs : List Char) : Bool :=
  cs.map Char.toLower == word.toList

/-- Reads what follows the sign of a finite literal. -/
def readFinite? (negative : Bool) (cs : List Char) : Option Literal :=
  let (base, mark, body, fit) := match cs with
    | '0' :: x :: c :: r =>
      if x.toLower = 'x' then (16, 'p', c :: r, underscoresFit true .digit (c :: r))
      else (10, 'e', cs, underscoresFit false .start cs)
    | _ => (10, 'e', cs, underscoresFit false .start cs)
  let (digits, rest) := readDigits base {} body
  if !digits.any || !fit then none
  else
    let exponent : Option (Option Int) := match rest with
      | [] => some none
      | c :: r => if c.toLower = mark then (readExponent? r).map some else none
    match exponent with
    | none => none
    | some none =>
      if base = 16 then none else some (.decimal negative digits.value (-(digits.places : Int)))
    | some (some e) =>
      if base = 16 then some (.binary negative digits.value (e - 4 * digits.places))
      else some (.decimal negative digits.value (e - digits.places))

/-- Reads a literal that fills its text. -/
def read? (cs : List Char) : Option Literal :=
  let (negative, r) := readSign cs
  if isWord "nan" cs then some .notANumber
  else if isWord "inf" r || isWord "infinity" r then some (.infinite negative)
  else readFinite? negative r

/-- The pattern nearest to a literal, and whether it is in range. Exponents so large or so small
that the answer is plain are not computed with. -/
def round (f : Format) : Literal → Nat × Bool
  | .notANumber => (f.infinity + Nat.pow 2 (f.fractionBits - 1), true)
  | .infinite negative => (f.withSign negative f.infinity, true)
  | .decimal negative m e =>
    if m = 0 then (f.withSign negative 0, true)
    else
      let lead := e + (Shortest.decimalLength m : Int)
      let magnitude :=
        if 400 < lead then f.infinity
        else if lead < -400 then 0
        else
          let (n, d) := Shortest.tenPower e
          f.ofRatio (m * n) d
      (f.withSign negative magnitude, magnitude < f.infinity)
  | .binary negative m e =>
    if m = 0 then (f.withSign negative 0, true)
    else
      let lead := e + (m.log2 : Int)
      let magnitude :=
        if 2000 < lead then f.infinity
        else if lead < -2000 then 0
        else f.ofScaled m e
      (f.withSign negative magnitude, magnitude < f.infinity)

end Literal

/-- Why a text is refused as a number. -/
abbrev NumberError := Text.IntegerError

/-- The pattern of the number nearest to a literal text. -/
def readNumber (f : Format) (s : String) : Except NumberError Nat :=
  match Literal.read? s.toList with
  | none => .error .malformed
  | some l =>
    let (bits, inRange) := l.round f
    if inRange then .ok bits else .error .outOfRange

/-- The number of sixty-four bits nearest to a literal text. -/
def Double.read (s : String) : Except NumberError Double :=
  (readNumber .double s).map fun bits => ⟨UInt64.ofNat bits⟩

/-- The number of thirty-two bits nearest to a literal text. -/
def Single.read (s : String) : Except NumberError Single :=
  (readNumber .single s).map fun bits => ⟨UInt32.ofNat bits⟩

end EngineHost
