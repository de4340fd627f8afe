import EngineHost.Number.Based
import EngineHost.Text.Base64
import EngineHost.Yaml.Date

/-!
# What scalars say

A plain scalar is null, a truth value, a date, an integer in any base, a number, or else a text; the
first character tells which of these it can be. A quoted scalar is a text. A tag asks for one of
these kinds, and refuses a scalar of another one; a tag that is not known says nothing, and its
scalar is a text.
-/

namespace EngineHost.Yaml

/-- What a scalar says. -/
inductive Scalar where
  | null
  | flag (b : Bool)
  | int (n : Int)
  | number (x : Double)
  | date
  | text (s : String)
  deriving DecidableEq, Repr

namespace Scalar

/-- Digits with at least one, and the rest. -/
def digits? (cs : List Char) : Option (List Char) :=
  if (cs.takeWhile Char.isDigit).isEmpty then none else some (cs.dropWhile Char.isDigit)

/-- Is a text written like a decimal number? -/
def isDecimal (cs : List Char) : Bool :=
  let (_, cs) := Literal.readSign cs
  let afterMantissa : Option (List Char) := match cs with
    | '.' :: r => digits? r
    | cs =>
      (digits? cs).map fun r =>
        match r with
        | '.' :: r => r.dropWhile Char.isDigit
        | r => r
  match afterMantissa with
  | none => false
  | some [] => true
  | some (e :: r) =>
    (e = 'e' || e = 'E') && digits? (Literal.readSign r).2 = some []

/-- An integer of sixty-four bits with a sign, in a base. -/
def signed? (base : Nat) (cs : List Char) : Option Int :=
  let (negative, ds) := Literal.readSign cs
  if ds.isEmpty || ds.contains '_' then none
  else
    match Based.readDigits base (Nat.pow 2 63) 0 ds with
    | .ok n => if negative then some (-(n : Int)) else if n < Nat.pow 2 63 then some n else none
    | .error _ => none

/-- An integer of sixty-four bits without a sign, in a base. -/
def unsigned? (base : Nat) (cs : List Char) : Option Int :=
  if cs.isEmpty || cs.contains '_' then none
  else
    match Based.readDigits base (Nat.pow 2 64 - 1) 0 cs with
    | .ok n => some n
    | .error _ => none

/-- An integer, with or without a base mark. -/
def integer? (cs : List Char) : Option Int :=
  match Based.readInt64 (String.ofList cs) with
  | .ok n => some n.toInt
  | .error _ =>
    match Based.readMagnitude (Nat.pow 2 64 - 1) cs with
    | .ok n => some n
    | .error _ => none

/-- An integer whose sign stands behind its base mark. -/
def marked? : List Char → Option Int
  | '0' :: 'b' :: r => (signed? 2 r).orElse fun _ => unsigned? 2 r
  | '0' :: 'o' :: r => (signed? 8 r).orElse fun _ => unsigned? 8 r
  | '-' :: '0' :: 'b' :: r => signed? 2 ('-' :: r)
  | '-' :: '0' :: 'o' :: r => signed? 8 ('-' :: r)
  | _ => none

/-- A number in decimals. -/
def decimal? (s : String) : Option Double :=
  (Double.read s).toOption

/-- What a plain scalar says that starts with a digit or a sign; underscores in a number say
nothing. -/
def ofNumeral (s : String) : Scalar :=
  let cs := s.toList.filter (· ≠ '_')
  match integer? cs, if isDecimal cs then decimal? (String.ofList cs) else none, marked? cs with
  | some n, _, _ => .int n
  | none, some x, _ => .number x
  | none, none, some n => .int n
  | none, none, none => .text s

/-- The words with a meaning of their own. -/
def words : List (String × Scalar) := [
  ("", .null), ("~", .null), ("null", .null), ("Null", .null), ("NULL", .null),
  ("true", .flag true), ("True", .flag true), ("TRUE", .flag true),
  ("false", .flag false), ("False", .flag false), ("FALSE", .flag false),
  (".nan", .number ⟨0x7FF8000000000001⟩), (".NaN", .number ⟨0x7FF8000000000001⟩),
  (".NAN", .number ⟨0x7FF8000000000001⟩),
  (".inf", .number ⟨0x7FF0000000000000⟩), (".Inf", .number ⟨0x7FF0000000000000⟩),
  (".INF", .number ⟨0x7FF0000000000000⟩), ("+.inf", .number ⟨0x7FF0000000000000⟩),
  ("+.Inf", .number ⟨0x7FF0000000000000⟩), ("+.INF", .number ⟨0x7FF0000000000000⟩),
  ("-.inf", .number ⟨0xFFF0000000000000⟩), ("-.Inf", .number ⟨0xFFF0000000000000⟩),
  ("-.INF", .number ⟨0xFFF0000000000000⟩)]

/-- What a plain scalar says; dates only where they are looked for. -/
def ofPlain (takesDates : Bool) (s : String) : Scalar :=
  match words.lookup s with
  | some v => v
  | none =>
    match s.toList with
    | [] => .null
    | x :: _ =>
      if x = '.' then
        match decimal? s with
        | some n => .number n
        | none => .text s
      else if x.isDigit || x = '+' || x = '-' then
        if takesDates && Date.isDate s then .date else ofNumeral s
      else .text s

/-- The start of the tags with a meaning. -/
def tagStart : String := "tag:yaml.org,2002:"

/-- The kinds that a tag can ask for. -/
inductive Kind where
  | null
  | flag
  | int
  | number
  | date
  deriving DecidableEq, Repr

/-- Is a scalar of a kind? -/
def isOf : Scalar → Kind → Bool
  | .null, .null => true
  | .flag _, .flag => true
  | .int _, .int => true
  | .number _, .number => true
  | .date, .date => true
  | _, _ => false

/-- The kind that a tag asks for. -/
def kind? (tag : String) : Option Kind :=
  if tag = tagStart ++ "null" then some .null
  else if tag = tagStart ++ "bool" then some .flag
  else if tag = tagStart ++ "int" then some .int
  else if tag = tagStart ++ "float" then some .number
  else if tag = tagStart ++ "timestamp" then some .date
  else none

/-- What a scalar says, unless it is not what its tag asks for. -/
def read? (tag : Option String) (s : String) (isPlain : Bool) : Option Scalar :=
  match tag with
  | none => some (if isPlain then ofPlain true s else .text s)
  | some "!" => some (if isPlain then ofPlain true s else .text s)
  | some tag =>
    if tag = tagStart ++ "binary" then
      (Base64.decode s).toOption.map fun bs => .text bs.toText
    else
      match kind? tag with
      | none => some (.text s)
      | some k =>
        let v := ofPlain (k = .date) s
        match k, v with
        | .number, .int n => if n < Nat.pow 2 63 then some (.number (.ofInt n)) else none
        | k, v => if v.isOf k then some v else none

end Scalar

end EngineHost.Yaml
