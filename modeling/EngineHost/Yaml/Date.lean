import EngineHost.Text.Integer

/-!
# Dates

A date is a year of four digits, a month and a day with dashes between. A time of day may follow,
behind the letter T with a zone, or behind blanks without one.
-/

namespace EngineHost.Yaml.Date

/-- What follows a character. -/
def expect? (x : Char) : List Char → Option (List Char)
  | y :: r => if x = y then some r else none
  | [] => none

/-- A number of one or two digits. -/
def readPair? : List Char → Option (Nat × List Char)
  | x :: y :: r =>
    match Text.digit? x, Text.digit? y with
    | some a, some b => some (10 * a + b, r)
    | some a, none => some (a, y :: r)
    | none, _ => none
  | [x] => (Text.digit? x).map (·, [])
  | [] => none

/-- A number of one or two digits below a limit. -/
def readBelow? (limit : Nat) (cs : List Char) : Option (List Char) :=
  match readPair? cs with
  | some (n, r) => if n < limit then some r else none
  | none => none

/-- Is a year a leap year? -/
def isLeap (year : Nat) : Bool :=
  year % 4 = 0 && (year % 100 ≠ 0 || year % 400 = 0)

/-- The days of a month. -/
def daysIn (year month : Nat) : Nat :=
  if month = 2 then if isLeap year then 29 else 28
  else if month = 4 ∨ month = 6 ∨ month = 9 ∨ month = 11 then 30 else 31

/-- Reads a day: what follows it. -/
def readDay? (cs : List Char) : Option (List Char) := do
  let digits := cs.takeWhile Char.isDigit
  let year ← if digits.length = 4 then Text.natural? digits else none
  let r ← expect? '-' (cs.drop 4)
  let (month, r) ← readPair? r
  let r ← expect? '-' r
  let (day, r) ← readPair? r
  if 1 ≤ month ∧ month ≤ 12 ∧ 1 ≤ day ∧ day ≤ daysIn year month then some r else none

/-- Passes over a fraction of a second. -/
def skipFraction : List Char → List Char
  | p :: d :: r =>
    if (p = '.' ∨ p = ',') ∧ d.isDigit then r.dropWhile Char.isDigit else p :: d :: r
  | cs => cs

/-- Reads a time of day: what follows it. -/
def readTime? (cs : List Char) : Option (List Char) := do
  let r ← readBelow? 24 cs
  let r ← expect? ':' r
  let r ← readBelow? 60 r
  let r ← expect? ':' r
  let r ← readBelow? 60 r
  pure (skipFraction r)

/-- Two digits up to a limit. -/
def isUpTo (limit : Nat) (x y : Char) : Bool :=
  match Text.digit? x, Text.digit? y with
  | some a, some b => 10 * a + b ≤ limit
  | _, _ => false

/-- Is this a zone? -/
def isZone : List Char → Bool
  | ['Z'] => true
  | [sign, h, h', ':', m, m'] => (sign = '+' || sign = '-') && isUpTo 24 h h' && isUpTo 60 m m'
  | _ => false

/-- Is a text a date, with or without a time? -/
def isDate (s : String) : Bool :=
  match readDay? s.toList with
  | none => false
  | some [] => true
  | some (x :: r) =>
    if x = 'T' ∨ x = 't' then
      match readTime? r with
      | some zone => isZone zone
      | none => false
    else x = ' ' && readTime? (r.dropWhile (· = ' ')) = some []

end EngineHost.Yaml.Date
