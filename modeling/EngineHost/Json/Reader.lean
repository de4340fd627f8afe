import EngineHost.Json.Basic
import EngineHost.Text.Bytes

/-!
# Reading JSON text

`Json.readFirst?` reads the value at the head of a text and gives what follows it; `Json.readWhole?`
wants nothing but blanks behind the value. A text is a list of characters; octets outside UTF-8 have
become U+FFFD before, which is fine inside a string and refused everywhere else. Half of a surrogate
pair reads as U+FFFD, too. Values may be nested ten thousand deep.
-/

namespace EngineHost.Json

/-- The blanks of the format. -/
def isSpace (c : Char) : Bool :=
  c = ' ' || c = '\t' || c = '\n' || c = '\r'

/-- Drops blanks in front. -/
def skipSpace (cs : List Char) : List Char :=
  cs.dropWhile isSpace

/-- Is a character a decimal digit? -/
def isDigit (c : Char) : Bool :=
  '0' ≤ c && c ≤ '9'

/-- Four hexadecimal digits. -/
def readUnit? : List Char → Option (Nat × List Char)
  | a :: b :: c :: d :: r => do
    let a ← Bytes.hexValue? a
    let b ← Bytes.hexValue? b
    let c ← Bytes.hexValue? c
    let d ← Bytes.hexValue? d
    pure (((a * 16 + b) * 16 + c) * 16 + d, r)
  | _ => none

/-- The low half of a surrogate pair in an escape right at the head of a text. -/
def readLowHalf? : List Char → Option (Nat × List Char)
  | '\\' :: 'u' :: r =>
    match readUnit? r with
    | some (u, rest) => if 0xDC00 ≤ u ∧ u ≤ 0xDFFF then some (u, rest) else none
    | none => none
  | _ => none

/-- The character of an escape that starts with unit `u`, and what follows it. -/
def resolveUnit (u : Nat) (r : List Char) : Char × List Char :=
  if 0xD800 ≤ u ∧ u ≤ 0xDBFF then
    match readLowHalf? r with
    | some (v, rest) => (Char.ofNat (0x10000 + (u - 0xD800) * 0x400 + (v - 0xDC00)), rest)
    | none => (Bytes.replacement, r)
  else if 0xDC00 ≤ u ∧ u ≤ 0xDFFF then (Bytes.replacement, r)
  else (Char.ofNat u, r)

/-- The character behind a backslash, the units of `u` apart. -/
def plainEscape? (c : Char) : Option Char :=
  match c with
  | '"' => some '"'
  | '\\' => some '\\'
  | '/' => some '/'
  | 'b' => some (Char.ofNat 8)
  | 'f' => some (Char.ofNat 12)
  | 'n' => some '\n'
  | 'r' => some '\r'
  | 't' => some '\t'
  | _ => none

/-- The characters that stand for themselves in a string. -/
def isPlain (c : Char) : Bool :=
  0x20 ≤ c.toNat && c ≠ '"' && c ≠ '\\'

/-- Reads a string behind its opening quote: a run of plain characters, then the closing quote, or
an escape and the rest of the string. Each escape takes a unit of `fuel`. -/
def readChars? : (fuel : Nat) → List Char → Option (List Char × List Char)
  | 0, _ => none
  | fuel + 1, cs =>
    let plain := cs.takeWhile isPlain
    match cs.dropWhile isPlain with
    | '"' :: r => some (plain, r)
    | '\\' :: 'u' :: r => do
      let (u, r) ← readUnit? r
      let (c, r) := resolveUnit u r
      let (more, r) ← readChars? fuel r
      pure (plain ++ c :: more, r)
    | '\\' :: e :: r => do
      let c ← plainEscape? e
      let (more, r) ← readChars? fuel r
      pure (plain ++ c :: more, r)
    | _ => none

/-- Reads a string behind its opening quote. -/
def readString? (cs : List Char) : Option (String × List Char) :=
  (readChars? (cs.length + 1) cs).map fun (s, r) => (String.ofList s, r)

/-- The digits at the head of a text, at least one. -/
def readDigits? (cs : List Char) : Option (List Char × List Char) :=
  match cs.takeWhile isDigit with
  | [] => none
  | ds => some (ds, cs.dropWhile isDigit)

/-- The whole part of a number: a zero, or digits that start with another one. -/
def readWholePart? : List Char → Option (List Char × List Char)
  | '0' :: r => some (['0'], r)
  | cs => readDigits? cs

/-- The fraction of a number, if there is one. -/
def readFraction? : List Char → Option (List Char × List Char)
  | '.' :: r => (readDigits? r).map fun (ds, r) => ('.' :: ds, r)
  | cs => some ([], cs)

/-- The exponent of a number, if there is one. -/
def readPower? : List Char → Option (List Char × List Char)
  | e :: r =>
    if e = 'e' ∨ e = 'E' then
      match r with
      | s :: r' =>
        if s = '+' ∨ s = '-' then (readDigits? r').map fun (ds, r) => (e :: s :: ds, r)
        else (readDigits? r).map fun (ds, r) => (e :: ds, r)
      | [] => none
    else some ([], e :: r)
  | [] => some ([], [])

/-- The spelling of a number. -/
def readNumber? (cs : List Char) : Option (String × List Char) := do
  let (sign, r) := match cs with
    | '-' :: r => (['-'], r)
    | r => ([], r)
  let (whole, r) ← readWholePart? r
  let (fraction, r) ← readFraction? r
  let (power, r) ← readPower? r
  pure (String.ofList (sign ++ whole ++ fraction ++ power), r)

/-- How deep values may be nested. -/
def maxDepth : Nat := 10000

mutual

/-- Reads a value at the head of a text without leading blanks, inside `depth` others. -/
def readValue? (fuel depth : Nat) (cs : List Char) : Option (Json × List Char) :=
  match fuel with
  | 0 => none
  | fuel + 1 =>
    match cs with
    | 'n' :: 'u' :: 'l' :: 'l' :: r => some (.null, r)
    | 't' :: 'r' :: 'u' :: 'e' :: r => some (.bool true, r)
    | 'f' :: 'a' :: 'l' :: 's' :: 'e' :: r => some (.bool false, r)
    | '"' :: r => (readString? r).map fun (s, r) => (.string s, r)
    | '[' :: r =>
      if depth ≥ maxDepth then none
      else
        match skipSpace r with
        | ']' :: r => some (.array [], r)
        | r => (readItems? fuel (depth + 1) r).map fun (items, r) => (.array items, r)
    | '\x7b' :: r =>
      if depth ≥ maxDepth then none
      else
        match skipSpace r with
        | '\x7d' :: r => some (.object [], r)
        | r => (readMembers? fuel (depth + 1) r).map fun (ms, r) => (.object ms, r)
    | cs => (readNumber? cs).map fun (s, r) => (.number s, r)

/-- Reads the items of an array, at least one, to the closing bracket. -/
def readItems? (fuel depth : Nat) (cs : List Char) : Option (List Json × List Char) :=
  match fuel with
  | 0 => none
  | fuel + 1 => do
    let (item, r) ← readValue? fuel depth cs
    match skipSpace r with
    | ']' :: r => pure ([item], r)
    | ',' :: r =>
      let (items, r) ← readItems? fuel depth (skipSpace r)
      pure (item :: items, r)
    | _ => none

/-- Reads the members of an object, at least one, to the closing brace. -/
def readMembers? (fuel depth : Nat) (cs : List Char) :
    Option (List (String × Json) × List Char) :=
  match fuel with
  | 0 => none
  | fuel + 1 =>
    match cs with
    | '"' :: r => do
      let (name, r) ← readString? r
      match skipSpace r with
      | ':' :: r =>
        let (value, r) ← readValue? fuel depth (skipSpace r)
        match skipSpace r with
        | '\x7d' :: r => pure ([(name, value)], r)
        | ',' :: r =>
          let (members, r) ← readMembers? fuel depth (skipSpace r)
          pure ((name, value) :: members, r)
        | _ => none
      | _ => none
    | _ => none

end

/-- The value at the head of a text, blanks before it skipped, and what follows it. -/
def readFirst? (cs : List Char) : Option (Json × List Char) :=
  readValue? (cs.length + 1) 0 (skipSpace cs)

/-- The value that fills a text, blanks around it apart. -/
def readWhole? (cs : List Char) : Option Json :=
  match readFirst? cs with
  | some (v, r) => if (skipSpace r).isEmpty then some v else none
  | none => none

end EngineHost.Json
