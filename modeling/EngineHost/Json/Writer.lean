import EngineHost.Json.Basic
import EngineHost.Number.Layout
import EngineHost.Text.Bytes

/-!
# Writing JSON text

The compact form has no blanks. The indented form sets every item and member on a line of its own,
two blanks deeper than what holds it, and leaves empty arrays and objects closed up. In strings the
quote, the backslash and controls are escaped, and so are the characters that could end a script or
a line in a page that holds the text: `<`, `>`, `&`, U+2028 and U+2029.
-/

namespace EngineHost.Json

/-- One character of a string. -/
def escapeChar (c : Char) : List Char :=
  let unit := '\\' :: 'u' :: Bytes.hexDigits 4 c.toNat
  match c with
  | '"' => ['\\', '"']
  | '\\' => ['\\', '\\']
  | '\n' => ['\\', 'n']
  | '\r' => ['\\', 'r']
  | '\t' => ['\\', 't']
  | '<' => unit
  | '>' => unit
  | '&' => unit
  | c =>
    if c.toNat = 8 then ['\\', 'b']
    else if c.toNat = 12 then ['\\', 'f']
    else if c.toNat < 0x20 ∨ c.toNat = 0x2028 ∨ c.toNat = 0x2029 then unit
    else [c]

/-- A string in quotes. -/
def writeString (s : String) : List Char :=
  '"' :: s.toList.flatMap escapeChar ++ ['"']

mutual

/-- The compact form. -/
def writeCompact : Json → List Char
  | .null => "null".toList
  | .bool b => (if b then "true" else "false").toList
  | .number spelling => spelling.toList
  | .string s => writeString s
  | .array items => '[' :: writeItems items ++ [']']
  | .object members => '\x7b' :: writeMembers members ++ ['\x7d']

/-- Items with commas between. -/
def writeItems : List Json → List Char
  | [] => []
  | [v] => writeCompact v
  | v :: more => writeCompact v ++ ',' :: writeItems more

/-- Members with commas between. -/
def writeMembers : List (String × Json) → List Char
  | [] => []
  | [(name, v)] => writeString name ++ ':' :: writeCompact v
  | (name, v) :: more => writeString name ++ ':' :: writeCompact v ++ ',' :: writeMembers more

end

/-- A line end and the blanks of a depth. -/
def lineBreak (depth : Nat) : List Char :=
  '\n' :: List.replicate (2 * depth) ' '

mutual

/-- The indented form of a value that stands at a depth. -/
def writeIndented (depth : Nat) : Json → List Char
  | .array [] => ['[', ']']
  | .array items =>
    '[' :: writeItemLines (depth + 1) items ++ lineBreak depth ++ [']']
  | .object [] => ['\x7b', '\x7d']
  | .object members =>
    '\x7b' :: writeMemberLines (depth + 1) members ++ lineBreak depth ++ ['\x7d']
  | .null => "null".toList
  | .bool b => (if b then "true" else "false").toList
  | .number spelling => spelling.toList
  | .string s => writeString s

/-- Items, each on a line of its own. -/
def writeItemLines (depth : Nat) : List Json → List Char
  | [] => []
  | [v] => lineBreak depth ++ writeIndented depth v
  | v :: more => lineBreak depth ++ writeIndented depth v ++ ',' :: writeItemLines depth more

/-- Members, each on a line of its own. -/
def writeMemberLines (depth : Nat) : List (String × Json) → List Char
  | [] => []
  | [(name, v)] =>
    lineBreak depth ++ writeString name ++ ':' :: ' ' :: writeIndented depth v
  | (name, v) :: more =>
    lineBreak depth ++ writeString name ++ ':' :: ' ' :: writeIndented depth v ++
      ',' :: writeMemberLines depth more

end

/-- The compact text of a value. -/
def compact (v : Json) : String :=
  String.ofList v.writeCompact

/-- The indented text of a value. -/
def indented (v : Json) : String :=
  String.ofList (writeIndented 0 v)

/-- A number of sixty-four bits; only a finite one has a spelling. -/
def ofDouble? (x : Double) : Option Json :=
  if x.isFinite then some (.number (x.text .json)) else none

/-- A number of thirty-two bits; only a finite one has a spelling. -/
def ofSingle? (x : Single) : Option Json :=
  if x.isFinite then some (.number (x.text .json)) else none

end EngineHost.Json
