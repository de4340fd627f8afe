/-!
# Moving through a YAML text

A `Cursor` is a place in a text with its line and column. Blanks are spaces and tabs. A line ends
with a line feed, a carriage return, both in a row, or one of three rarer characters; the first four
read as a line feed.
-/

namespace EngineHost.Yaml

/-- A blank within a line. -/
def isBlank (x : Char) : Bool :=
  x = ' ' || x = '\t'

/-- The line separator and the paragraph separator, which are kept as they are. -/
def isSeparator (x : Char) : Bool :=
  x.toNat = 0x2028 || x.toNat = 0x2029

/-- Does a character end a line? -/
def isBreak (x : Char) : Bool :=
  x = '\n' || x = '\r' || x.toNat = 0x85 || isSeparator x

/-- A blank or the end of a line. -/
def isSpace (x : Char) : Bool :=
  isBlank x || isBreak x

/-- A letter, a digit, a dash or an underscore. -/
def isNameChar (x : Char) : Bool :=
  x.isAlphanum || x = '_' || x = '-'

/-- May a text hold a character? -/
def isAllowed (x : Char) : Bool :=
  let n := x.toNat
  x = '\t' || x = '\n' || x = '\r' || (0x20 ≤ n && n ≤ 0x7E) || n = 0x85 ||
    (0xA0 ≤ n && n ≤ 0xFFFD) || 0x10000 ≤ n

/-- The mark that may stand at the start of a line without being part of it. -/
def byteOrderMark : Char := Char.ofNat 0xFEFF

/-- A place in a text: what follows it, how many characters and lines lie before it, and its
column. -/
structure Cursor where
  rest : List Char
  index : Nat := 0
  line : Nat := 0
  column : Nat := 0
  deriving DecidableEq, Repr

namespace Cursor

variable (c : Cursor)

/-- Is the next character this one? -/
def isAt (x : Char) : Bool :=
  c.rest.head? = some x

/-- Is the next character one of these? -/
def isAtAny (xs : String) : Bool :=
  match c.rest.head? with
  | some x => xs.toList.contains x
  | none => false

/-- Does a line end here? -/
def isAtBreak : Bool :=
  match c.rest with
  | x :: _ => isBreak x
  | [] => false

/-- Is there a blank here? -/
def isAtBlank : Bool :=
  match c.rest with
  | x :: _ => isBlank x
  | [] => false

/-- Is there a blank, the end of a line or the end of the text, so many characters further? -/
def isSpaceAfter (n : Nat) : Bool :=
  match c.rest[n]? with
  | some x => isSpace x
  | none => true

/-- So many characters further on the same line. -/
def advance (n : Nat) : Cursor :=
  { c with rest := c.rest.drop n, index := c.index + n, column := c.column + n }

/-- The characters of a kind here, and the place behind them. -/
def takeWhile (p : Char → Bool) : List Char × Cursor :=
  let xs := c.rest.takeWhile p
  (xs, c.advance xs.length)

/-- The place behind the characters of a kind. -/
def skipWhile (p : Char → Bool) : Cursor :=
  (c.takeWhile p).2

/-- The start of a new line, so many characters further. -/
def newLine (n : Nat) : Cursor :=
  { rest := c.rest.drop n, index := c.index + n, line := c.line + 1, column := 0 }

/-- The end of a line: how it reads, and the place behind it. -/
def readBreak? : Option (Char × Cursor) :=
  match c.rest with
  | '\r' :: '\n' :: _ => some ('\n', c.newLine 2)
  | x :: _ => if isBreak x then some (if isSeparator x then x else '\n', c.newLine 1) else none
  | [] => none

/-- The start of the next line, if a line ends here. -/
def skipBreak : Cursor :=
  match c.readBreak? with
  | some (_, next) => next
  | none => c

/-- Does a line of three such characters start here? -/
def isMark (x : Char) : Bool :=
  c.column = 0 && c.rest.take 3 = [x, x, x] && c.isSpaceAfter 3

/-- Is there a mark between documents here? -/
def isAtMark : Bool :=
  c.isMark '-' || c.isMark '.'

end Cursor

end EngineHost.Yaml
