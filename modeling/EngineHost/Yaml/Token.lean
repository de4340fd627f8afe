import EngineHost.Yaml.Text

/-!
# Tokens

A text is cut into tokens. Indentation gives tokens of its own: lists and tables by indentation are
opened where their first item or key starts further right, and closed where a line starts further
left.

That something was a key shows only at the colon behind it. Where a key may start, its place is
therefore remembered, and the colon puts the mark of the key, and the opening of its table if that
is new, back to that place. A key has to end on its line, within `keyLength` characters.
-/

namespace EngineHost.Yaml

/-- A token. -/
inductive Token where
  | version (major minor : String)
  | handle (name start : String)
  | documentStart
  | documentEnd
  | streamEnd
  | openItems
  | openEntries
  | close
  | openList
  | closeList
  | openTable
  | closeTable
  | comma
  | dash
  | key
  | colon
  | alias (name : String)
  | anchor (name : String)
  | tag (handle suffix : String)
  | scalar (text : String) (isPlain : Bool)
  deriving DecidableEq, Repr

/-! ### Names and tags -/

/-- The name of an anchor, behind its mark. -/
def readName (c : Cursor) : Option (String × Cursor) :=
  let (name, next) := (c.advance 1).takeWhile isNameChar
  if name.isEmpty then none
  else if next.isSpaceAfter 0 || next.isAtAny "?:,]\x7d%@\x60" then some (String.ofList name, next)
  else none

/-- May a character stand in a tag? -/
def isTagChar (x : Char) : Bool :=
  isNameChar x || ";/?:@&=+$.!~*\x27()[],".toList.contains x

/-- Reads characters of a tag behind `acc`, which is in reverse; some are written with a percent
sign. -/
def readTagChars : (fuel : Nat) → (acc : List Char) → Cursor → Option (List Char × Cursor)
  | 0, acc, c => some (acc, c)
  | fuel + 1, acc, c =>
    match c.rest with
    | '%' :: r =>
      match hexChar? 2 r with
      | some x => readTagChars fuel (x :: acc) (c.advance 3)
      | none => none
    | x :: _ => if isTagChar x then readTagChars fuel (x :: acc) (c.advance 1) else some (acc, c)
    | [] => some (acc, c)

/-- Reads characters of a tag, at least one unless some are there. -/
def readTagText (before : List Char) (c : Cursor) : Option (String × Cursor) :=
  match readTagChars c.rest.length [] c with
  | none => none
  | some (acc, next) =>
    if acc.isEmpty && before.isEmpty then none
    else some (String.ofList (before.drop 1 ++ acc.reverse), next)

/-- An exclamation mark and what looks like a handle behind it. -/
def readHandle (c : Cursor) : List Char × Cursor :=
  let (name, next) := (c.advance 1).takeWhile isNameChar
  if next.isAt '!' then ('!' :: name ++ ['!'], next.advance 1) else ('!' :: name, next)

/-- Is this a handle, with marks on both sides? -/
def isHandle (h : List Char) : Bool :=
  1 < h.length && h.getLast? = some '!'

/-- Reads a tag: its handle and what follows. -/
def readTag (c : Cursor) : Option (Token × Cursor) := do
  let (token, next) ←
    if (c.advance 1).isAt '<' then do
      let (text, next) ← readTagText [] (c.advance 2)
      if next.isAt '>' then pure (Token.tag "" text, next.advance 1) else none
    else
      let (handle, next) := readHandle c
      if isHandle handle then do
        let (text, next) ← readTagText [] next
        pure (Token.tag (String.ofList handle) text, next)
      else do
        let (text, next) ← readTagText handle next
        pure (if text = "" then Token.tag "" "!" else .tag "!" text, next)
  if next.isSpaceAfter 0 then pure (token, next) else none

/-! ### Directives -/

/-- The longest number in a version. -/
def versionLength : Nat := 9

/-- A number of a version. -/
def readVersionNumber (c : Cursor) : Option (String × Cursor) :=
  let (ds, next) := c.takeWhile Char.isDigit
  if ds.isEmpty || versionLength < ds.length then none
  else some (String.ofList (match ds.dropWhile (· = '0') with
    | [] => ['0']
    | ds => ds), next)

/-- Reads a directive, to the end of its line. -/
def readDirective (c : Cursor) : Option (Token × Cursor) := do
  let (name, next) := (c.advance 1).takeWhile isNameChar
  if name.isEmpty || !next.isSpaceAfter 0 then none
  let next := next.skipWhile isBlank
  let (token, next) ←
    if name = "YAML".toList then do
      let (major, next) ← readVersionNumber next
      if !next.isAt '.' then none
      let (minor, next) ← readVersionNumber (next.advance 1)
      pure (Token.version major minor, next)
    else if name = "TAG".toList then do
      if !next.isAt '!' then none
      let (handle, next) := readHandle next
      if !isHandle handle && handle ≠ ['!'] then none
      if !next.isAtBlank then none
      let (text, next) ← readTagText [] (next.skipWhile isBlank)
      if !next.isSpaceAfter 0 then none
      pure (Token.handle (String.ofList handle) text, next)
    else none
  let next := next.skipWhile isBlank
  let next := if next.isAt '#' then next.skipWhile (!isBreak ·) else next
  if next.isAtBreak || next.rest.isEmpty then pure (token, next.skipBreak) else none

/-! ### The scanner -/

/-- A place where a key may have started: the number of its token, and whether it has to be a
key. -/
structure PossibleKey where
  token : Nat
  isRequired : Bool
  place : Cursor
  deriving DecidableEq, Repr

/-- How long a key may be. -/
def keyLength : Nat := 1024

/-- A text while it is cut into tokens. -/
structure Scanner where
  cursor : Cursor
  tokens : List Token := []
  /-- The column of the innermost list or table by indentation, and of those around it. -/
  indent : Int := -1
  outer : List Int := []
  /-- Where a key may have started, in the innermost brackets and in those around them. -/
  keys : List (Option PossibleKey) := [none]
  /-- May a key start here? -/
  allowsKey : Bool := true

namespace Scanner

variable (s : Scanner)

/-- Are we in brackets? -/
def inBrackets : Bool :=
  1 < s.keys.length

/-- One more token. -/
def emit (t : Token) : Scanner :=
  { s with tokens := s.tokens ++ [t] }

/-- One more token, behind which lies a place. -/
def emitTo (t : Token) (c : Cursor) : Scanner :=
  { s.emit t with cursor := c }

/-- One more token, put before others. -/
def insert (n : Nat) (t : Token) : Scanner :=
  { s with tokens := s.tokens.take n ++ t :: s.tokens.drop n }

/-- Forgets that a key may have started; one that is required was expected to go on. -/
def dropKey : Option Scanner :=
  match s.keys with
  | some k :: more => if k.isRequired then none else some { s with keys := none :: more }
  | _ => some s

/-- Remembers that a key may start here. -/
def saveKey : Option Scanner :=
  if !s.allowsKey then some s
  else
    let isRequired := !s.inBrackets && s.indent = s.cursor.column
    s.dropKey.map fun s =>
      { s with keys := some ⟨s.tokens.length, isRequired, s.cursor⟩ :: s.keys.drop 1 }

/-- The key that may have started, if it still may be one. -/
def liveKey : Option (Option PossibleKey) :=
  match s.keys with
  | some k :: _ =>
    if k.place.line < s.cursor.line || k.place.index + keyLength < s.cursor.index then
      if k.isRequired then none else some none
    else some (some k)
  | _ => some none

/-- Opens a list or a table at a column right of the innermost one, before the token of a number. -/
def deepen (column : Nat) (n : Nat) (t : Token) : Scanner :=
  if s.inBrackets || (column : Int) ≤ s.indent then s
  else { s.insert n t with indent := column, outer := s.indent :: s.outer }

/-- How many of the columns lie right of one, and those that remain. -/
def shallower (column : Int) : Int → List Int → Nat × Int × List Int
  | indent, [] => (0, indent, [])
  | indent, next :: more =>
    if column < indent then
      let (n, indent, more) := shallower column next more
      (n + 1, indent, more)
    else (0, indent, next :: more)

/-- Closes the lists and tables right of a column. -/
def closeTo (column : Int) : Scanner :=
  if s.inBrackets then s
  else
    let (n, indent, outer) := shallower column s.indent s.outer
    { s with tokens := s.tokens ++ List.replicate n .close, indent, outer }

/-- The place behind the comments that start here, one after the other, with nothing but space
between them. -/
def skipComments : (fuel : Nat) → Cursor → Cursor
  | 0, c => c
  | fuel + 1, c =>
    let ended := c.skipWhile (!isBreak ·)
    let next := skipSpace (ended.rest.length + 1) ended
    if next.isAt '#' then skipComments fuel next else ended
where
  /-- The place behind blanks and line ends. -/
  skipSpace : Nat → Cursor → Cursor
    | 0, c => c
    | fuel + 1, c =>
      match c.readBreak? with
      | some (_, next) => skipSpace fuel next
      | none => if c.isAtBlank then skipSpace fuel (c.advance 1) else c

/-- Goes to the next token, past blanks, comments and line ends. A tab counts as a blank only where
no key may start. -/
def toToken : (fuel : Nat) → Scanner → Scanner
  | 0, s => s
  | fuel + 1, s =>
    let c :=
      if s.cursor.column = 0 && s.cursor.isAt byteOrderMark then s.cursor.advance 1 else s.cursor
    let takesTabs := s.inBrackets || !s.allowsKey
    let c := c.skipWhile fun x => x = ' ' || (takesTabs && x = '\t')
    let c := if c.isAt '#' then skipComments c.rest.length c else c
    if c.isAtBreak then
      toToken fuel { s with cursor := c.skipBreak, allowsKey := s.allowsKey || !s.inBrackets }
    else { s with cursor := c }

/-- The end of the text. -/
def finish : Option Scanner :=
  ((s.closeTo (-1)).dropKey).map fun s => { s.emit .streamEnd with allowsKey := false }

/-- A mark between documents. -/
def mark (t : Token) : Option Scanner :=
  ((s.closeTo (-1)).dropKey).map fun s =>
    { s.emitTo t (s.cursor.advance 3) with allowsKey := false }

/-- A directive. -/
def directive : Option Scanner := do
  let s ← (s.closeTo (-1)).dropKey
  let (t, next) ← readDirective s.cursor
  pure { s.emitTo t next with allowsKey := false }

/-- The deepest nesting of brackets, and of indents. -/
def maxNesting : Nat := 10000

/-- An opening bracket. -/
def openBracket (t : Token) : Option Scanner := do
  let s ← s.saveKey
  if maxNesting < s.keys.length then none
  pure { s.emitTo t (s.cursor.advance 1) with keys := none :: s.keys, allowsKey := true }

/-- A closing bracket. -/
def closeBracket (t : Token) : Option Scanner :=
  s.dropKey.map fun s =>
    { s.emitTo t (s.cursor.advance 1) with
      keys := if s.inBrackets then s.keys.drop 1 else s.keys, allowsKey := false }

/-- A comma between brackets. -/
def comma : Option Scanner :=
  s.dropKey.map fun s => { s.emitTo .comma (s.cursor.advance 1) with allowsKey := true }

/-- The dash of an item. -/
def dash : Option Scanner := do
  if !s.inBrackets && !s.allowsKey then none
  let s ← (s.deepen s.cursor.column s.tokens.length .openItems).dropKey
  pure { s.emitTo .dash (s.cursor.advance 1) with allowsKey := true }

/-- The mark of a key that is written out. -/
def questionMark : Option Scanner := do
  if !s.inBrackets && !s.allowsKey then none
  let s ← (s.deepen s.cursor.column s.tokens.length .openEntries).dropKey
  pure { s.emitTo .key (s.cursor.advance 1) with allowsKey := !s.inBrackets }

/-- The colon between a key and its value. -/
def colon : Option Scanner := do
  match ← s.liveKey with
  | some k =>
    let s := (s.insert k.token .key).deepen k.place.column k.token .openEntries
    pure { s.emitTo .colon (s.cursor.advance 1) with
      keys := none :: s.keys.drop 1, allowsKey := false }
  | none =>
    if !s.inBrackets && !s.allowsKey then none
    let s := s.deepen s.cursor.column s.tokens.length .openEntries
    pure { s.emitTo .colon (s.cursor.advance 1) with allowsKey := !s.inBrackets }

/-- A name, a tag or a quoted scalar, which may start a key. -/
def word (read : Cursor → Option (Token × Cursor)) : Option Scanner := do
  let s ← s.saveKey
  let (t, next) ← read s.cursor
  pure { s.emitTo t next with allowsKey := false }

/-- A block of lines, which is no key. -/
def block (isLiteral : Bool) : Option Scanner := do
  let s ← s.dropKey
  let (text, next) ← readBlock isLiteral s.indent (s.cursor.advance 1)
  pure { s.emitTo (.scalar text false) next with allowsKey := true }

/-- A plain scalar, which may start a key. Behind one that ended with its line a key may start
again. -/
def plain : Option Scanner := do
  let s ← s.saveKey
  let (text, isBroken, next) ← readPlain s.inBrackets (s.indent + 1).toNat s.cursor
  pure { s.emitTo (.scalar text true) next with allowsKey := isBroken }

/-- May a plain scalar start here? -/
def startsPlain : Bool :=
  let c := s.cursor
  if c.isAt '-' then !(c.advance 1).isAtBlank
  else if c.isAtAny "?:" then !s.inBrackets && !c.isSpaceAfter 1
  else !(c.isSpaceAfter 0 || c.isAtAny ",[]\x7b\x7d#&*!|>\x27\"%@\x60")

/-- The next token. -/
def next : Option Scanner :=
  let s := toToken (s.cursor.rest.length + 1) s
  let s := s.closeTo s.cursor.column
  let c := s.cursor
  if c.rest.isEmpty then s.finish
  else if c.column = 0 && c.isAt '%' then s.directive
  else if c.isMark '-' then s.mark .documentStart
  else if c.isMark '.' then s.mark .documentEnd
  else if c.isAt '[' then s.openBracket .openList
  else if c.isAt '\x7b' then s.openBracket .openTable
  else if c.isAt ']' then s.closeBracket .closeList
  else if c.isAt '\x7d' then s.closeBracket .closeTable
  else if c.isAt ',' then s.comma
  else if c.isAt '-' && c.isSpaceAfter 1 then s.dash
  else if c.isAt '?' && (s.inBrackets || c.isSpaceAfter 1) then s.questionMark
  else if c.isAt ':' && (s.inBrackets || c.isSpaceAfter 1) then s.colon
  else if c.isAt '*' then s.word fun c => (readName c).map fun (n, c) => (.alias n, c)
  else if c.isAt '&' then s.word fun c => (readName c).map fun (n, c) => (.anchor n, c)
  else if c.isAt '!' then s.word readTag
  else if c.isAt '|' && !s.inBrackets then s.block true
  else if c.isAt '>' && !s.inBrackets then s.block false
  else if c.isAt '\x27' then
    s.word fun c => (readQuoted '\x27' c).map fun (t, c) => (.scalar t false, c)
  else if c.isAt '"' then s.word fun c => (readQuoted '"' c).map fun (t, c) => (.scalar t false, c)
  else if s.startsPlain then s.plain
  else none

/-- Reads tokens to the end of the text, or up to where it cannot be cut further. -/
def run : (fuel : Nat) → Scanner → List Token × Bool
  | 0, s => (s.tokens, false)
  | fuel + 1, s =>
    match s.next with
    | none => (s.tokens, false)
    | some s => if s.tokens.getLast? = some .streamEnd then (s.tokens, true) else run fuel s

end Scanner

/-- The tokens of a text, and whether they reach to its end. -/
def scan (cs : List Char) : List Token × Bool :=
  Scanner.run (cs.length + 2) { cursor := { rest := cs } }

end EngineHost.Yaml
