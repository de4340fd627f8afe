import EngineHost.Text.Bytes
import EngineHost.Yaml.Cursor

/-!
# Scalars as they are written

A scalar is plain, quoted, or a block of lines. Plain and quoted scalars may go on over several
lines: a single line end within them reads as a space, and of several in a row all but the first are
kept. A block keeps its line ends, or folds them likewise, and its header says what becomes of those
at its end.
-/

namespace EngineHost.Yaml

/-! ### Gaps -/

/-- What lies between two words of a scalar: blanks on a line, or the end of a line with further
ones. -/
structure Gap where
  blanks : List Char := []
  isBroken : Bool := false
  /-- How the first line end reads; empty where it was written to be left out. -/
  first : List Char := []
  further : List Char := []
  deriving DecidableEq, Repr

namespace Gap

/-- How a gap reads. -/
def text (g : Gap) : List Char :=
  if !g.isBroken then g.blanks
  else if g.first = ['\n'] then if g.further.isEmpty then [' '] else g.further
  else g.first ++ g.further

/-- A gap with one more blank. Those at the start of a line say nothing. -/
def addBlank (g : Gap) (x : Char) : Gap :=
  if g.isBroken then g else { g with blanks := g.blanks ++ [x] }

/-- A gap with one more line end. -/
def addBreak (g : Gap) (x : Char) : Gap :=
  if g.isBroken then { g with further := g.further ++ [x] } else { isBroken := true, first := [x] }

/-- Reads on in a gap. No tab may stand left of `margin` at the start of a line. -/
def readFrom (margin : Nat) : (fuel : Nat) → Gap → Cursor → Option (Gap × Cursor)
  | 0, g, c => some (g, c)
  | fuel + 1, g, c =>
    match c.rest with
    | [] => some (g, c)
    | x :: _ =>
      if isBlank x then
        if g.isBroken ∧ c.column < margin ∧ x = '\t' then none
        else readFrom margin fuel (g.addBlank x) (c.advance 1)
      else
        match c.readBreak? with
        | some (b, next) => readFrom margin fuel (g.addBreak b) next
        | none => some (g, c)

/-- Reads on in a gap to its end. -/
def read (margin : Nat) (g : Gap) (c : Cursor) : Option (Gap × Cursor) :=
  readFrom margin c.rest.length g c

end Gap

/-! ### Plain scalars -/

/-- The characters that end a plain scalar in brackets. -/
def bracketMarks : List Char := [',', '?', '[', ']', '\x7b', '\x7d']

/-- How long the word is that starts here: up to a space, a colon before a space, or, in brackets,
one of the marks there. -/
def wordLength (inBrackets : Bool) : List Char → Nat
  | [] => 0
  | x :: r =>
    let endsKey := x = ':' && match r with
      | y :: _ => isSpace y
      | [] => true
    if isSpace x || endsKey || (inBrackets && bracketMarks.contains x) then 0
    else wordLength inBrackets r + 1

/-- Reads a plain scalar behind the characters `acc`, which are in reverse, and a gap. The gap that
remains tells whether the scalar ended with its line. Outside of brackets, further lines start at
`margin` or right of it. -/
def readPlainFrom (inBrackets : Bool) (margin : Nat) :
    (fuel : Nat) → (acc : List Char) → Gap → Cursor → Option (List Char × Gap × Cursor)
  | 0, _, _, _ => none
  | fuel + 1, acc, gap, c =>
    if c.isAtMark || c.isAt '#' then some (acc, gap, c)
    else
      let n := wordLength inBrackets c.rest
      let word := c.rest.take n
      let next := c.advance n
      let (acc, gap) := if n = 0 then (acc, gap) else (word.reverse ++ gap.text.reverse ++ acc, {})
      if !next.isAtBlank && !next.isAtBreak then some (acc, gap, next)
      else
        match gap.read margin next with
        | none => none
        | some (gap, next) =>
          if !inBrackets && next.column < margin then some (acc, gap, next)
          else readPlainFrom inBrackets margin fuel acc gap next

/-- Reads a plain scalar: its text, whether it ended with its line, and the place behind it. -/
def readPlain (inBrackets : Bool) (margin : Nat) (c : Cursor) : Option (String × Bool × Cursor) :=
  (readPlainFrom inBrackets margin (c.rest.length + 2) [] {} c).map fun (acc, gap, next) =>
    (String.ofList acc.reverse, gap.isBroken, next)

/-! ### Quoted scalars -/

/-- The characters that a letter behind a backslash stands for. -/
def namedEscapes : List (Char × Nat) :=
  [('0', 0), ('a', 7), ('b', 8), ('t', 9), ('\t', 9), ('n', 10), ('v', 11), ('f', 12), ('r', 13),
    ('e', 27), (' ', 32), ('"', 34), ('\x27', 39), ('/', 47), ('\\', 92), ('N', 0x85), ('_', 0xA0),
    ('L', 0x2028), ('P', 0x2029)]

/-- The character of so many hexadecimal digits. -/
def hexChar? (width : Nat) (cs : List Char) : Option Char := do
  let ds := cs.take width
  let n ← ds.foldlM (fun acc d => (Bytes.hexValue? d).map (acc * 16 + ·)) 0
  if ds.length = width ∧ n.isValidChar then some (Char.ofNat n) else none

/-- The character behind a backslash, and how many characters tell it. -/
def escape? : List Char → Option (Char × Nat)
  | [] => none
  | x :: r =>
    if x = 'x' then (hexChar? 2 r).map (·, 3)
    else if x = 'u' then (hexChar? 4 r).map (·, 5)
    else if x = 'U' then (hexChar? 8 r).map (·, 9)
    else (namedEscapes.lookup x).map fun n => (Char.ofNat n, 1)

/-- Reads the characters of a quoted scalar up to a space or the closing quote, behind `acc`, which
is in reverse. Also tells whether a line end was written to be left out. -/
def readRun (quote : Char) : (fuel : Nat) → (acc : List Char) → Cursor →
    Option (List Char × Bool × Cursor)
  | 0, acc, c => some (acc, false, c)
  | fuel + 1, acc, c =>
    match c.rest with
    | [] => some (acc, false, c)
    | x :: r =>
      if isSpace x then some (acc, false, c)
      else if x = quote then
        if quote = '\x27' ∧ r.head? = some quote then
          readRun quote fuel (quote :: acc) (c.advance 2)
        else some (acc, false, c)
      else if quote = '"' ∧ x = '\\' then
        match (c.advance 1).readBreak? with
        | some (_, next) => some (acc, true, next)
        | none =>
          match escape? r with
          | some (y, n) => readRun quote fuel (y :: acc) (c.advance (n + 1))
          | none => none
      else readRun quote fuel (x :: acc) (c.advance 1)

/-- Reads a quoted scalar behind `acc`, which is in reverse. -/
def readQuotedFrom (quote : Char) : (fuel : Nat) → (acc : List Char) → Cursor →
    Option (List Char × Cursor)
  | 0, _, _ => none
  | fuel + 1, acc, c =>
    if c.isAtMark || c.rest.isEmpty then none
    else do
      let (acc, isBroken, c) ← readRun quote c.rest.length acc c
      if c.isAt quote then pure (acc, c.advance 1)
      else do
        let (gap, c) ← Gap.read 0 { isBroken } c
        readQuotedFrom quote fuel (gap.text.reverse ++ acc) c

/-- Reads a quoted scalar from its opening quote on. -/
def readQuoted (quote : Char) (c : Cursor) : Option (String × Cursor) :=
  (readQuotedFrom quote (c.rest.length + 1) [] (c.advance 1)).map fun (acc, next) =>
    (String.ofList acc.reverse, next)

/-! ### Blocks of lines -/

/-- What becomes of the line ends at the end of a block: none is kept, one, or all. -/
inductive Tail where
  | strip
  | clip
  | keep
  deriving DecidableEq, Repr

/-- The header of a block: what becomes of its end, and how far it is indented if that is said. -/
structure BlockHeader where
  tail : Tail := .clip
  indent : Option Nat := none
  deriving DecidableEq, Repr

/-- A sign in the header of a block. -/
def readTail (c : Cursor) : Option (Tail × Cursor) :=
  if c.isAt '+' then some (.keep, c.advance 1)
  else if c.isAt '-' then some (.strip, c.advance 1)
  else none

/-- A digit in the header of a block, which is not zero. -/
def readIndent (c : Cursor) : Option (Option Nat × Cursor) :=
  match c.rest with
  | x :: _ =>
    if x = '0' then none
    else if x.isDigit then some (some (x.toNat - 48), c.advance 1)
    else some (none, c)
  | [] => some (none, c)

/-- Reads the header of a block, to the end of its line. -/
def readHeader (c : Cursor) : Option (BlockHeader × Cursor) := do
  let (header, c) ← match readTail c with
    | some (tail, c) => do
      let (indent, c) ← readIndent c
      pure ({ tail, indent : BlockHeader }, c)
    | none => do
      let (indent, c) ← readIndent c
      match indent, readTail c with
      | some _, some (tail, c) => pure ({ tail, indent : BlockHeader }, c)
      | _, _ => pure ({ indent : BlockHeader }, c)
  let c := c.skipWhile isBlank
  let c := if c.isAt '#' then c.skipWhile (!isBreak ·) else c
  if c.isAtBreak || c.rest.isEmpty then pure (header, c.skipBreak) else none

/-- Passes over indentation and empty lines. The indent is known, or found as the deepest column
reached. -/
def skipEmptyLines (indent : Option Nat) : (fuel : Nat) → (breaks : List Char) → (deepest : Nat) →
    Cursor → Option (List Char × Nat × Cursor)
  | 0, breaks, deepest, c => some (breaks, deepest, c)
  | fuel + 1, breaks, deepest, c =>
    let spaces := (c.rest.takeWhile (· = ' ')).length
    let c := match indent with
      | some n => c.advance (min spaces (n - c.column))
      | none => c.advance spaces
    let deepest := max deepest c.column
    let isShort := match indent with
      | some n => decide (c.column < n)
      | none => true
    if isShort && c.isAt '\t' then none
    else
      match c.readBreak? with
      | some (b, next) => skipEmptyLines indent fuel (breaks ++ [b]) deepest next
      | none => some (breaks, deepest, c)

/-- What is read of a block so far: its text in reverse, how its last line ended, the empty lines
since, and whether its last line started with a blank. -/
structure BlockText where
  acc : List Char := []
  lineEnd : List Char := []
  breaks : List Char := []
  startedBlank : Bool := false

/-- Reads the lines of a block that is indented so far. -/
def readLines (isLiteral : Bool) (indent : Nat) : (fuel : Nat) → BlockText → Cursor →
    Option (BlockText × Cursor)
  | 0, t, c => some (t, c)
  | fuel + 1, t, c =>
    if c.column ≠ indent || c.rest.isEmpty then some (t, c)
    else
      let startsBlank := c.isAtBlank
      let joins := !isLiteral && !t.startedBlank && !startsBlank && t.lineEnd = ['\n']
      let gap :=
        if joins then if t.breaks.isEmpty then [' '] else t.breaks else t.lineEnd ++ t.breaks
      let (line, c) := c.takeWhile (!isBreak ·)
      let acc := line.reverse ++ gap.reverse ++ t.acc
      let lineEnd := match c.readBreak? with
        | some (b, _) => [b]
        | none => []
      match skipEmptyLines (some indent) (c.rest.length + 1) [] 0 c.skipBreak with
      | none => none
      | some (breaks, _, c) =>
        readLines isLiteral indent fuel { acc, lineEnd, breaks, startedBlank := startsBlank } c

/-- Reads a block from behind its mark on, within lines that are indented so far. -/
def readBlock (isLiteral : Bool) (indent : Int) (c : Cursor) : Option (String × Cursor) := do
  let (header, c) ← readHeader c
  let least := (indent + 1).toNat
  let given := header.indent.map fun n => indent.toNat + n
  let (breaks, deepest, c) ← skipEmptyLines given (c.rest.length + 1) [] 0 c
  let margin := given.getD (max deepest (max least 1))
  let (t, c) ← readLines isLiteral margin (c.rest.length + 1) { breaks } c
  let tail := match header.tail with
    | .strip => []
    | .clip => t.lineEnd
    | .keep => t.lineEnd ++ t.breaks
  pure (String.ofList (t.acc.reverse ++ tail), c)

end EngineHost.Yaml
