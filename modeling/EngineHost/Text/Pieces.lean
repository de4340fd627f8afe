/-!
# Cutting and joining texts

A separator cuts a list of characters into pieces, always at least one; joining the pieces gives the
characters back. `cut?` cuts at the first separator only.
-/

namespace EngineHost.Text

/-- The pieces of a list between separators. The empty list is one empty piece. -/
def splitChars (sep : Char) : List Char → List (List Char)
  | [] => [[]]
  | c :: r =>
    if c = sep then [] :: splitChars sep r
    else
      match splitChars sep r with
      | [] => [[c]]
      | piece :: more => (c :: piece) :: more

/-- The pieces of a text between separators. -/
def split (sep : Char) (s : String) : List String :=
  (splitChars sep s.toList).map String.ofList

/-- What stands before and after the first separator. -/
def cutChars? (sep : Char) : List Char → Option (List Char × List Char)
  | [] => none
  | c :: r =>
    if c = sep then some ([], r)
    else (cutChars? sep r).map fun (before, after) => (c :: before, after)

/-- What stands before and after the first separator of a text. -/
def cut? (sep : Char) (s : String) : Option (String × String) :=
  (cutChars? sep s.toList).map fun (before, after) => (String.ofList before, String.ofList after)

/-- The part before the first separator: the whole text where there is none. -/
def before (sep : Char) (s : String) : String :=
  String.ofList (s.toList.takeWhile (· ≠ sep))

/-- Texts with a separator between neighbours. -/
def join (sep : String) : List String → String
  | [] => ""
  | [s] => s
  | s :: more => s ++ sep ++ join sep more

/-- What follows a given beginning. -/
def dropStart? : (start : List Char) → List Char → Option (List Char)
  | [], cs => some cs
  | p :: ps, c :: cs => if p = c then dropStart? ps cs else none
  | _ :: _, [] => none

/-- Does a text begin so? -/
def startsWith (start s : String) : Bool :=
  (dropStart? start.toList s.toList).isSome

/-- A text without a given beginning, unchanged where it begins otherwise. -/
def stripStart (start s : String) : String :=
  match dropStart? start.toList s.toList with
  | some rest => String.ofList rest
  | none => s

/-- A text without a given end, unchanged where it ends otherwise. -/
def stripEnd (ending s : String) : String :=
  match dropStart? ending.toList.reverse s.toList.reverse with
  | some rest => String.ofList rest.reverse
  | none => s

/-- Does a text end so? -/
def endsWith (ending s : String) : Bool :=
  (dropStart? ending.toList.reverse s.toList.reverse).isSome

/-- Does a pattern stand somewhere in a list of characters? -/
def containsChars (pattern : List Char) : List Char → Bool
  | [] => pattern.isEmpty
  | c :: r => (dropStart? pattern (c :: r)).isSome || containsChars pattern r

/-- Does a pattern stand somewhere in a text? -/
def contains (pattern s : String) : Bool :=
  containsChars pattern.toList s.toList

/-- Does a character stand in a text? -/
def hasChar (c : Char) (s : String) : Bool :=
  s.toList.contains c

/-- A list in brackets, items divided by single blanks. -/
def bracketed (items : List String) : String :=
  "[" ++ join " " items ++ "]"

/-- `c` written `n` times. -/
def times (c : Char) (n : Nat) : String :=
  String.ofList (List.replicate n c)

/-- A text brought to a width in characters by blanks behind it. -/
def padEnd (width : Nat) (s : String) : String :=
  s ++ times ' ' (width - s.length)

/-- A text brought to a width in characters by blanks before it. -/
def padStart (width : Nat) (s : String) : String :=
  times ' ' (width - s.length) ++ s

end EngineHost.Text
