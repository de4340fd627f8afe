import EngineHost.Text.Integer
import EngineHost.Text.Pieces
import EngineHost.Text.Quoted
import EngineHost.Text.Space

/-!
# Shapes

A shape is a list of dimensions in sixty-four bits; a negative one is dynamic, that is, not known
until execution. `Shape.count` counts the elements of a static shape from the left: it stops at the
first zero, and refuses the first negative dimension and the first one that takes the count out of
range.
-/

namespace EngineHost

/-- A list of dimensions. -/
abbrev Shape := List Int64

namespace Shape

/-- A dimension that is not known until execution. -/
def dynamic : Int64 := -1

/-- Is every dimension known? -/
def isStatic (shape : Shape) : Bool :=
  shape.all (0 ≤ ·)

/-- The largest number of sixty-four bits. -/
def maxCount : Nat := Nat.pow 2 63 - 1

/-- The dimensions in brackets. -/
def listText (shape : Shape) : String :=
  Text.bracketed (shape.map Text.ofInt64)

/-- Why a shape has no element count. -/
inductive CountError where
  | notStatic (axis : Nat) (dim : Int64)
  | overflow (shape : Shape)
  deriving DecidableEq, Repr

/-- The wording of the reason. -/
def CountError.message : CountError → String
  | .notStatic axis dim =>
    "shape[" ++ toString axis ++ "]=" ++ Text.ofInt64 dim ++ " is not static"
  | .overflow shape => "shape " ++ shape.listText ++ " overflows element count"

/-- Counts on behind `axis` dimensions with `acc` elements. -/
def countFrom (whole : Shape) (limit : Nat) (axis acc : Nat) : Shape → Except CountError Nat
  | [] => .ok acc
  | dim :: more =>
    if dim < 0 then .error (.notStatic axis dim)
    else if dim = 0 then .ok 0
    else if limit / dim.toNatClampNeg < acc then .error (.overflow whole)
    else countFrom whole limit (axis + 1) (acc * dim.toNatClampNeg) more

/-- The number of elements of a static shape. -/
def count (shape : Shape) : Except CountError Nat :=
  countFrom shape maxCount 0 1 shape

/-- One dimension for reading. -/
def dimText (d : Int64) : String :=
  if d < 0 then "?" else Text.ofInt64 d

/-- The printed form: dimensions with an `x` between, a question mark for each dynamic one, and
`scalar` where there are none. -/
def text : Shape → String
  | [] => "scalar"
  | shape => Text.join "x" (shape.map dimText)

/-- The refusal of a piece of text as a dimension. -/
structure ParseError where
  piece : String
  whole : String
  deriving DecidableEq, Repr

/-- The wording of a refusal. -/
def ParseError.message (e : ParseError) : String :=
  "invalid dimension " ++ Text.quote e.piece ++ " in shape " ++ Text.quote e.whole

/-- Reads one dimension. -/
def parseDim (whole piece : String) : Except ParseError Int64 :=
  if piece = "?" then .ok dynamic
  else
    match Text.int64? piece with
    | some n => if n < 0 then .error ⟨piece, whole⟩ else .ok n
    | none => .error ⟨piece, whole⟩

/-- Reads a printed shape, blanks around it apart. -/
def parse (raw : String) : Except ParseError Shape :=
  let s := Text.trim raw
  if s = "scalar" then .ok [] else (Text.split 'x' s).mapM (parseDim s)

end Shape

end EngineHost
