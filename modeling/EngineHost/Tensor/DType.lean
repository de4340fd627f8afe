import EngineHost.Text.Letters
import EngineHost.Text.Pieces
import EngineHost.Text.Quoted
import EngineHost.Text.Space

/-!
# Element types

Tensors hold elements of four kinds. A descriptor, a profile or a program names its element type,
and that name may be one that no tensor can have; so the name (`DType`) and the kind it stands for
(`DType.kind?`) are different things.
-/

namespace EngineHost

/-- The kinds of elements a tensor can hold. -/
inductive ElementKind where
  | float32
  | float16
  | int32
  | int64
  deriving DecidableEq, Repr

/-- The name of an element type. -/
structure DType where
  name : String
  deriving DecidableEq, Repr, Inhabited

namespace ElementKind

/-- The name of a kind. -/
def name : ElementKind → String
  | .float32 => "float32"
  | .float16 => "float16"
  | .int32 => "int32"
  | .int64 => "int64"

/-- The width of an element in bytes. -/
def width : ElementKind → Nat
  | .float32 => 4
  | .float16 => 2
  | .int32 => 4
  | .int64 => 8

/-- A kind as an element type. -/
def dtype (k : ElementKind) : DType := ⟨k.name⟩

end ElementKind

namespace DType

/-- Single precision. -/
def float32 : DType := ElementKind.float32.dtype

/-- The kind that a name stands for. -/
def kind? (d : DType) : Option ElementKind :=
  if d.name = "float32" then some .float32
  else if d.name = "float16" then some .float16
  else if d.name = "int32" then some .int32
  else if d.name = "int64" then some .int64
  else none

/-- The width of an element in bytes, none for an unknown name. -/
def size (d : DType) : Nat :=
  match d.kind? with
  | some k => k.width
  | none => 0

/-- Can a tensor have this element type? -/
def isValid (d : DType) : Bool :=
  d.kind?.isSome

/-- The refusal of a name that stands for no kind. -/
def unsupportedMessage (name : String) : String :=
  "unsupported tensor dtype " ++ Text.quote name

/-- The kind that one of the usual spellings stands for: blanks around it, its case and an enclosing
`tensor(…)` do not matter. -/
def parse? (raw : String) : Option ElementKind :=
  let word := Text.stripEnd ")" (Text.stripStart "tensor(" (Text.lower (Text.trim raw)))
  if word ∈ ["float", "float32", "f32"] then some .float32
  else if word ∈ ["half", "float16", "f16"] then some .float16
  else if word ∈ ["int", "int32", "i32"] then some .int32
  else if word ∈ ["int64", "long", "i64"] then some .int64
  else none

end DType

end EngineHost
