import EngineHost.Text.Integer
import EngineHost.Text.Letters
import EngineHost.Text.Pieces
import EngineHost.Text.Quoted
import EngineHost.Text.Space

/-!
# Devices

A device is a type name and an index. The empty type name means the processor, and comparison takes
it so.
-/

namespace EngineHost

/-- Where the storage of a tensor lives. -/
structure Device where
  type : String
  index : Int64
  deriving DecidableEq, Repr, Inhabited

namespace Device

/-- The processor, index zero. -/
def cpu : Device := ⟨"cpu", 0⟩

/-- The type name, with the empty one spelled out. -/
def typeName (d : Device) : String :=
  if d.type = "" then "cpu" else d.type

/-- The printed form. -/
def text (d : Device) : String :=
  d.typeName ++ ":" ++ Text.ofInt64 d.index

/-- The same device, with the empty type name spelled out. -/
def normalized (d : Device) : Device :=
  { d with type := d.typeName }

/-- Do two names mean the same device? -/
def same (d e : Device) : Bool :=
  d.normalized = e.normalized

/-- Why a text is refused as a device. -/
inductive ParseError where
  | badIndex (raw : String)
  | unsupportedType (type : String)
  deriving DecidableEq, Repr

/-- The wording of a refusal. -/
def ParseError.message : ParseError → String
  | .badIndex raw => "invalid device index in " ++ Text.quote raw
  | .unsupportedType type => "unsupported device type " ++ Text.quote type

/-- A type name that a device may have in text. -/
def ofType (type : String) (index : Int64) : Except ParseError Device :=
  if type = "cpu" ∨ type = "cuda" then .ok ⟨type, index⟩ else .error (.unsupportedType type)

/-- Reads `type` or `type:index`, blanks around it and case apart. Nothing at all is the
processor. -/
def parse (raw : String) : Except ParseError Device :=
  let s := Text.lower (Text.trim raw)
  if s = "" then .ok cpu
  else
    match Text.cut? ':' s with
    | none => ofType s 0
    | some (type, idx) =>
      match Text.int64? idx with
      | some n => if n < 0 then .error (.badIndex raw) else ofType type n
      | none => .error (.badIndex raw)

end Device

end EngineHost
