import EngineHost.Handle.DeviceInfo
import EngineHost.Json.Decode
import EngineHost.Json.Writer
import EngineHost.Tensor.DType
import EngineHost.Text.Base64

/-!
# What a handle says about its inputs and outputs

For every input a profile gives the least and the largest size of each axis, a negative largest size
meaning no bound. For every output each axis has a fixed size or copies an axis of an input.
Metadata may be left out, altogether or for one side. A profile that is absent and one of rank zero
are different things, in text and in comparison.

The names of bindings are texts, or octets as a network has them where a handle is built from one;
the checks are the same for both (`BindingName`).
-/

namespace EngineHost

/-- A kind of names for bindings: which of them is empty, which hold the delimiter, and how they are
quoted. -/
class BindingName (ν : Type) where
  empty : ν
  hasDelim : ν → Bool
  quote : ν → String

instance : BindingName String where
  empty := ""
  hasDelim := Text.hasChar bindingDelim
  quote := Text.quote

instance : BindingName Bytes where
  empty := []
  hasDelim n := n.contains bindingDelim.toUInt8
  quote := Text.quoteBytes

/-- One input with its profile. -/
structure InputSpec (ν : Type := String) where
  name : ν
  dtype : DType := ⟨""⟩
  min : Option Shape := none
  max : Option Shape := none
  deriving DecidableEq, Repr, Inhabited

/-- One axis of an output: a size, or a copy of an axis of the named input. -/
structure DimSpec (ν : Type := String) where
  static : Int64 := 0
  input : ν
  axis : Int64 := 0
  deriving DecidableEq, Repr, Inhabited

/-- One output. -/
structure OutputSpec (ν : Type := String) where
  name : ν
  dtype : DType := ⟨""⟩
  shape : Option (List (DimSpec ν)) := none
  deriving DecidableEq, Repr, Inhabited

/-- What is known of the inputs and outputs of an engine. -/
structure Metadata (ν : Type := String) where
  inputs : List (InputSpec ν) := []
  outputs : List (OutputSpec ν) := []
  deriving DecidableEq, Repr, Inhabited

/-- Reads an element type name. -/
def DType.read : Json.Reader DType :=
  fun history => (Json.Reader.text history).map DType.mk

namespace InputSpec

/-- The least sizes. -/
def low (s : InputSpec ν) : Shape := s.min.getD []

/-- The largest sizes. -/
def high (s : InputSpec ν) : Shape := s.max.getD []

end InputSpec

namespace DimSpec

variable [BindingName ν]

/-- A fixed size. -/
def ofSize (n : Int64) : DimSpec ν := { static := n, input := BindingName.empty }

/-- A copy of an axis of an input. -/
def ofInput (input : ν) (axis : Int64) : DimSpec ν := { input, axis }

/-- Is the size fixed? -/
def isStatic [DecidableEq ν] (d : DimSpec ν) : Bool := d.input = BindingName.empty

end DimSpec

/-- Does a size lie in the range of an axis? A negative upper end is no bound. -/
def inProfile (low high d : Int64) : Bool :=
  !(d < low) && !(0 ≤ high && high < d)

/-- The first axis whose range is empty or starts below zero. -/
def badProfileAxis (axis : Nat) : Shape → Shape → Option (Nat × Int64 × Int64)
  | low :: lows, high :: highs =>
    if low < 0 ∨ (0 ≤ high ∧ high < low) then some (axis, low, high)
    else badProfileAxis (axis + 1) lows highs
  | _, _ => none

namespace Metadata

variable {ν : Type} [DecidableEq ν] [BindingName ν]

/-- Is nothing said at all? -/
def isEmpty (m : Metadata ν) : Bool :=
  m.inputs.isEmpty && m.outputs.isEmpty

/-- The spec of an input. -/
def input? (m : Metadata ν) (name : ν) : Option (InputSpec ν) :=
  m.inputs.find? (·.name = name)

/-- Metadata as a handle keeps it: an output of rank zero has no list of axes. -/
def normalized (m : Metadata ν) : Metadata ν :=
  { m with
    outputs := m.outputs.map fun o =>
      { o with shape := if o.shape = some [] then none else o.shape } }

/-! ### Checks -/

/-- The refusal of metadata. -/
def refuse (reason : String) : Except Malformed α :=
  .error (Slot.metadata.malformed reason)

/-- Checks one input spec against its binding name. -/
def checkInput (i : Nat) (spec : InputSpec ν) (name : ν) : Except Malformed Unit :=
  if spec.name ≠ name then
    refuse ("input spec " ++ toString i ++ " is " ++ BindingName.quote spec.name ++
      ", binding is " ++ BindingName.quote name)
  else if !spec.dtype.isValid then
    refuse ("input " ++ BindingName.quote spec.name ++ " has unsupported dtype " ++
      Text.quote spec.dtype.name)
  else if spec.low.length ≠ spec.high.length then
    refuse ("input " ++ BindingName.quote spec.name ++ " profile rank mismatch: min " ++
      spec.low.listText ++ " max " ++ spec.high.listText)
  else
    match badProfileAxis 0 spec.low spec.high with
    | some (axis, low, high) =>
      refuse ("input " ++ BindingName.quote spec.name ++ " axis " ++ toString axis ++
        " has invalid profile [" ++ Text.ofInt64 low ++ ", " ++ Text.ofInt64 high ++ "]")
    | none => .ok ()

/-- Checks one axis of an output. -/
def checkDim (m : Metadata ν) (inputNames : List ν) (output : ν) (axis : Nat)
    (dim : DimSpec ν) : Except Malformed Unit :=
  let what := "output " ++ BindingName.quote output ++ " axis " ++ toString axis ++ " refers to "
  if dim.isStatic then .ok ()
  else if dim.axis < 0 then
    refuse (what ++ "negative axis " ++ Text.ofInt64 dim.axis ++ " of input " ++
      BindingName.quote dim.input)
  else if !inputNames.contains dim.input then
    refuse (what ++ "unknown input " ++ BindingName.quote dim.input)
  else
    match m.input? dim.input with
    | some spec =>
      if spec.low.length ≤ dim.axis.toNatClampNeg then
        refuse (what ++ "axis " ++ Text.ofInt64 dim.axis ++ " of rank-" ++
          toString spec.low.length ++ " input " ++ BindingName.quote dim.input)
      else .ok ()
    | none => .ok ()

/-- Checks the axes of an output from one axis on. -/
def checkDims (m : Metadata ν) (inputNames : List ν) (output : ν) (axis : Nat) :
    List (DimSpec ν) → Except Malformed Unit
  | [] => .ok ()
  | dim :: more => do
    checkDim m inputNames output axis dim
    checkDims m inputNames output (axis + 1) more

/-- Checks one output spec against its binding name. -/
def checkOutput (m : Metadata ν) (inputNames : List ν) (i : Nat) (spec : OutputSpec ν)
    (name : ν) : Except Malformed Unit :=
  if spec.name ≠ name then
    refuse ("output spec " ++ toString i ++ " is " ++ BindingName.quote spec.name ++
      ", binding is " ++ BindingName.quote name)
  else if !spec.dtype.isValid then
    refuse ("output " ++ BindingName.quote spec.name ++ " has unsupported dtype " ++
      Text.quote spec.dtype.name)
  else checkDims m inputNames spec.name 0 (spec.shape.getD [])

/-- Runs a check on two lists in step, counting from `i`. -/
def checkEach (check : Nat → α → ν → Except Malformed Unit) (i : Nat) :
    List α → List ν → Except Malformed Unit
  | spec :: specs, name :: names => do
    check i spec name
    checkEach check (i + 1) specs names
  | _, _ => .ok ()

/-- Checks metadata against the binding names: a side that is given covers every binding in order,
ranges are sound, and every copied axis exists. -/
def validate (m : Metadata ν) (inputNames outputNames : List ν) : Except Malformed Unit := do
  if !m.inputs.isEmpty then
    if m.inputs.length ≠ inputNames.length then
      refuse (toString m.inputs.length ++ " input specs for " ++ toString inputNames.length ++
        " input bindings")
    checkEach checkInput 0 m.inputs inputNames
  if !m.outputs.isEmpty then
    if m.outputs.length ≠ outputNames.length then
      refuse (toString m.outputs.length ++ " output specs for " ++ toString outputNames.length ++
        " output bindings")
    checkEach (checkOutput m inputNames) 0 m.outputs outputNames

/-! ### The field form -/

/-- One input spec in JSON. -/
def inputJson (s : InputSpec) : Json :=
  .object [("name", .string s.name), ("dtype", .string s.dtype.name),
    ("min", .orNull .ints s.min), ("max", .orNull .ints s.max)]

/-- One axis in JSON: parts that say nothing are left out. -/
def dimJson (d : DimSpec) : Json :=
  .object
    ((if d.static = 0 then [] else [("static", .int d.static.toInt)]) ++
      (if d.input = "" then [] else [("input", .string d.input)]) ++
      (if d.axis = 0 then [] else [("axis", .int d.axis.toInt)]))

/-- One output spec in JSON. -/
def outputJson (s : OutputSpec) : Json :=
  .object [("name", .string s.name), ("dtype", .string s.dtype.name),
    ("shape", .orNull (fun dims => .array (dims.map dimJson)) s.shape)]

/-- Metadata in JSON: an empty side is left out. -/
def toJson (m : Metadata) : Json :=
  .object
    ((if m.inputs.isEmpty then [] else [("inputs", .array (m.inputs.map inputJson))]) ++
      (if m.outputs.isEmpty then [] else [("outputs", .array (m.outputs.map outputJson))]))

open Json.Reader in
/-- Reads an input spec. -/
def readInput : Json.Reader InputSpec := record fun m => do
  pure {
    name := ← m.get "name" text
    dtype := ← m.get "dtype" DType.read
    min := ← m.get "min" (list? int64)
    max := ← m.get "max" (list? int64) }

open Json.Reader in
/-- Reads an axis. -/
def readDim : Json.Reader DimSpec := record fun m => do
  pure {
    static := ← m.get "static" int64
    input := ← m.get "input" text
    axis := ← m.get "axis" int64 }

open Json.Reader in
/-- Reads an output spec. -/
def readOutput : Json.Reader OutputSpec := record fun m => do
  pure {
    name := ← m.get "name" text
    dtype := ← m.get "dtype" DType.read
    shape := ← m.get "shape" (list? readDim) }

open Json.Reader in
/-- Reads metadata. -/
def read : Json.Reader Metadata := record fun m => do
  pure {
    inputs := ← m.get "inputs" (list readInput)
    outputs := ← m.get "outputs" (list readOutput) }

/-- The field form: nothing for empty metadata, base64 of the JSON otherwise. -/
def encode (m : Metadata) : String :=
  if m.isEmpty then "" else Base64.encode (Bytes.ofText m.toJson.compact)

/-- Reads the field form. -/
def decode (s : String) : Except Malformed Metadata :=
  if s = "" then .ok {}
  else
    match Base64.decode s with
    | .error e => refuse ("invalid base64: " ++ e.message)
    | .ok raw =>
      match (Json.readWhole? (Json.chars raw)).bind (fun v => read [v]) with
      | none => refuse "invalid JSON: not the metadata of a handle"
      | some m => .ok m

end Metadata

end EngineHost
