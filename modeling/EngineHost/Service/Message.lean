import EngineHost.Json.Decode
import EngineHost.Json.Writer
import EngineHost.Program.File

/-!
# Tensors in messages

A message carries a tensor as its name, element type, shape, device and a list of numbers, or
without the numbers what a tensor looks like. Numbers are doubles: integers of sixty-four bits are
converted directly, every other element type goes through single precision.
-/

namespace EngineHost

/-- A tensor in a message. -/
structure TensorMessage where
  name : String := ""
  dtype : DType := ⟨""⟩
  shape : List Int64 := []
  device : Device := ⟨"", 0⟩
  data : List Double := []
  deriving DecidableEq, Repr, Inhabited

namespace TensorMessage

open Json.Reader in
/-- Reads a tensor of a message. -/
def read : Json.Reader TensorMessage := record fun m => do
  pure {
    name := ← m.get "name" text
    dtype := ← m.get "dtype" DType.read
    shape := ← m.get "shape" (list int64)
    device := ← m.get "device" Program.readDevice
    data := ← m.get "data" (list double) }

/-- What is wrong with a tensor of a message. -/
def failure (m : TensorMessage) (why : String) : Failure :=
  .within ("tensor " ++ Text.quote m.name) (.plain why)

/-- The element type, under any of its names. -/
def kind (m : TensorMessage) : Except Failure ElementKind :=
  match DType.parse? m.dtype.name with
  | some k => .ok k
  | none => .error (m.failure (DType.unsupportedMessage m.dtype.name))

/-- What the tensor looks like. -/
def descriptor (m : TensorMessage) : Except Failure Descriptor :=
  m.kind.map fun k => ⟨k.dtype, m.shape, m.device⟩

/-- The elements of a kind. -/
def elements (m : TensorMessage) : ElementKind → Elements
  | .int64 => .int64 (m.data.map Double.toInt64).toArray
  | k => .ofSingles k (m.data.map Double.toSingle).toArray

/-- The tensor. -/
def toTensor (m : TensorMessage) : Except Failure Tensor := do
  let k ← m.kind
  (Tensor.make m.device (m.elements k) m.shape).mapError fun e => m.failure e.message

/-- The numbers of elements. -/
def numbers : Elements → List Double
  | .int64 v => v.toList.map fun n => .ofInt n.toInt
  | v => v.toSingles.toList.map Single.toDouble

/-- The message of a tensor. -/
def ofTensor (name : String) (t : Tensor) : TensorMessage :=
  { name, dtype := t.dtype, shape := t.shape, device := t.device, data := numbers t.elements }

/-- The message of what a tensor looks like. -/
def ofDescriptor (name : String) (d : Descriptor) : TensorMessage :=
  { name, dtype := d.dtype, shape := d.shape, device := d.device }

/-- The message of a value. -/
def ofValue (name : String) : Value → TensorMessage
  | .tensor t => ofTensor name t
  | .symbol d => ofDescriptor name d

/-- A message in JSON, unless it holds what is no number. -/
def toJson? (m : TensorMessage) : Option Json := do
  let data ← m.data.mapM Json.ofDouble?
  pure (.object
    ([("name", .string m.name), ("dtype", .string m.dtype.name),
      ("shape", if m.shape.isEmpty then .null else .ints m.shape),
      ("device", Program.deviceJson m.device)] ++
      (if data.isEmpty then [] else [("data", .array data)])))

end TensorMessage

end EngineHost
