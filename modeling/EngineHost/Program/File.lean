import EngineHost.Handle.Metadata
import EngineHost.Json.Decode
import EngineHost.Json.Writer
import EngineHost.Program.Basic

/-!
# Program files

A program is stored as JSON, two blanks a level. Numbers in the fields of objects keep their
spelling. Reading takes the first JSON value and leaves what follows alone.
-/

namespace EngineHost

namespace Program

open Json.Reader in
/-- Reads a device. -/
def readDevice : Json.Reader Device := record fun m => do
  pure { type := ← m.get "type" text, index := ← m.get "index" int64 }

open Json.Reader in
/-- Reads a declared input. -/
def readInput : Json.Reader ProgramInput := record fun m => do
  pure {
    name := ← m.get "name" text
    dtype := ← m.get "dtype" DType.read
    shape := ← m.get "shape" (list? int64)
    device := ← m.get "device" readDevice }

open Json.Reader in
/-- Reads an object. -/
def readObject : Json.Reader StoredObject := record fun m => do
  pure {
    name := ← m.get "name" text
    className := ← m.get "class" text
    fields := ← m.get "fields" (list? (Field.read true)) }

open Json.Reader in
/-- Reads a call. -/
def readNode : Json.Reader ProgramNode := record fun m => do
  pure {
    name := ← m.get "name" text
    op := ← m.get "op" text
    args := ← m.get "args" (list? text)
    objects := ← m.get "objects" (list text)
    outputs := ← m.get "outputs" (list? text) }

open Json.Reader in
/-- Reads a program. -/
def read : Json.Reader Program := record fun m => do
  pure {
    name := ← m.get "name" text
    inputs := ← m.get "inputs" (list? readInput)
    objects := ← m.get "objects" (list readObject)
    nodes := ← m.get "nodes" (list? readNode)
    outputs := ← m.get "outputs" (list? text) }

/-- Decodes a program without checking it. -/
def decode (data : Bytes) : Except Failure Program :=
  match (Json.readFirst? (Json.chars data)).bind fun (v, _) => read [v] with
  | some p => .ok p
  | none => .error (.within "decode program" (.plain "not a program"))

/-- Loads a program. -/
def load (data : Bytes) : Except Failure Program := do
  let p ← decode data
  p.validate
  pure p

/-- A device in JSON. -/
def deviceJson (d : Device) : Json :=
  .object [("type", .string d.type), ("index", .int d.index.toInt)]

/-- A declared input in JSON. -/
def inputJson (i : ProgramInput) : Json :=
  .object [("name", .string i.name), ("dtype", .string i.dtype.name),
    ("shape", .orNull .ints i.shape), ("device", deviceJson i.device)]

/-- An object in JSON, unless one of its fields has no JSON form. -/
def objectJson? (o : StoredObject) : Option Json := do
  let fields ← match o.fields with
    | none => some Json.null
    | some fields => (fields.mapM Field.toJson?).map Json.array
  pure (.object [("name", .string o.name), ("class", .string o.className), ("fields", fields)])

/-- A call in JSON. -/
def nodeJson (n : ProgramNode) : Json :=
  .object
    ([("name", .string n.name), ("op", .string n.op), ("args", .orNull .strings n.args)] ++
      (if n.objects.isEmpty then [] else [("objects", .strings n.objects)]) ++
      [("outputs", .orNull .strings n.outputs)])

/-- A program in JSON, unless one of its fields has no JSON form. -/
def toJson? (p : Program) : Option Json := do
  let objects ← p.objects.mapM objectJson?
  pure (.object
    ([("name", .string p.name),
      ("inputs", .orNull (fun is => .array (is.map inputJson)) p.inputs)] ++
      (if objects.isEmpty then [] else [("objects", .array objects)]) ++
      [("nodes", .orNull (fun ns => .array (ns.map nodeJson)) p.nodes),
        ("outputs", .orNull .strings p.outputs)]))

/-- The text of a program file. -/
def save (p : Program) : Except Failure String := do
  p.validate
  match p.toJson? with
  | some v => pure (v.indented ++ "\n")
  | none => .error (.within "encode program" (.plain "json: unsupported value"))

/-- Saves a program through `write`, which may fail. -/
def saveTo (p : Program) (write : String → Except Failure Unit) : Except Failure Unit := do
  let text ← p.save
  (write text).mapError (.within "encode program")

end Program

end EngineHost
