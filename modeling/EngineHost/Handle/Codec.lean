import EngineHost.Handle.Basic
import EngineHost.Handle.Field
import EngineHost.Json.Decode

/-!
# Exporting handles

A handle leaves as a list of ten values (`Handle.serialize`), as ten named fields with the payload
in base64 (`Handle.flatten`) or as the JSON text of these (`Handle.toJson`), and comes back through
`Handle.construct`, `Handle.deserialize` and `Handle.ofJson`. Reading takes every spelling that an
export format may have given a field: a value inside a list of one, the payload as bytes or as text,
names as one text or many, the flag as a truth value, a digit or a number of any type.
-/

namespace EngineHost.Handle

/-! ### Writing -/

/-- The flag as a digit. -/
def flagText (b : Bool) : String :=
  if b then "1" else "0"

/-- Binding names in one text. -/
def joinNames (names : List String) : String :=
  Text.join "%" names

/-- A field as text, the payload in base64. -/
def fieldText (h : Handle) : Slot → String
  | .abiVersion => schemaVersion
  | .name => h.name
  | .device => h.device.text
  | .engine => Base64.encode h.engine
  | .inputNames => joinNames h.inputNames
  | .outputNames => joinNames h.outputNames
  | .hardwareCompatible => flagText h.hardwareCompatible
  | .metadata => h.metadata.encode
  | .targetPlatform => h.targetPlatform
  | .reserved => h.reserved

/-- The list of field values, the payload as bytes. -/
def serialize (h : Handle) : List FieldValue :=
  Slot.all.map fun slot => if slot = .engine then .bytes h.engine else .string (h.fieldText slot)

/-- The named fields, all of them texts. -/
def flatten (h : Handle) : List Field :=
  Slot.all.map fun slot => { name := slot.key, value := .string (h.fieldText slot) }

/-- The JSON form: the named fields. -/
def toJson (h : Handle) : Json :=
  .array (Slot.all.map fun slot =>
    .object [("name", .string slot.key), ("value", .string (h.fieldText slot))])

/-! ### Reading one field -/

/-- A text. Metadata and the reserved text may be absent. -/
def readText (slot : Slot) (v : FieldValue) : Except Malformed String :=
  match v.unwrapSingle with
  | .string s => .ok s
  | .null =>
    if slot = .metadata ∨ slot = .reserved then .ok ""
    else .error (slot.malformed ("expected string, got " ++ v.typeName))
  | _ => .error (slot.malformed ("expected string, got " ++ v.typeName))

/-- The payload, as bytes or in base64. -/
def readEngine (v : FieldValue) : Except Malformed Bytes :=
  match v.unwrapSingle with
  | .bytes bs => .ok bs
  | .string s =>
    match Base64.decode s with
    | .ok bs => .ok bs
    | .error e => .error (Slot.engine.malformed ("invalid base64: " ++ e.message))
  | _ =>
    .error (Slot.engine.malformed ("expected bytes or base64 string, got " ++ v.typeName))

/-- The texts of a list, counting from `i`. -/
def readTexts (slot : Slot) (i : Nat) : List FieldValue → Except Malformed (List String)
  | [] => .ok []
  | .string s :: more => (readTexts slot (i + 1) more).map (s :: ·)
  | v :: _ =>
    .error (slot.malformed ("element " ++ toString i ++ " is " ++ v.typeName ++ ", want string"))

/-- The names in a list of texts, each of which may join several; an empty text joins none. -/
def splitNames (parts : List String) : List String :=
  parts.flatMap fun p => if p = "" then [] else Text.split bindingDelim p

/-- Binding names. -/
def readNames (slot : Slot) (v : FieldValue) : Except Malformed (List String) :=
  match v with
  | .string s => .ok (splitNames [s])
  | .strings ss => .ok (splitNames ss)
  | .list items => (readTexts slot 0 items).map splitNames
  | v =>
    .error (slot.malformed ("expected string or string sequence, got " ++ v.typeName))

/-- The refusal of a flag. -/
def refuseFlag (shown : String) : Except Malformed Bool :=
  .error (Slot.hardwareCompatible.malformed ("unrecognized value " ++ shown))

/-- A flag given as an integer. -/
def readIntFlag (n : Int) : Except Malformed Bool :=
  if n = 0 then .ok false
  else if n = 1 then .ok true
  else refuseFlag (toString n)

/-- A flag given as a number. -/
def readNumberFlag (x : Double) : Except Malformed Bool :=
  if x.isWhole then readIntFlag x.toInt64.toInt else refuseFlag (x.text .general)

/-- The compatibility flag. -/
def readFlag (v : FieldValue) : Except Malformed Bool :=
  match v with
  | .bool b => .ok b
  | .string s =>
    let t := Text.trim s
    if t = "0" then .ok false
    else if t = "1" then .ok true
    else refuseFlag (Text.quote s)
  | .int _ n => readIntFlag n
  | .float32 x => readNumberFlag x.toDouble
  | .float64 x => readNumberFlag x
  | .number spelling =>
    match Double.read spelling with
    | .ok x => readNumberFlag x
    | .error _ => refuseFlag (Text.quote spelling)
  | v => refuseFlag ("of type " ++ v.typeName)

/-! ### Reading a handle -/

/-- Makes a handle of its ten field values. -/
def construct (info : List FieldValue) : Except Malformed Handle :=
  match info with
  | [version, name, device, engine, inputs, outputs, flag, metadata, platform, reserved] => do
    let version ← readText .abiVersion version
    if version ≠ schemaVersion then
      .error (Slot.abiVersion.malformed ("unsupported schema version " ++ Text.quote version ++
        " (want " ++ Text.quote schemaVersion ++ ")"))
    let name ← readText .name name
    let device ← (readText .device device).bind DeviceInfo.parse
    let engine ← readEngine engine
    let inputNames ← readNames .inputNames inputs
    let outputNames ← readNames .outputNames outputs
    let hardwareCompatible ← readFlag flag.unwrapSingle
    let metadata ← (readText .metadata metadata).bind Metadata.decode
    let targetPlatform ← readText .targetPlatform platform
    let reserved ← readText .reserved reserved
    make { name, device, engine, inputNames, outputNames, hardwareCompatible, metadata,
           targetPlatform, reserved }
  | info =>
    .error ⟨"", "expected " ++ toString Slot.all.length ++ " fields, got " ++
      toString info.length⟩

/-- Checks the names of fields and takes their values, scalar ones out of lists of one. -/
def takeValues (i : Nat) : List Slot → List Field → Except Malformed (List FieldValue)
  | slot :: slots, f :: fields =>
    if f.name ≠ "" ∧ f.name ≠ slot.key then
      .error (slot.malformed ("field " ++ toString i ++ " is named " ++ Text.quote f.name))
    else do
      let v := match slot with
        | .engine => f.value
        | .inputNames => f.value
        | .outputNames => f.value
        | _ => f.value.unwrapSingle
      let more ← takeValues (i + 1) slots fields
      pure (v :: more)
  | _, _ => .ok []

/-- Makes a handle of its named fields. -/
def deserialize (fields : List Field) : Except Malformed Handle :=
  if fields.length ≠ Slot.all.length then
    .error ⟨"", "expected " ++ toString Slot.all.length ++ " flattened fields, got " ++
      toString fields.length⟩
  else (takeValues 0 Slot.all fields).bind construct

/-- Makes a handle of JSON text that holds its named fields and nothing else. -/
def ofJson (cs : List Char) : Except Malformed Handle :=
  match (Json.readWhole? cs).bind (fun v => Field.readList false [v]) with
  | none => .error ⟨"", "decode flattened handle: not a list of fields"⟩
  | some fields => deserialize fields

end EngineHost.Handle
