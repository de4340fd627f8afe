import EngineHost.Command.Workspace
import EngineHost.Program.Describe
import EngineHost.Program.Sample

/-!
# Commands on programs and handles

`sample` writes one of the sample programs, `inspect` describes the program, `handle encode` prints
one of its engines in transport form and `handle decode` checks such a form.
-/

namespace EngineHost

namespace Files

variable [Monad m] (w : World m)

/-- Writes a sample program. -/
def sample (c : Settings) (a : Arguments) : m (Except Failure Unit) := do
  let out := if a.text "out" = "" then c.program else a.text "out"
  match ← Workspace.station w c with
  | .error f => pure (.error f)
  | .ok _ =>
    let config : BuildConfig :=
      { hardwareCompatible := a.isOn "hardware-compatible", signature := c.signature,
        platform := a.text "target-platform" }
    let built : Except Failure (Program × String) := do
      let r ← Workspace.registry
      let p ← Sample.build (a.rest.headD "") r config
      let text ← p.save
      pure (p, text)
    match built with
    | .error f => pure (.error f)
    | .ok (p, text) =>
      match ← Location.write w out (Bytes.ofText text) with
      | .error f => pure (.error f)
      | .ok () =>
        w.print ("wrote " ++ p.name ++ " (" ++ toString p.nodeList.length ++ " nodes, " ++
          toString p.objects.length ++ " engines) to " ++ out ++ "\n")

/-- Describes the program. -/
def inspect (c : Settings) : m (Except Failure Unit) := do
  match ← Workspace.load w c.program with
  | .error f => pure (.error f)
  | .ok p =>
    match p.describe with
    | .error f => pure (.error f)
    | .ok text => w.print text

/-- The transport form of an object of a program. -/
def encoded (p : Program) (name : String) : Except Failure String :=
  match p.objects.find? (·.name = name) with
  | none =>
    .error (.plain ("program " ++ p.name ++ " has no object " ++ Text.quote name))
  | some o =>
    if o.className ≠ EngineOp.className then
      .error (.plain ("object " ++ o.name ++ " is a " ++ o.className ++ ", not an engine"))
    else (Program.engineOf o).map fun h => h.toJson.indented ++ "\n"

/-- Prints an engine in transport form. -/
def encode (c : Settings) (a : Arguments) : m (Except Failure Unit) := do
  match ← Workspace.load w c.program with
  | .error f => pure (.error f)
  | .ok p =>
    match encoded p (a.rest.headD "") with
    | .error f => pure (.error f)
    | .ok text => w.print text

/-- What there is to say of an engine in transport form: the first JSON value of some data. -/
def decoded (data : Bytes) : Except Failure String :=
  match (Json.readFirst? (Json.chars data)).bind fun (v, _) => Field.readList false [v] with
  | none => .error (.within "decode handle JSON" (.plain "not a list of fields"))
  | some fields =>
    match Handle.deserialize fields with
    | .error e => .error e.toFailure
    | .ok h => .ok (Field.listText h.flatten ++ "\ndigest: " ++ h.digest ++ "\n")

/-- The data of a file; a directory opens and gives nothing to decode. -/
def fileData (path : String) : m (Except Failure Bytes) := do
  match ← w.stat path with
  | .ok .directory => pure (.error (.within "decode handle JSON" (.plain "is a directory")))
  | _ => w.openFile path

/-- Checks an engine in transport form, from a file or the standard input. -/
def decode (a : Arguments) : m (Except Failure Unit) := do
  let source := a.rest.headD "-"
  let data ← if source = "-" then .ok <$> w.input else fileData w source
  match data with
  | .error f => pure (.error f)
  | .ok data =>
    match decoded data with
    | .error f => pure (.error f)
    | .ok text => w.print text

end Files

end EngineHost
