import EngineHost.Operator.Engine
import EngineHost.Program.Basic

/-!
# Programs for reading

`Program.describe` lists the inputs, calls and outputs of a program and what its engines are.
-/

namespace EngineHost

namespace Program

/-- The names in a list with commas. -/
def commas (names : List String) : String :=
  Text.join ", " names

/-- One input. -/
def describeInput (i : ProgramInput) : String :=
  "  " ++ Text.padEnd 12 i.name ++ " " ++ i.descriptor.text ++ "\n"

/-- One call. -/
def describeNode (n : ProgramNode) : String :=
  let objects := if n.objects.isEmpty then "" else "; " ++ commas n.objects
  "  " ++ Text.padEnd 12 n.name ++ " " ++ n.op ++ "(" ++ commas n.argList ++ objects ++ ") -> " ++
    commas n.outputList ++ "\n"

/-- One engine. -/
def describeEngine (name : String) (h : Handle) : String :=
  "engine " ++ name ++ ": " ++ h.name ++ "\n" ++
    "  io:                  (" ++ commas h.inputNames ++ ") -> (" ++ commas h.outputNames ++
      ")\n" ++
    "  device:              " ++ h.device.text ++ "\n" ++
    "  hardware compatible: " ++ Text.ofBool h.hardwareCompatible ++ "\n" ++
    "  target platform:     " ++ h.targetPlatform ++ "\n" ++
    "  payload:             " ++ h.sizeText ++ " (sha256 " ++ h.digest ++ ")\n" ++
    (if h.metadata.isEmpty then "  metadata:            none\n" else "")

/-- The engine of a stored object. -/
def engineOf (o : StoredObject) : Except Failure Handle :=
  (Handle.deserialize (o.fields.getD [])).mapError Malformed.toFailure

/-- One object. -/
def describeObject (o : StoredObject) : Except Failure String :=
  if o.className ≠ EngineOp.className then .ok ("object " ++ o.name ++ ": " ++ o.className ++ "\n")
  else
    match engineOf o with
    | .error f => .error (.within ("object " ++ o.name) f)
    | .ok h => .ok (describeEngine o.name h)

/-- The description of a program. -/
def describe (p : Program) : Except Failure String := do
  let objects ← p.objects.mapM describeObject
  pure ("program: " ++ p.name ++ "\ninputs:\n" ++ String.join (p.inputList.map describeInput) ++
    "nodes:\n" ++ String.join (p.nodeList.map describeNode) ++
    "outputs: " ++ commas p.outputList ++ "\n" ++ String.join objects)

end Program

end EngineHost
