import EngineHost.Engine.Session
import EngineHost.Number.Span
import EngineHost.Storage.Location
import EngineHost.Storage.Tree
import EngineHost.Storage.Web

/-!
# The surroundings of a command

What a command can see and do is a record of effects, `World m`. Commands are written over any
`World`, so they run against the machine and against `Scene`, which keeps everything such a command
can touch in one value.
-/

namespace EngineHost

/-- What a command can see and do. -/
structure World (m : Type → Type) where
  /-- A variable of the environment; empty where it is not set. -/
  env : String → m String
  stat : String → m (Except Failure FileNode)
  openFile : String → m (Except Failure Bytes)
  write : String → Bytes → m (Except Failure Unit)
  /-- Sends a request to an address. -/
  ask : String → m Reply
  /-- All of the standard input. -/
  input : m Bytes
  print : String → m (Except Failure Unit)
  printError : String → m Unit
  /-- The time, from some start on. -/
  now : m Span
  /-- Has the caller given up? -/
  signal : m Signal
  /-- Waits at an address that was found good until told to stop. -/
  listen : String → m (Except Failure Unit)
  /-- The library for ONNX graphs. -/
  onnx : OnnxLibrary

namespace Location

/-- Buckets need an access that is not built in. -/
def noBuckets : Failure :=
  .plain "no access to buckets"

variable [Monad m] (w : World m)

/-- Reads the object at a location. -/
def read (text : String) : m (Except Failure Bytes) :=
  match resolve text with
  | .error e => pure (.error (.plain e.message))
  | .ok (.bucket _ _) => pure (.error noBuckets)
  | .ok (.web url) => Web.read w.ask url
  | .ok (.file path) => do
    let out ← w.openFile path
    pure (out.mapError (.within ("reading " ++ path)))

/-- Writes an object to a location. -/
def write (text : String) (data : Bytes) : m (Except Failure Unit) :=
  match resolve text with
  | .error e => pure (.error (.plain e.message))
  | .ok (.bucket _ _) => pure (.error noBuckets)
  | .ok (.web url) => pure (.error (readOnly url))
  | .ok (.file path) => w.write path data

end Location

/-- Surroundings that are one value: files, variables, what answers requests, and what was
printed. -/
structure Scene where
  tree : Tree := {}
  env : List (String × String) := []
  reply : Reply := .failed "no connection"
  input : Bytes := []
  signal : Signal := .never
  /-- What every print fails with. -/
  printFailure : Option Failure := none
  output : String := ""
  errorOutput : String := ""
  clock : Span := 0

namespace Scene

/-- How far the clock moves each time it is looked at. -/
def tick : Span := 1000

/-- Listening ends where the caller has given up, and cannot start elsewhere. -/
def listen (s : Scene) : Except Failure Unit :=
  if s.signal = .never then .error (.plain "nothing to listen with") else .ok ()

/-- A scene as surroundings. -/
def world : World (StateM Scene) where
  env name := do return ((← get).env.lookup name).getD ""
  stat path := do return (← get).tree.stat path
  openFile path := do return (← get).tree.openFile path
  write path data := modifyGet fun s =>
    let (out, tree) := s.tree.write {} path data
    (out, { s with tree })
  ask _ := do return (← get).reply
  input := do return (← get).input
  print text := modifyGet fun s =>
    match s.printFailure with
    | some f => (.error f, s)
    | none => (.ok (), { s with output := s.output ++ text })
  printError text := modify fun s => { s with errorOutput := s.errorOutput ++ text }
  now := modifyGet fun s => (s.clock, { s with clock := s.clock + tick })
  signal := do return (← get).signal
  listen _ := do return (← get).listen
  onnx := .absent

end Scene

end EngineHost
