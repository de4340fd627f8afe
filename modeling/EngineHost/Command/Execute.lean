import EngineHost.Command.Evaluation
import EngineHost.Command.Files
import EngineHost.Command.Hosting

/-!
# Executing a command line

Arguments are checked first, then settings are loaded, then the command does its work.
-/

namespace EngineHost

namespace Command

/-- What a command is for. -/
def purpose : Command → String
  | .root => "Run programs that call precompiled accelerator engines"
  | .sample => "Write a demonstration program"
  | .inspect => "Describe the configured program and its engines"
  | .trace => "Propagate input descriptors through the program without running engines"
  | .run => "Execute the configured program on concrete tensors"
  | .serve => "Serve the configured program over HTTP"
  | .health => "Query a running server for its program and device usage"
  | .doctor => "Run local runtime and program checks"
  | .handle => "Encode and decode engine handles"
  | .handleEncode => "Print an engine object of the configured program in transport form"
  | .handleDecode => "Validate a transport-form handle read from a file or standard input"
  | .bench => "Benchmark program execution latency"
  | .help => "Help about any command"
  | .completion => "Completions are not generated"

/-- The help for a command. -/
def helpText (c : Command) : String :=
  let children := c.children.map fun (name, child) =>
    "  " ++ Text.padEnd 12 name ++ child.purpose ++ "\n"
  let flags := (c.flags ++ [helpFlag]).map fun f => "  " ++ f.shown ++ "\n"
  c.purpose ++ "\n\nUsage:\n  " ++ c.path ++ " [flags]\n" ++
    (if children.isEmpty then "" else "\nAvailable Commands:\n" ++ String.join children) ++
    "\nFlags:\n" ++ String.join flags

variable [Monad m] (w : World m)

/-- Prints the help for a command. That it cannot be printed is said elsewhere and is no failure. -/
def sayHelp (c : Command) : m (Except Failure Unit) := do
  match ← w.print c.helpText with
  | .ok () => pure (.ok ())
  | .error f => do
    w.printError (f.message ++ "\n")
    pure (.ok ())

/-- The command that help is asked for; that of the program where there is none of the name. -/
def topic (words : List String) : Command :=
  match find words with
  | .ok (c, _) => c
  | .error _ => .root

/-- Does the work of a command under settings. -/
def perform (c : Command) (settings : Settings) (a : Arguments) : m (Except Failure Unit) :=
  match c with
  | .handleDecode => Files.decode w a
  | .help => sayHelp w (topic a.rest)
  | c =>
    match Workspace.require settings with
    | .error f => pure (.error f)
    | .ok settings =>
      match c with
      | .sample => Files.sample w settings a
      | .inspect => Files.inspect w settings
      | .trace => Evaluation.trace w settings a
      | .run => Evaluation.run w settings a
      | .serve => Hosting.serve w settings
      | .health => Hosting.health w settings a
      | .doctor => Hosting.doctor w settings
      | .handleEncode => Files.encode w settings a
      | .bench => Evaluation.bench w settings a
      | .handleDecode | .root | .handle | .help | .completion => pure (.ok ())

/-- Executes a command line. -/
def execute (args : List String) : m (Except Failure Unit) := do
  match read args with
  | .error f => pure (.error f)
  | .ok (.help c) => sayHelp w c
  | .ok (.call c a) =>
    match ← Settings.load w (some a) (a.text "config") with
    | .error f => pure (.error f)
    | .ok settings => c.perform w settings a

end Command

end EngineHost
