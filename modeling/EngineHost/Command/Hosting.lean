import EngineHost.Checkup
import EngineHost.Command.Workspace
import EngineHost.Number.Size
import EngineHost.Service.Address
import EngineHost.Service.Health

/-!
# Commands on the host

`doctor` makes a checkup, `serve` answers requests until it is told to stop, and `health` asks a
running service how it is.
-/

namespace EngineHost

namespace Hosting

variable [Monad m] (w : World m)

/-- Is there a program to look at? Only a path at which nothing is says no. -/
def isThere (location : String) : m Bool := do
  if Text.contains "://" location then pure true
  else
    match ← w.stat location with
    | .ok _ => pure true
    | .error f => pure (!f.is .missing)

/-- Prints what can be printed. -/
def say (text : String) : m Unit := do
  let _ ← w.print text

/-- Makes a checkup. -/
def doctor (c : Settings) : m (Except Failure Unit) := do
  match ← Workspace.station w c, Workspace.registry with
  | .error f, _ => pure (.error f)
  | _, .error f => pure (.error f)
  | .ok s, .ok r => do
    say w ("backend: " ++ c.backend ++ "\n")
    let library ←
      if c.backend = "plan" then pure none
      else some <$> Library.detect w c.libraryPath
    let program ←
      if ← isThere w c.program then some <$> Workspace.load w c.program
      else do
        say w (CheckupReport.passMark ++ " program: skipped (no file at " ++ c.program ++ ")\n")
        pure none
    let checkup : Checkup :=
      { library, apiVersion := c.apiVersion, runtimes := s.executor.runtimes, registry := some r,
        program, checksResources := true }
    let (report, _) := checkup.run s
    say w report.output
    let (out, err, failure) := report.verdict
    say w out
    w.printError err
    match failure with
    | some f => pure (.error f)
    | none => pure (.ok ())

/-- Serves the program. -/
def serve (c : Settings) : m (Except Failure Unit) := do
  match ← Workspace.bind w c with
  | .error f => pure (.error f)
  | .ok _ =>
    match Address.problem? c.listenAddr with
    | some why => pure (.error (.plain (Address.listenMessage why)))
    | none => w.listen c.listenAddr

/-- Asks a service for its health. -/
def health (c : Settings) (a : Arguments) : m (Except Failure Unit) := do
  let addr := if a.text "addr" = "" then c.listenAddr else a.text "addr"
  match ← Health.probe w.ask addr with
  | .error f => pure (.error (.within ("server at " ++ addr) f))
  | .ok h =>
    let bytes := if h.deviceBytes < 0 then 0 else h.deviceBytes
    w.print (h.status ++ ": serving " ++ h.program ++ " (" ++ Text.ofInt64 h.liveEngines ++
      " engines, " ++ Text.ofInt64 h.liveContexts ++ " contexts, " ++ sizeText bytes.toUInt64 ++
      " device memory)\n")

end Hosting

end EngineHost
