import EngineHost.Command.Basic
import EngineHost.Engine.Library
import EngineHost.Operator.Engine
import EngineHost.Program.Bound
import EngineHost.Program.File

/-!
# What a command works with

Settings name a program and say how engines are opened. Commands load the program, open the
runtimes, and bind the one to the other.
-/

namespace EngineHost

namespace Workspace

/-- The refusal to work without a program. -/
def noProgram : Failure :=
  .plain "configuration not loaded"

/-- Settings that name a program. -/
def require (c : Settings) : Except Failure Settings :=
  if c.program = "" then .error noProgram else .ok c

variable [Monad m] (w : World m)

/-- The station that settings ask for. -/
def station (c : Settings) : m (Except Failure Station) := do
  let library ← Library.detect w c.libraryPath
  let host : HostConfig :=
    { signature := c.signature, workers := Kernel.workerCount c.kernelWorkers, library,
      apiVersion := c.apiVersion }
  let made := Station.make w.onnx
    { backend := c.backend, host, isCaching := c.cacheEngines, allowsProbes := c.allowProbe,
      probeLimit := c.probeCacheSize }
  let signal ← w.signal
  pure ((made.mapError (.within "open runtimes")).map fun s => { s with signal })

/-- Loads the program at a location. -/
def load (location : String) : m (Except Failure Program) := do
  match ← Location.read w location with
  | .error f => pure (.error f)
  | .ok data => pure ((Program.load data).mapError (.within ("load program " ++ location)))

/-- The registry, which always comes about. -/
def registry : Except Failure Registry :=
  Registry.standard.mapError (.within "open runtimes")

/-- Loads the program, opens the runtimes and binds. -/
def bind (c : Settings) : m (Except Failure (BoundProgram × Station)) := do
  match ← load w c.program with
  | .error f => pure (.error f)
  | .ok p =>
    match ← station w c with
    | .error f => pure (.error f)
    | .ok s =>
      pure (do
        let r ← registry
        let b ← (BoundProgram.bind r p).mapError (.within ("bind program " ++ p.name))
        pure (b, s))

end Workspace

end EngineHost
