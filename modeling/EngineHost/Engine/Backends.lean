import EngineHost.Engine.Onnx
import EngineHost.Plan.Loader

/-!
# Backends

A backend is a way to open a runtime, known by its name. Names are listed in order and are taken
once.
-/

namespace EngineHost

/-- Backends by name, in the order of their names. -/
structure Backends where
  factories : List (String × (HostConfig → Runtime))

namespace Backends

/-- The backends there are, with the library for ONNX graphs. -/
def all (lib : OnnxLibrary) : Backends :=
  ⟨[(OnnxRuntime.name, OnnxRuntime.runtime lib), (PlanRuntime.name, PlanRuntime.runtime)]⟩

variable (b : Backends)

/-- The names of the backends. -/
def names : List String :=
  b.factories.map (·.1)

/-- The refusal of a name that is taken. -/
def takenMessage (name : String) : String :=
  "runtime: backend " ++ name ++ " registered twice"

/-- Adds a backend in its place, unless its name is taken. -/
def register (name : String) (factory : HostConfig → Runtime) : Except String Backends :=
  if b.names.contains name then .error (takenMessage name)
  else
    let before := fun (x y : String × (HostConfig → Runtime)) =>
      decide (Bytes.ofText x.1 ≤ Bytes.ofText y.1)
    .ok ⟨((name, factory) :: b.factories).mergeSort before⟩

/-- Opens a runtime by name. -/
def openNamed (host : HostConfig) (name : String) : Except Failure Runtime :=
  match b.factories.lookup name with
  | some factory => .ok (factory host.withDefaults)
  | none =>
    .error (.plain ("unknown runtime backend " ++ Text.quote name ++ " (registered: " ++
      Text.bracketed b.names ++ ")"))

/-- Opens every backend. -/
def auto : String := "auto"

/-- Opens the runtimes that a choice of backend means. -/
def openChoice (host : HostConfig) (choice : String) : Except Failure (List Runtime) :=
  (if choice = "" ∨ choice = auto then b.names else [choice]).mapM (b.openNamed host)

end Backends

end EngineHost
