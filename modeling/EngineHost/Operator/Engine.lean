import EngineHost.Engine.Backends
import EngineHost.Handle.Codec
import EngineHost.Operator.Native

/-!
# The engine operator

Engines enter programs as objects of one class and are called by one operator, which traces or
executes the handle it is given. `Station.make` sets up what that needs for a choice of backends.
-/

namespace EngineHost

namespace EngineOp

/-- The name of the operator. -/
def operatorName : String := "accel::execute_engine"

/-- The name of the class. -/
def className : String := "accel::Engine"

/-- The handle among objects: there is one object, and it is an engine. -/
def handleOf : List Object → Except Failure Handle
  | [o] =>
    match o.value with
    | .engine (some h) =>
      if o.className = className then .ok h else .error (notEngine o)
    | _ => .error (notEngine o)
  | objects =>
    .error (.malformed "" (operatorName ++ " takes exactly one " ++ className ++ " object, got " ++
      toString objects.length))
where
  /-- The refusal of an object that is no engine. -/
  notEngine (o : Object) : Failure :=
    .malformed "" (operatorName ++ " object is " ++ o.className ++ " (" ++ o.value.typeName ++
      "), want " ++ className)

/-- Probes by executing: the station's executor with the caller's signal. -/
def prober : Prober (Executor × Signal) := fun inputs h (x, signal) =>
  let (out, signal, x) := x.execute signal inputs (some h)
  (out, x, signal)

/-- Traces the handle. -/
def symbolic : OperatorKernel Descriptor := fun inputs objects s =>
  match handleOf objects with
  | .error f => (.error f, s)
  | .ok h =>
    let (out, tracer, executor, signal) :=
      s.tracer.trace (some prober) inputs (some h) (s.executor, s.signal)
    (out.map Value.symbols, { executor, tracer, signal })

/-- Executes the handle. -/
def concrete : OperatorKernel Tensor := fun inputs objects s =>
  match handleOf objects with
  | .error f => (.error f, s)
  | .ok h =>
    let (out, signal, executor) := s.executor.execute s.signal (inputs.map some) (some h)
    (out.map Value.tensors, { s with executor, signal })

/-- The fields of an engine. -/
def flatten : ObjectValue → Except Failure (List Field)
  | .engine (some h) => .ok h.flatten
  | v => .error (.plain (className ++ " flatten: got " ++ v.typeName))

/-- The engine of fields. -/
def unflatten (fields : List Field) : Except Failure ObjectValue :=
  ((Handle.deserialize fields).mapError Malformed.toFailure).map fun h => .engine (some h)

/-- The class and the operator, each as an addition to a registry. -/
def additions : List (Registry → Except Failure Registry) := [
  fun r => r.addClass className (some flatten) (some unflatten),
  fun r => r.addOperator operatorName (some symbolic) (some concrete)]

/-- Adds the class and the operator. -/
def register (r : Registry) : Except Failure Unit × Registry :=
  r.addEach additions

/-- A handle as an object. -/
def object (h : Option Handle) : Object :=
  ⟨className, .engine h⟩

end EngineOp

/-- A choice of backends and how engines are kept and traced. -/
structure StationConfig where
  backend : String := ""
  host : HostConfig := {}
  isCaching : Bool := false
  allowsProbes : Bool := false
  probeLimit : Int64 := 0
  deriving DecidableEq, Repr

/-- Sets up a station. -/
def Station.make (lib : OnnxLibrary) (c : StationConfig) : Except Failure Station := do
  let runtimes ← (Backends.all lib).openChoice c.host c.backend
  let executor ← Executor.make runtimes c.isCaching .empty
  pure { executor, tracer := Tracer.make c.allowsProbes c.probeLimit }

/-- Closes what a station keeps. -/
def Station.close (s : Station) : Except Failure Unit × Station :=
  let (out, executor) := s.executor.close
  (out, { s with executor })

/-- The operators of the host and the engine operator. -/
def Registry.standard : Except Failure Registry :=
  match Registry.addEach {} (Native.additions ++ EngineOp.additions) with
  | (.ok (), r) => .ok r
  | (.error f, _) => .error f

end EngineHost
