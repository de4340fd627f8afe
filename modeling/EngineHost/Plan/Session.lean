import EngineHost.Plan.Loader

/-!
# Sessions on a plan

A session keeps one loaded plan with the contexts opened on it. Contexts keep their bindings and
what they hold on the device. Closing is final and counts once; a context outlives its engine, and a
closed engine opens no more contexts.
-/

namespace EngineHost

/-- A context with what was bound and what it holds. -/
structure OpenContext where
  bound : Bindings := []
  held : Int64 := 0
  isClosed : Bool := false
  deriving DecidableEq, Repr

/-- A loaded plan with its contexts. -/
structure PlanSession where
  engine : PlanEngine
  bytes : Int64
  isClosed : Bool := false
  contexts : Array OpenContext := #[]
  ledger : Ledger := {}

namespace PlanSession

/-- Loads a payload. -/
def load (host : HostConfig) (payload : Bytes) (o : LoadOptions) : Except Failure PlanSession :=
  (PlanRuntime.loadPlan host.withDefaults payload o).map fun engine =>
    let bytes := Int64.ofNat payload.length
    { engine, bytes, ledger := Ledger.empty.post (.engineOpened bytes) }

variable (s : PlanSession)

/-- A context by its number. -/
def context (i : Nat) : OpenContext :=
  s.contexts.getD i {}

/-- Changes a context. -/
def setContext (i : Nat) (c : OpenContext) : PlanSession :=
  { s with contexts := s.contexts.setIfInBounds i c }

/-- Opens a context. -/
def openContext : Except Failure PlanSession :=
  if s.isClosed then .error (.plain ("engine " ++ Text.quote s.engine.name ++ " is closed"))
  else .ok { s with
    contexts := s.contexts.push {}, ledger := s.ledger.post (.contextOpened 0) }

/-- Binds the shape of an input. -/
def bind (i : Nat) (name : Bytes) (shape : Option Shape) : Except Failure PlanSession :=
  let c := s.context i
  (s.engine.bind c.bound name shape).map fun bound => s.setContext i { c with bound }

/-- The shape of an output. -/
def outputShape (i : Nat) (name : Bytes) : Except Failure Shape :=
  s.engine.outputShape (s.context i).bound name

/-- Executes. -/
def execute (i : Nat) (signal : Signal) (given : List (Bytes × Option Tensor)) :
    Except Failure (List (Bytes × Option Tensor)) × PlanSession :=
  let c := s.context i
  if c.isClosed then (.error (.plain "execution context is closed"), s)
  else
    let (run, bound) := s.engine.execute c.bound signal given
    let held := run.grown.foldl (· + ·) c.held
    let ledger := s.ledger.postAll (run.grown.map .grown)
    (run.result, { s.setContext i { c with bound, held } with ledger })

/-- Closes a context. -/
def closeContext (i : Nat) : PlanSession :=
  let c := s.context i
  if c.isClosed then s
  else { s.setContext i { c with isClosed := true } with
    ledger := s.ledger.post (.contextClosed c.held) }

/-- Closes the engine. -/
def close : PlanSession :=
  if s.isClosed then s
  else { s with isClosed := true, ledger := s.ledger.post (.engineClosed s.bytes) }

end PlanSession

end EngineHost
