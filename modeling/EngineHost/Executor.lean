import EngineHost.Engine.Contract

/-!
# Executing handles

To execute a handle on tensors is to check the inputs against it, load its payload (or take the
engine from the cache), hold the engine's names against the handle's, open a context, bind the
shapes, ask for the shapes of the outputs, run, and hold the results against what was promised.
Whatever opens is closed again, the context first, then the engine unless it is kept;
`Outcome.entries` tells all of it.

The cache keeps engines by payload, device, flag and platform until the executor is closed. Contexts
are never kept.
-/

namespace EngineHost

/-- What came of a call: a result, what happened to device resources, the caller's signal
afterwards. -/
structure Outcome (α : Type) where
  result : Except Failure α
  entries : List Entry
  signal : Signal

/-- Keeps engines and runs handles on them. -/
structure Executor where
  runtimes : List Runtime
  isCaching : Bool
  engines : List (String × Engine) := []
  isClosed : Bool := false
  /-- What was held on the device before. -/
  opening : Ledger := {}
  /-- What has happened to device resources since, in order. -/
  journal : List Entry := []

namespace Executor

/-- Notes what happened to device resources. -/
def note (x : Executor) (entries : List Entry) : Executor :=
  { x with journal := x.journal ++ entries }

/-- What is held on the device by now. -/
def ledger (x : Executor) : Ledger :=
  x.opening.postAll x.journal

/-- An executor over runtimes. -/
def make (runtimes : List Runtime) (isCaching : Bool) (opening : Ledger) :
    Except Failure Executor :=
  if runtimes.isEmpty then .error (.plain "execute: no runtimes configured")
  else .ok { runtimes, isCaching, opening }

/-! ### Checks on the inputs -/

/-- The failure of a wrong number of inputs. -/
def wrongInputs (h : Handle) (given : Nat) : Failure :=
  .shapeBinding
    { engine := h.name
      reason := "got " ++ toString given ++ " inputs, engine binds " ++
        toString h.inputNames.length }

/-- Every input is there and on the handle's device. -/
def presentInputs (h : Handle) : List String → List (Option Tensor) → Except Failure (List Tensor)
  | name :: _, none :: _ =>
    .error (.shapeBinding { engine := h.name, input := .ofText name, reason := "input is nil" })
  | name :: names, some t :: more =>
    if !t.device.same h.device.device then
      .error (.deviceMismatch h.name name t.device h.device.device)
    else (presentInputs h names more).map (t :: ·)
  | _, _ => .ok []

/-- Checks the inputs of a handle. -/
def checkInputs (h : Handle) (inputs : List (Option Tensor)) : Except Failure (List Tensor) :=
  if inputs.length ≠ h.inputNames.length then .error (wrongInputs h inputs.length)
  else presentInputs h h.inputNames inputs

/-! ### Use of an engine -/

/-- A failure to bind: of the shape kind whatever the runtime said. -/
def bindingFailure (h : Handle) (name : String) (shape : Option Shape) (f : Failure) : Failure :=
  if f.is .shapeBinding then f
  else .shapeBinding { engine := h.name, input := .ofText name, shape, reason := f.message }

/-- Checks the engine's names against the handle's. -/
def checkNames (e : Engine) (h : Handle) : Except Failure Unit :=
  let differ (slot : Slot) (what : String) (got : List Bytes) (names : List String) : Failure :=
    (slot.malformed ("engine binds " ++ what ++ " " ++ Text.bracketed (got.map Bytes.toText) ++
      ", handle records " ++ Text.bracketed names)).toFailure
  if e.inputNames ≠ h.inputNames.map Bytes.ofText then
    .error (differ .inputNames "inputs" e.inputNames h.inputNames)
  else if e.outputNames ≠ h.outputNames.map Bytes.ofText then
    .error (differ .outputNames "outputs" e.outputNames h.outputNames)
  else .ok ()

/-- Binds the shapes of inputs in order. -/
def bindInputs (c : Context) (h : Handle) (bound : Bindings) :
    List (String × Tensor) → Except Failure Bindings
  | [] => .ok bound
  | (name, t) :: more =>
    match c.bind bound (.ofText name) t.shape.stated? with
    | .error f => .error (bindingFailure h name t.shape.stated? f)
    | .ok () => bindInputs c h ((.ofText name, t.shape) :: bound) more

/-- Asks for the shapes of outputs in order. -/
def outputShapes (c : Context) (h : Handle) (bound : Bindings) :
    List String → Except Failure (List (Option Shape))
  | [] => .ok []
  | name :: more =>
    match c.outputShape bound (.ofText name) with
    | .error f => .error (bindingFailure h name none f)
    | .ok shape => (outputShapes c h bound more).map (shape :: ·)

/-- Takes the results in the handle's order, on the handle's device. -/
def takeOutputs (h : Handle) (results : List (Bytes × Option Tensor)) :
    List (String × Option Shape) → Except Failure (List Tensor)
  | [] => .ok []
  | (name, promised) :: more =>
    match (results.lookup (.ofText name)).join with
    | none =>
      .error (.plain ("engine " ++ Text.quote h.name ++ " produced no output " ++ Text.quote name))
    | some t =>
      if promised.any (· ≠ t.shape) then
        .error (.plain ("engine " ++ Text.quote h.name ++ " output " ++ Text.quote name ++
          " has shape " ++ t.shape.listText ++ ", binding promised " ++
          (promised.getD []).listText))
      else
        let t := if t.device.same h.device.device then t else t.moveTo h.device.device
        (takeOutputs h results more).map (t :: ·)

/-- A failed execution: of the shape kind or an interruption as it is, anything else with the
engine. -/
def executionFailure (h : Handle) (f : Failure) : Failure :=
  if f.is .shapeBinding || f.isInterrupted then f
  else .within ("execute engine " ++ Text.quote h.name) f

/-- Runs a context on inputs that were checked. -/
def runContext (c : Context) (h : Handle) (signal : Signal) (inputs : List Tensor) :
    Except Failure (List Tensor) × List Int64 × Signal :=
  match bindInputs c h [] (h.inputNames.zip inputs) with
  | .error f => (.error f, [], signal)
  | .ok bound =>
    match outputShapes c h bound h.outputNames with
    | .error f => (.error f, [], signal)
    | .ok promised =>
      let run := c.execute bound signal ((h.inputNames.map Bytes.ofText).zip inputs)
      match run.result with
      | .error f => (.error (executionFailure h f), run.grown, run.signal)
      | .ok results =>
        (takeOutputs h results (h.outputNames.zip promised), run.grown, run.signal)

/-- Runs an engine on inputs that were checked; the context it takes is closed again. -/
def runEngine (e : Engine) (h : Handle) (signal : Signal) (inputs : List Tensor) :
    Outcome (List Tensor) :=
  match checkNames e h with
  | .error f => ⟨.error f, [], signal⟩
  | .ok () =>
    match e.context with
    | .error f =>
      ⟨.error (.within ("engine " ++ Text.quote h.name ++ ": create execution context") f), [],
        signal⟩
    | .ok c =>
      let (result, grown, signal) := runContext c h signal inputs
      ⟨result, .contextOpened 0 :: grown.map .grown ++ [.contextClosed (grown.foldl (· + ·) 0)],
        signal⟩

/-! ### Loading and keeping engines -/

/-- Loads the payload of a handle. -/
def load (runtimes : List Runtime) (h : Handle) : Except Failure Engine :=
  match Runtime.select runtimes h.engine with
  | .error f => .error (h.loadOptions.failure f)
  | .ok r =>
    match r.load h.engine h.loadOptions with
    | .error f => .error (if f.is .loading then f else h.loadOptions.failure f)
    | .ok e => .ok e

/-- What an engine is kept under. -/
def cacheKey (h : Handle) : String :=
  h.digest ++ "|" ++ h.device.text ++ "|" ++ Text.ofBool h.hardwareCompatible ++ "|" ++
    h.targetPlatform

variable (x : Executor)

/-- Runs a handle on an engine of its own. -/
def runOnce (h : Handle) (signal : Signal) (inputs : List Tensor) : Outcome (List Tensor) :=
  match load x.runtimes h with
  | .error f => ⟨.error f, [], signal⟩
  | .ok e =>
    let run := runEngine e h signal inputs
    ⟨run.result, .engineOpened e.bytes :: run.entries ++ [.engineClosed e.bytes], run.signal⟩

/-- The engine for a handle, kept, and what its loading did to device resources. -/
def keptEngine (h : Handle) : Except Failure (Engine × List Entry × Executor) :=
  if x.isClosed then .error (.plain "execute: adapter is closed")
  else
    match x.engines.lookup (cacheKey h) with
    | some e => .ok (e, [], x)
    | none =>
      match load x.runtimes h with
      | .error f => .error f
      | .ok e =>
        .ok (e, [.engineOpened e.bytes], { x with engines := x.engines ++ [(cacheKey h, e)] })

/-- Runs a handle on inputs. -/
def run (h : Handle) (signal : Signal) (inputs : List (Option Tensor)) :
    Outcome (List Tensor) × Executor :=
  match checkInputs h inputs with
  | .error f => (⟨.error f, [], signal⟩, x)
  | .ok inputs =>
    if x.isCaching then
      match x.keptEngine h with
      | .error f => (⟨.error f, [], signal⟩, x)
      | .ok (e, opened, x) =>
        let run := runEngine e h signal inputs
        (⟨run.result, opened ++ run.entries, run.signal⟩, x)
    else (x.runOnce h signal inputs, x)

/-- The refusal to work without a handle. -/
def noHandle : Failure :=
  .malformed "" "nil engine handle"

/-- Executes a handle, if there is one, and notes what that did to device resources. -/
def execute (signal : Signal) (inputs : List (Option Tensor)) (h : Option Handle) :
    Except Failure (List Tensor) × Signal × Executor :=
  match h with
  | none => (.error noHandle, signal, x)
  | some h =>
    let (out, x) := x.run h signal inputs
    (out.result, out.signal, x.note out.entries)

/-- Closes the engines that are kept, and the executor with them. -/
def close : Except Failure Unit × Executor :=
  let failures := x.engines.filterMap (·.2.closeFailure)
  let entries := x.engines.map fun (_, e) => Entry.engineClosed e.bytes
  let closed := { x.note entries with engines := [], isClosed := true }
  if failures.isEmpty then (.ok (), closed)
  else
    (.error (.plain ("close cached engines: " ++ Text.bracketed (failures.map (·.message)))),
      closed)

end Executor

end EngineHost
