import EngineHost.Engine.Contract

/-!
# Scripted runtimes

A runtime whose every answer is given beforehand. It takes the payloads that start in a given way,
and whatever is asked of its engines and contexts is looked up in the script. It stands in for real
runtimes where only the order and the outcome of calls matter.
-/

namespace EngineHost

/-- The answers of a runtime. -/
structure Script where
  name : String := ""
  /-- How the payloads start that it takes. -/
  start : Bytes := []
  loadFailure : Option Failure := none
  inputNames : List Bytes := []
  outputNames : List Bytes := []
  contextFailure : Option Failure := none
  /-- The inputs that cannot be bound. -/
  bindFailures : List (Bytes × Failure) := []
  /-- The shapes of outputs that are known before execution. -/
  outputShapes : List (Bytes × Option Shape) := []
  /-- The outputs whose shape cannot be told. -/
  shapeFailures : List (Bytes × Failure) := []
  executeFailure : Option Failure := none
  results : List (Bytes × Option Tensor) := []
  closeFailure : Option Failure := none

namespace Script

variable (s : Script)

/-- Fails where a failure is given. -/
def failing (f : Option Failure) (answer : α) : Except Failure α :=
  match f with
  | some f => .error f
  | none => .ok answer

/-- The scripted context. -/
def context : Context where
  bind _ name _ := failing (s.bindFailures.lookup name) ()
  outputShape _ name := failing (s.shapeFailures.lookup name) (s.outputShapes.lookup name).join
  execute _ signal _ := ⟨failing s.executeFailure s.results, [], signal⟩

/-- The scripted engine of a payload. -/
def engine (payload : Bytes) : Engine where
  inputNames := s.inputNames
  outputNames := s.outputNames
  bytes := Int64.ofNat payload.length
  context := failing s.contextFailure s.context
  closeFailure := s.closeFailure

/-- The scripted runtime. -/
def runtime : Runtime where
  name := s.name
  accepts payload := s.start.isPrefixOf payload
  load payload _ := failing s.loadFailure (s.engine payload)

end Script

end EngineHost
