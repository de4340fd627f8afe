import EngineHost.Handle.Basic
import EngineHost.Ledger
import EngineHost.Tensor.Basic

/-!
# Runtimes, engines and contexts

A runtime recognises payloads and loads them into engines. An engine names its bindings and opens
contexts; a context takes the shapes of its inputs, tells the shapes of its outputs and executes.
All three are given by what they answer: `Bindings` is everything a context was told so far, so a
context needs no state of its own, and what an execution holds on the device is told in
`Execution.grown`.

Who opens and closes is the executor's business, and so are the entries in the ledger.
-/

namespace EngineHost

/-- What a handle says about the payload to load. -/
structure LoadOptions where
  name : String := ""
  device : DeviceInfo := ⟨⟨"", 0⟩, ""⟩
  hardwareCompatible : Bool := false
  platform : String := ""
  deriving DecidableEq, Repr

/-- The options of a handle. -/
def Handle.loadOptions (h : Handle) : LoadOptions :=
  { name := h.name, device := h.device, hardwareCompatible := h.hardwareCompatible,
    platform := h.targetPlatform }

/-- A failure to load under some options. -/
def LoadOptions.failure (o : LoadOptions) (cause : Failure) : Failure :=
  .loading o.name o.hardwareCompatible o.platform cause

/-- A shape that is there: one without dimensions is as good as none. -/
def Shape.stated? (shape : Shape) : Option Shape :=
  if shape.isEmpty then none else some shape

/-- The shapes bound to inputs, latest first. -/
abbrev Bindings := List (Bytes × Shape)

/-- What came of an execution: the outputs, what was held on the device step by step, and the
caller's signal afterwards. -/
structure Execution where
  result : Except Failure (List (Bytes × Option Tensor))
  grown : List Int64
  signal : Signal

/-- A context. -/
structure Context where
  /-- Takes the shape of an input, or says why not. -/
  bind : Bindings → Bytes → Option Shape → Except Failure Unit
  /-- The shape of an output, if it is known before execution. -/
  outputShape : Bindings → Bytes → Except Failure (Option Shape)
  execute : Bindings → Signal → List (Bytes × Tensor) → Execution

/-- A loaded engine. -/
structure Engine where
  inputNames : List Bytes
  outputNames : List Bytes
  /-- What it holds on the device. -/
  bytes : Int64
  context : Except Failure Context
  /-- What closing it complains about; it is closed all the same. -/
  closeFailure : Option Failure := none

/-- A runtime. -/
structure Runtime where
  name : String
  accepts : Bytes → Bool
  load : Bytes → LoadOptions → Except Failure Engine

/-- The first runtime that accepts a payload. -/
def Runtime.select (runtimes : List Runtime) (payload : Bytes) : Except Failure Runtime :=
  match runtimes.find? (·.accepts payload) with
  | some r => .ok r
  | none =>
    .error (.plain ("no runtime among " ++ Text.bracketed (runtimes.map (·.name)) ++
      " recognizes the engine payload"))

end EngineHost
