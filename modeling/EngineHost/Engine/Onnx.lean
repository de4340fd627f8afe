import EngineHost.Engine.Contract
import EngineHost.Engine.Host
import EngineHost.Engine.Session

/-!
# ONNX graphs

A payload whose first octet announces the version field of a model is taken for an ONNX graph. It
loads on the platform it was made for, through a library that has to be found first and that opens a
session for it. Two kinds of elements go in and out of a session; the shapes of the outputs are not
known before it runs.
-/

namespace EngineHost

namespace OnnxRuntime

/-- The name of the runtime. -/
def name : String := "ort"

/-- The version of the library's interface that is asked for where none is given. -/
def defaultApiVersion : UInt32 := 23

/-- Does a payload start like a model? -/
def accepts : Bytes → Bool
  | 8 :: _ :: _ => true
  | _ => false

variable (lib : OnnxLibrary)

/-! ### Values -/

/-- A tensor as the library takes it. -/
def toValue (t : Tensor) : Except Failure OnnxValue :=
  match t.elements with
  | .float32 v => lib.ofSingles v t.shape
  | .int64 v => lib.ofIntegers v t.shape
  | _ => .error (.plain ("unsupported tensor dtype " ++ t.dtype.name))

/-- The number of the element type of single precision. -/
def float32Number : Int32 := 1

/-- The number of the element type of integers. -/
def int64Number : Int32 := 7

/-- The tensor of a value. -/
def ofValue (v : OnnxValue) : Except Failure Tensor := do
  let type ← v.elementType.mapError (.within "get element type")
  if type = float32Number then
    let (data, shape) ← v.singles
    (Tensor.make .cpu (.float32 data) shape).mapError fun e => .plain e.message
  else if type = int64Number then
    let (data, shape) ← v.integers
    (Tensor.make .cpu (.int64 data) shape).mapError fun e => .plain e.message
  else .error (.plain ("unsupported ORT element type " ++ toString type.toInt))

/-- An input as it goes in. -/
def giveInput (input : Bytes × Tensor) : Except Failure (Bytes × OnnxValue) :=
  ((toValue lib input.2).map ((input.1, ·))).mapError
    (.within ("input " ++ Text.quoteBytes input.1))

/-- An output as it comes out. -/
def takeOutput (output : Bytes × OnnxValue) : Except Failure (Bytes × Option Tensor) :=
  ((ofValue output.2).map fun t => (output.1, some t)).mapError
    (.within ("output " ++ Text.quoteBytes output.1))

/-! ### Engines -/

/-- What a session makes of inputs; the caller's signal goes through it. -/
def execute (engine : String) (session : OnnxSession) (signal : Signal)
    (inputs : List (Bytes × Tensor)) : Execution :=
  match inputs.mapM (giveInput lib) with
  | .error f => ⟨.error f, [], signal⟩
  | .ok given =>
    match session.run signal given with
    | (.error f, signal) => ⟨.error (.within ("run " ++ Text.quote engine) f), [], signal⟩
    | (.ok outputs, signal) => ⟨outputs.mapM takeOutput, [], signal⟩

/-- A context of a session: any shape goes with an input that there is. -/
def context (engine : String) (session : OnnxSession) : Context where
  bind := fun _ name shape =>
    if session.inputNames.contains name then .ok ()
    else .error (.shapeBinding
      { engine, input := name, shape, reason := "engine has no such input" })
  outputShape := fun _ _ => .ok none
  execute := fun _ => execute lib engine session

/-- Opens the library. -/
def bootstrap (host : HostConfig) : Except Failure Unit :=
  match host.library.problem with
  | some f => .error f
  | none => do
    let path := host.library.library.path
    let version := if host.apiVersion = 0 then defaultApiVersion else host.apiVersion
    (lib.openAt path version).mapError (.within ("ort runtime from " ++ path))
    lib.environment.mapError (.within "ort env")

/-- Opens a session for a model that was made for a platform. -/
def openSession (host : HostConfig) (payload : Bytes) (platform : String) :
    Except Failure OnnxSession :=
  if platform ≠ "" ∧ platform ≠ host.platform then
    .error (.plain ("engine targets platform " ++ platform ++ ", host is " ++ host.platform))
  else do
    bootstrap lib host
    (lib.stage payload).mapError (.within "stage model")
    (lib.session payload).mapError (.within "ort session")

/-- A session as an engine of a size. -/
def engineOf (engine : String) (session : OnnxSession) (bytes : Int64) : Engine where
  inputNames := session.inputNames
  outputNames := session.outputNames
  bytes
  context := .ok (context lib engine session)

/-- The runtime of ONNX graphs on a host. -/
def runtime (host : HostConfig) : Runtime :=
  let host := host.withDefaults
  { name := name
    accepts := accepts
    load := fun payload o =>
      ((openSession lib host payload o.platform).mapError o.failure).map
        (engineOf lib o.name · (Int64.ofNat payload.length)) }

end OnnxRuntime

end EngineHost
