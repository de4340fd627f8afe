import EngineHost.Engine.Contract
import EngineHost.Plan.Build
import EngineHost.Plan.Kernel

/-!
# Running plans

`PlanEngine.bind` holds an input against its profile, `PlanEngine.shapes` moves the bound shapes
through the layers, and `PlanEngine.execute` computes the layers one after the other. The caller's
signal is polled before anything is read and before each layer. Each layer's result stays on the
device until the context is closed, four bytes an element.
-/

namespace EngineHost

/-- A loaded plan, and how its kernels divide their work. -/
structure PlanEngine where
  name : String
  network : Network
  split : Kernel.Split := Kernel.chunks 1

namespace PlanEngine

variable (e : PlanEngine)

/-- The failure of an input. -/
def bindFailure (name : Bytes) (shape : Option Shape) (input : Option NetworkInput)
    (reason : String) : Failure :=
  .shapeBinding
    { engine := e.name, input := name, shape, min := input.map (·.min), max := input.map (·.max),
      reason }

/-- The first axis outside its range. -/
def outsideAxis (axis : Nat) : Shape → Shape → Shape → Option Nat
  | d :: dims, low :: lows, high :: highs =>
    if inProfile low high d then outsideAxis (axis + 1) dims lows highs else some axis
  | _, _, _ => none

/-- Binds the shape of an input. -/
def bind (bound : Bindings) (name : Bytes) (shape : Option Shape) : Except Failure Bindings :=
  match e.network.input? name with
  | none => .error (e.bindFailure name shape none "engine has no such input")
  | some input =>
    let dims := shape.getD []
    if dims.length ≠ input.min.length then
      .error (e.bindFailure name shape (some input)
        ("rank " ++ toString dims.length ++ ", profile rank " ++ toString input.min.length))
    else
      match outsideAxis 0 dims input.min input.max with
      | some axis =>
        .error (e.bindFailure name shape (some input)
          ("axis " ++ toString axis ++ " is outside the optimization profile"))
      | none => .ok ((name, dims) :: bound)

/-- The shapes of the inputs, latest first. -/
def inputShapes (bound : Bindings) (shapes : Bindings) : List NetworkInput → Except Failure Bindings
  | [] => .ok shapes
  | input :: more =>
    match bound.lookup input.name with
    | none => .error (e.bindFailure input.name none (some input) "input shape not bound")
    | some shape => inputShapes bound ((input.name, shape) :: shapes) more

/-- The shape of a layer's value. -/
def layerShape (shapes : Bindings) (l : Layer) : Except Failure Shape :=
  let first := l.operands.headD []
  let second := l.operands.getD 1 []
  let src := (shapes.lookup first).getD []
  let other := (shapes.lookup second).getD []
  match l.op? with
  | some op =>
    if (op = .add ∨ op = .mul) ∧ src ≠ other then
      .error (.shapeBinding
        { engine := e.name, input := second, shape := some other,
          reason := op.name ++ " needs " ++ Text.quoteBytes first ++ " and " ++
            Text.quoteBytes second ++ " to have equal shapes, got " ++ src.listText ++ " and " ++
            other.listText })
    else .ok (l.axes src)
  | none => .ok src

/-- The shapes after layers. -/
def layerShapes (shapes : Bindings) : List Layer → Except Failure Bindings
  | [] => .ok shapes
  | l :: more =>
    match e.layerShape shapes l with
    | .error f => .error f
    | .ok shape => layerShapes ((l.output, shape) :: shapes) more

/-- The shapes of all values, latest first. -/
def shapes (bound : Bindings) : Except Failure Bindings :=
  match e.inputShapes bound [] e.network.inputs with
  | .error f => .error f
  | .ok inputs => e.layerShapes inputs e.network.layers

/-- The shape of an output. -/
def outputShape (bound : Bindings) (name : Bytes) : Except Failure Shape :=
  match e.shapes bound with
  | .error f => .error f
  | .ok shapes =>
    match shapes.lookup name with
    | some shape =>
      if e.network.outputs.contains name then .ok shape
      else .error (.plain ("engine " ++ Text.quote e.name ++ " has no output " ++
        Text.quoteBytes name))
    | none =>
      .error (.plain ("engine " ++ Text.quote e.name ++ " has no output " ++ Text.quoteBytes name))

/-! ### Execution -/

/-- The elements of values, latest first. -/
abbrev Buffers := List (Bytes × Array Single)

/-- Takes one input: its presence, its element type, its shape against what is bound. -/
def takeInput (bound : Bindings) (input : NetworkInput) (given : List (Bytes × Option Tensor)) :
    Except Failure (Array Single × Bindings) :=
  match (given.lookup input.name).join with
  | none =>
    .error (.plain ("engine " ++ Text.quote e.name ++ ": missing input " ++
      Text.quoteBytes input.name))
  | some t =>
    match t.elements with
    | .float32 values =>
      if bound.lookup input.name = some t.shape then .ok (values, bound)
      else (e.bind bound input.name t.shape.stated?).map fun bound => (values, bound)
    | _ =>
      .error (.plain ("engine " ++ Text.quote e.name ++ ": input " ++ Text.quoteBytes input.name ++
        " must be float32, got " ++ t.dtype.name))

/-- Takes inputs in order. What was bound before a refusal stays bound. -/
def takeInputs (given : List (Bytes × Option Tensor)) (bound : Bindings) (buffers : Buffers) :
    List NetworkInput → Except Failure Buffers × Bindings
  | [] => (.ok buffers, bound)
  | input :: more =>
    match e.takeInput bound input given with
    | .error f => (.error f, bound)
    | .ok (values, bound) => takeInputs given bound ((input.name, values) :: buffers) more

/-- The elements of a layer's value, unless it goes out of range. -/
def layerValue (shapes : Bindings) (buffers : Buffers) (l : Layer) : Option (Array Single) :=
  let first := l.operands.headD []
  let src := (buffers.lookup first).getD #[]
  let other := (buffers.lookup (l.operands.getD 1 [])).getD #[]
  let shape := (shapes.lookup first).getD []
  match l.op? with
  | some .identity => some src
  | some .relu => Kernel.unary e.split Single.relu src
  | some .scale => Kernel.unary e.split (·.mul l.scalar) src
  | some .add => Kernel.binary e.split Single.add src other
  | some .mul => Kernel.binary e.split Single.mul src other
  | some .reduceSum => Kernel.reduceSum e.split src shape l.axis.toNatClampNeg
  | some .transpose => Kernel.transposeLast e.split src shape
  | none => some #[]

/-- Computes layers in order, polling before each. -/
def layerValues (shapes : Bindings) (buffers : Buffers) (signal : Signal) :
    List Layer → Except Failure Buffers × List Int64 × Signal
  | [] => (.ok buffers, [], signal)
  | l :: more =>
    match signal.poll with
    | (some why, signal) => (.error (.interrupted why), [], signal)
    | (none, signal) =>
      match e.layerValue shapes buffers l with
      | none => (.error .crash, [], signal)
      | some value =>
        let (result, grown, signal) :=
          layerValues shapes ((l.output, value) :: buffers) signal more
        (result, Int64.ofNat (4 * value.size) :: grown, signal)

/-- The outputs as tensors. -/
def giveOutputs (shapes : Bindings) (buffers : Buffers) :
    List Bytes → Except Failure (List (Bytes × Option Tensor))
  | [] => .ok []
  | name :: more =>
    let values := (buffers.lookup name).getD #[]
    let shape := (shapes.lookup name).getD []
    match Tensor.make .cpu (.float32 values) shape with
    | .error f =>
      .error (.within ("engine " ++ Text.quote e.name ++ " output " ++ Text.quoteBytes name)
        (.plain f.message))
    | .ok t => (giveOutputs shapes buffers more).map ((name, some t) :: ·)

/-- Executes a plan. The bindings come back with the shapes of the inputs taken. -/
def execute (bound : Bindings) (signal : Signal) (given : List (Bytes × Option Tensor)) :
    Execution × Bindings :=
  match signal.poll with
  | (some why, signal) => (⟨.error (.interrupted why), [], signal⟩, bound)
  | (none, signal) =>
    match e.takeInputs given bound [] e.network.inputs with
    | (.error f, bound) => (⟨.error f, [], signal⟩, bound)
    | (.ok buffers, bound) =>
      match e.shapes bound with
      | .error f => (⟨.error f, [], signal⟩, bound)
      | .ok shapes =>
        match e.layerValues shapes buffers signal e.network.layers with
        | (.error f, grown, signal) => (⟨.error f, grown, signal⟩, bound)
        | (.ok buffers, grown, signal) =>
          (⟨e.giveOutputs shapes buffers e.network.outputs, grown, signal⟩, bound)

/-- A context on a plan. -/
def context : Context where
  bind bound name shape := (e.bind bound name shape).map fun _ => ()
  outputShape bound name := (e.outputShape bound name).map some
  execute bound signal feed := (e.execute bound signal (feed.map fun (n, t) => (n, some t))).1

end PlanEngine

end EngineHost
