import EngineHost.Handle.Metadata
import EngineHost.Number.Binary

/-!
# Networks

A network names its inputs, computes one value a layer from values before it, and gives some values
out. Names are byte strings, because a network also comes out of a payload. `Network.validate`
accepts the networks in which every value has one definition before its uses, every layer has its
operation's number of operands and every rank adds up; it reports the first fault in declaration
order.
-/

namespace EngineHost

/-- What a layer computes. -/
inductive LayerOp where
  | identity
  | relu
  | add
  | mul
  | scale
  | reduceSum
  | transpose
  deriving DecidableEq, Repr

namespace LayerOp

/-- Every operation. -/
def all : List LayerOp :=
  [.identity, .relu, .add, .mul, .scale, .reduceSum, .transpose]

/-- The name of an operation. -/
def name : LayerOp → String
  | .identity => "identity"
  | .relu => "relu"
  | .add => "add"
  | .mul => "mul"
  | .scale => "scale"
  | .reduceSum => "reduce_sum"
  | .transpose => "transpose"

/-- The number of operands. -/
def arity : LayerOp → Nat
  | .add => 2
  | .mul => 2
  | _ => 1

/-- The operation of a label. -/
def ofLabel? (label : Bytes) : Option LayerOp :=
  all.find? fun op => Bytes.ofText op.name = label

end LayerOp

/-- An input with the range of each of its axes; a negative upper end is no bound. -/
structure NetworkInput where
  name : Bytes
  min : Shape
  max : Shape
  deriving DecidableEq, Repr

/-- A layer: its operation by label, its operands, the value it defines, and what a sum along an
axis or a scaling need beside. -/
structure Layer where
  label : Bytes
  operands : List Bytes
  output : Bytes
  axis : Int64 := 0
  scalar : Single := .zero
  deriving DecidableEq, Repr

/-- The operation of a layer. -/
def Layer.op? (l : Layer) : Option LayerOp :=
  LayerOp.ofLabel? l.label

/-- A network. -/
structure Network where
  inputs : List NetworkInput
  layers : List Layer
  outputs : List Bytes
  deriving DecidableEq, Repr

/-- What is wrong with a network. -/
inductive NetworkError where
  | noOutputs
  | emptyInput
  | duplicateValue (name : Bytes)
  | profileRank (name : Bytes) (min max : Shape)
  | profileRange (name : Bytes) (axis : Nat) (low high : Int64)
  | unknownOp (layer : Nat) (label : Bytes)
  | arity (layer : Nat) (op : LayerOp) (got : Nat)
  | emptyOutput (layer : Nat) (op : LayerOp)
  | undefinedOperand (layer : Nat) (op : LayerOp) (name : Bytes)
  | rankMismatch (layer : Nat) (op : LayerOp) (left right : Nat)
  | axisRange (layer : Nat) (op : LayerOp) (axis : Int64) (rank : Nat)
  | rankTooLow (layer : Nat) (op : LayerOp) (rank : Nat)
  | undefinedOutput (name : Bytes)
  | duplicateOutput (name : Bytes)
  deriving DecidableEq, Repr

/-- A layer as messages name it. -/
def layerText (i : Nat) (op : LayerOp) : String :=
  "layer " ++ toString i ++ " (" ++ op.name ++ "): "

/-- The wording of a fault. -/
def NetworkError.message : NetworkError → String
  | .noOutputs => "network has no outputs"
  | .emptyInput => "input with empty name"
  | .duplicateValue name => "duplicate value name " ++ Text.quoteBytes name
  | .profileRank name min max =>
    "input " ++ Text.quoteBytes name ++ " profile rank mismatch: min " ++ min.listText ++ " max " ++
      max.listText
  | .profileRange name axis low high =>
    "input " ++ Text.quoteBytes name ++ " axis " ++ toString axis ++ " has invalid profile [" ++
      Text.ofInt64 low ++ ", " ++ Text.ofInt64 high ++ "]"
  | .unknownOp i label => "layer " ++ toString i ++ ": unknown op " ++ Text.quoteBytes label
  | .arity i op got =>
    layerText i op ++ "expected " ++ toString op.arity ++ " operands, got " ++ toString got
  | .emptyOutput i op => layerText i op ++ "empty output name"
  | .undefinedOperand i op name =>
    layerText i op ++ "operand " ++ Text.quoteBytes name ++ " is not defined before use"
  | .rankMismatch i op left right =>
    layerText i op ++ "operand ranks differ (" ++ toString left ++ " vs " ++ toString right ++ ")"
  | .axisRange i op axis rank =>
    layerText i op ++ "axis " ++ Text.ofInt64 axis ++ " out of range for rank " ++ toString rank
  | .rankTooLow i op rank => layerText i op ++ "needs rank >= 2, got " ++ toString rank
  | .undefinedOutput name =>
    "output " ++ Text.quoteBytes name ++ " is not produced by the network"
  | .duplicateOutput name => "duplicate output " ++ Text.quoteBytes name

/-- The ranks of the values defined so far, latest first. -/
abbrev Ranks := List (Bytes × Nat)

namespace Network

/-- The names of the inputs, in order. -/
def inputNames (net : Network) : List Bytes :=
  net.inputs.map (·.name)

/-- The input of a name. -/
def input? (net : Network) (name : Bytes) : Option NetworkInput :=
  net.inputs.find? (·.name = name)

/-- Checks one input and defines it. -/
def checkInput (ranks : Ranks) (input : NetworkInput) : Except NetworkError Ranks :=
  if input.name = [] then .error .emptyInput
  else if (ranks.lookup input.name).isSome then .error (.duplicateValue input.name)
  else if input.min.length ≠ input.max.length then
    .error (.profileRank input.name input.min input.max)
  else
    match badProfileAxis 0 input.min input.max with
    | some (axis, low, high) => .error (.profileRange input.name axis low high)
    | none => .ok ((input.name, input.min.length) :: ranks)

/-- The ranks of operands. -/
def operandRanks (ranks : Ranks) (i : Nat) (op : LayerOp) :
    List Bytes → Except NetworkError (List Nat)
  | [] => .ok []
  | name :: more =>
    match ranks.lookup name with
    | none => .error (.undefinedOperand i op name)
    | some r => (operandRanks ranks i op more).map (r :: ·)

/-- The rank of a layer's value from the ranks of its operands. -/
def resultRank (i : Nat) (op : LayerOp) (axis : Int64) (operands : List Nat) :
    Except NetworkError Nat :=
  let rank := operands.getD 0 0
  match op with
  | .reduceSum =>
    if axis < 0 ∨ rank ≤ axis.toNatClampNeg then .error (.axisRange i op axis rank)
    else .ok (rank - 1)
  | .transpose => if rank < 2 then .error (.rankTooLow i op rank) else .ok rank
  | .add | .mul =>
    if operands.getD 1 0 ≠ rank then .error (.rankMismatch i op rank (operands.getD 1 0))
    else .ok rank
  | .identity | .relu | .scale => .ok rank

/-- Checks layer `i` and defines its value. -/
def checkLayer (ranks : Ranks) (i : Nat) (l : Layer) : Except NetworkError Ranks :=
  match l.op? with
  | none => .error (.unknownOp i l.label)
  | some op =>
    if l.operands.length ≠ op.arity then .error (.arity i op l.operands.length)
    else if l.output = [] then .error (.emptyOutput i op)
    else if (ranks.lookup l.output).isSome then .error (.duplicateValue l.output)
    else do
      let operands ← operandRanks ranks i op l.operands
      let rank ← resultRank i op l.axis operands
      pure ((l.output, rank) :: ranks)

/-- Checks layers from layer `i` on. -/
def checkLayers (ranks : Ranks) (i : Nat) : List Layer → Except NetworkError Ranks
  | [] => .ok ranks
  | l :: more => do
    let ranks ← checkLayer ranks i l
    checkLayers ranks (i + 1) more

/-- Checks that outputs are defined and given once. -/
def checkOutputs (ranks : Ranks) (seen : List Bytes) : List Bytes → Except NetworkError Unit
  | [] => .ok ()
  | name :: more =>
    if (ranks.lookup name).isNone then .error (.undefinedOutput name)
    else if seen.contains name then .error (.duplicateOutput name)
    else checkOutputs ranks (name :: seen) more

/-- The ranks of all values of a network without fault before its outputs. -/
def ranks (net : Network) : Except NetworkError Ranks := do
  let inputs ← net.inputs.foldlM checkInput []
  checkLayers inputs 0 net.layers

/-- Checks a network. -/
def validate (net : Network) : Except NetworkError Unit :=
  if net.outputs.isEmpty then .error .noOutputs
  else do
    let ranks ← net.ranks
    checkOutputs ranks [] net.outputs

end Network

end EngineHost
