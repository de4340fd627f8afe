import EngineHost.Operator.Engine
import EngineHost.Plan.Build
import EngineHost.Program.Basic

/-!
# Sample programs

Four small programs: a copy by an engine, a gated product with row sums, a chain of engines behind a
sum, and one without engines.
-/

namespace EngineHost

namespace Sample

/-- A network input of float elements. -/
def input (name : String) (min max : Shape) : NetworkInput :=
  ⟨.ofText name, min, max⟩

/-- A layer. -/
def layer (op : LayerOp) (operands : List String) (output : String) (axis : Int64 := 0)
    (scalar : Single := .zero) : Layer :=
  ⟨.ofText op.name, operands.map .ofText, .ofText output, axis, scalar⟩

/-- A network with one input of two axes up to sixteen and one layer. -/
def oneLayer (l : Layer) : Network where
  inputs := [input "x" [1, 1] [16, 16]]
  layers := [l]
  outputs := [l.output]

/-- Copies its input. -/
def identityNetwork : Network :=
  oneLayer (layer .identity ["x"] "y")

/-- Doubles its input. -/
def scaleNetwork : Network :=
  oneLayer (layer .scale ["x"] "y" 0 ⟨0x40000000⟩)

/-- Transposes its input. -/
def transposeNetwork : Network :=
  oneLayer (layer .transpose ["x"] "xt")

/-- The rectified product of two inputs and its sums over rows; any number of rows of one width. -/
def gatedNetwork (width : Int64) : Network where
  inputs := [input "a" [1, width] [-1, width], input "b" [1, width] [-1, width]]
  layers := [layer .mul ["a", "b"] "prod", layer .relu ["prod"] "act",
    layer .reduceSum ["act"] "score" 1]
  outputs := ["act", "score"].map .ofText

/-- A program input of float elements on the processor. -/
def floats (name : String) (shape : Shape) : ProgramInput :=
  ⟨name, .float32, some shape, .cpu⟩

/-- A call without objects. -/
def call (name op : String) (args outputs : List String) : ProgramNode :=
  { name, op, args := some args, outputs := some outputs }

/-- A call of the engine that has the call's name. -/
def engineCall (name : String) (args outputs : List String) : ProgramNode :=
  { call name EngineOp.operatorName args outputs with objects := [name] }

/-- Builds a network and adds it as an engine. -/
def addEngine (r : Registry) (c : BuildConfig) (p : Program) (object engine : String)
    (net : Network) : Except Failure Program := do
  let h ← (c.buildTextHandle engine net.draft).mapError BuildError.toFailure
  p.addObject r object (EngineOp.object (some h))

/-- One engine call. -/
def identity (r : Registry) (c : BuildConfig) : Except Failure Program :=
  addEngine r c
    { name := "identity"
      inputs := some [floats "x" [2, 3]]
      nodes := some [engineCall "engine_0" ["x"] ["y"]]
      outputs := some ["y"] }
    "engine_0" "identity" identityNetwork

/-- One engine call with two outputs, one of them rectified by the host. -/
def gated (r : Registry) (c : BuildConfig) : Except Failure Program :=
  addEngine r c
    { name := "gated"
      inputs := some [floats "a" [Shape.dynamic, 4], floats "b" [Shape.dynamic, 4]]
      nodes := some [engineCall "engine_0" ["a", "b"] ["act", "score"],
        call "relu_0" Native.reluName ["score"] ["score_relu"]]
      outputs := some ["act", "score_relu"] }
    "engine_0" "gated" (gatedNetwork 4)

/-- A sum by the host in front of two engine calls. -/
def chained (r : Registry) (c : BuildConfig) : Except Failure Program := do
  let p ← addEngine r c
    { name := "chained"
      inputs := some [floats "x" [2, 3], floats "bias" [2, 3]]
      nodes := some [call "add_0" Native.addName ["x", "bias"] ["sum"],
        engineCall "engine_0" ["sum"] ["scaled"], engineCall "engine_1" ["scaled"] ["out"]]
      outputs := some ["out"] }
    "engine_0" "scale" scaleNetwork
  addEngine r c p "engine_1" "transpose" transposeNetwork

/-- No engine at all. -/
def native : Program :=
  { name := "native"
    inputs := some [floats "x" [2, 2]]
    nodes := some [call "relu_0" Native.reluName ["x"] ["r"],
      call "add_0" Native.addName ["r", "x"] ["out"]]
    outputs := some ["out", "r"] }

/-- The names of the samples. -/
def names : List String := ["chained", "gated", "identity", "native"]

/-- Builds a sample. -/
def build (name : String) (r : Registry) (c : BuildConfig) : Except Failure Program :=
  if name = "chained" then chained r c
  else if name = "gated" then gated r c
  else if name = "identity" then identity r c
  else if name = "native" then .ok native
  else
    .error (.plain ("unknown sample " ++ Text.quote name ++ " (have " ++ Text.bracketed names ++
      ")"))

end Sample

end EngineHost
