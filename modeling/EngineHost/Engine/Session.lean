import EngineHost.Failure
import EngineHost.Tensor.Basic

/-!
# The ONNX Runtime library

Sessions of ONNX graphs are opened by a library from outside. As with runtimes and contexts, the
library is given by what it answers: `OnnxLibrary` has everything that is asked of it, and nothing
is known of the answers. A build without the library has `OnnxLibrary.absent`.
-/

namespace EngineHost

/-- A value of the library: the number of its element type, and its elements with its shape as they
are read for either of two types. -/
structure OnnxValue where
  elementType : Except Failure Int32
  singles : Except Failure (Array Single × Shape)
  integers : Except Failure (Array Int64 × Shape)

/-- A graph that was opened. -/
structure OnnxSession where
  inputNames : List Bytes
  outputNames : List Bytes
  run : Signal → List (Bytes × OnnxValue) → Except Failure (List (Bytes × OnnxValue)) × Signal

/-- What is asked of the library. -/
structure OnnxLibrary where
  /-- Opens the library at a path, for a version of its interface. -/
  openAt : String → UInt32 → Except Failure Unit
  /-- Makes the environment that sessions share. -/
  environment : Except Failure Unit
  /-- Puts a model into a file, from which it is opened. -/
  stage : Bytes → Except Failure Unit
  session : Bytes → Except Failure OnnxSession
  ofSingles : Array Single → Shape → Except Failure OnnxValue
  ofIntegers : Array Int64 → Shape → Except Failure OnnxValue

/-- No library at all. -/
def OnnxLibrary.absent : OnnxLibrary :=
  let refusal : Failure := .plain "shared libraries cannot be opened here"
  { openAt := fun _ _ => .error refusal
    environment := .error refusal
    stage := fun _ => .error refusal
    session := fun _ => .error refusal
    ofSingles := fun _ _ => .error refusal
    ofIntegers := fun _ _ => .error refusal }

end EngineHost
