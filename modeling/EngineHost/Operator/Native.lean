import EngineHost.Operator.Registry

/-!
# Operators of the host

Three operators that need no engine: identity, sum and rectifier. They compute in single precision,
whatever the element type.
-/

namespace EngineHost

namespace Native

/-- The name of the identity. -/
def identityName : String := "aten::identity"

/-- The name of the sum. -/
def addName : String := "aten::add"

/-- The name of the rectifier. -/
def reluName : String := "aten::relu"

/-- The failure of a wrong number of inputs. -/
def wrongCount (name : String) (want got : Nat) : Failure :=
  .plain (name ++ " takes " ++ toString want ++ " inputs, got " ++ toString got)

/-- A kernel that leaves the station alone, with how it gives its results. -/
def pureKernel (give : List α → List (Option Value)) (f : List α → Except Failure (List α)) :
    OperatorKernel α :=
  fun inputs _ s => ((f inputs).map give, s)

/-- Gives its only input back. -/
def same (name : String) : List α → Except Failure (List α)
  | [x] => .ok [x]
  | xs => .error (wrongCount name 1 xs.length)

/-- The rectifier on a tensor. -/
def reluTensor (x : Tensor) : Except Failure Tensor :=
  (Tensor.ofSingles x.dtype (x.elements.toSingles.map Single.relu) x.shape x.device).mapError
    fun e => .within reluName (.plain e.message)

/-- The rectifier on tensors. -/
def relu : List Tensor → Except Failure (List Tensor)
  | [x] => (reluTensor x).map ([·])
  | xs => .error (wrongCount reluName 1 xs.length)

/-- Checks that two values can be added at all. -/
def checkSameKind (a b : Descriptor) : Except Failure Unit :=
  if a.dtype ≠ b.dtype then
    .error (.plain (addName ++ ": dtypes " ++ a.dtype.name ++ " and " ++ b.dtype.name ++
      " differ"))
  else if !a.device.same b.device then
    .error (.plain (addName ++ ": devices " ++ a.device.text ++ " and " ++ b.device.text ++
      " differ"))
  else if a.shape.length ≠ b.shape.length then
    .error (.plain (addName ++ ": ranks " ++ toString a.shape.length ++ " and " ++
      toString b.shape.length ++ " differ"))
  else .ok ()

/-- The sizes of a sum from axis `i` on, or the axis at fault: a size that is not known gives
way. -/
def joinDims (i : Nat) : Shape → Shape → Except Nat Shape
  | a :: as, b :: bs =>
    if a < 0 then (joinDims (i + 1) as bs).map (b :: ·)
    else if b < 0 ∨ a = b then (joinDims (i + 1) as bs).map (a :: ·)
    else .error i
  | _, _ => .ok []

/-- What a sum looks like. -/
def addSymbolic : List Descriptor → Except Failure (List Descriptor)
  | [a, b] => do
    checkSameKind a b
    match joinDims 0 a.shape b.shape with
    | .ok shape => pure [⟨a.dtype, shape, a.device⟩]
    | .error axis =>
      .error (.plain (addName ++ ": shapes " ++ a.shape.text ++ " and " ++ b.shape.text ++
        " differ on axis " ++ toString axis))
  | xs => .error (wrongCount addName 2 xs.length)

/-- The sum of two tensors of one kind and shape. -/
def addTensors (a b : Tensor) : Except Failure Tensor :=
  let values := Array.zipWith Single.add a.elements.toSingles b.elements.toSingles
  (Tensor.ofSingles a.dtype values a.shape a.device).mapError
    fun e => .within addName (.plain e.message)

/-- The sum of tensors. -/
def add : List Tensor → Except Failure (List Tensor)
  | [a, b] => do
    checkSameKind a.descriptor b.descriptor
    if a.shape ≠ b.shape then
      .error (.plain (addName ++ ": shapes " ++ a.shape.text ++ " and " ++ b.shape.text ++
        " differ"))
    else (addTensors a b).map ([·])
  | xs => .error (wrongCount addName 2 xs.length)

/-- The operators of the host, each as an addition to a registry. -/
def additions : List (Registry → Except Failure Registry) := [
  fun r => r.addOperator identityName (some (pureKernel Value.symbols (same identityName)))
    (some (pureKernel Value.tensors (same identityName))),
  fun r => r.addOperator addName (some (pureKernel Value.symbols addSymbolic))
    (some (pureKernel Value.tensors add)),
  fun r => r.addOperator reluName (some (pureKernel Value.symbols (same reluName)))
    (some (pureKernel Value.tensors relu))]

/-- Adds the operators of the host. -/
def register (r : Registry) : Except Failure Unit × Registry :=
  r.addEach additions

end Native

end EngineHost
