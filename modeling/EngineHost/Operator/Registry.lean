import EngineHost.Handle.Field
import EngineHost.Tracer

/-!
# Operators and classes

An operator has two kernels: one on descriptors, for tracing, and one on tensors, for running. A
class turns live objects into fields and back. Both are known by name, and every call says in which
mode it is meant. Kernels work in a `Station`: what keeps engines, what traces, and the caller's
signal.
-/

namespace EngineHost

/-- How a program is evaluated. -/
inductive Mode where
  | symbolic
  | concrete
  | other (number : Int64)
  deriving DecidableEq, Repr

namespace Mode

/-- The number of a mode. -/
def number : Mode → Int64
  | .symbolic => 0
  | .concrete => 1
  | .other n => n

/-- The mode of a number. -/
def ofNumber (n : Int64) : Mode :=
  if n = 0 then .symbolic else if n = 1 then .concrete else .other n

/-- The printed form. -/
def text : Mode → String
  | .symbolic => "symbolic"
  | .concrete => "concrete"
  | .other _ => "unknown"

/-- Reads a mode under either of its names. -/
def parse (raw : String) : Except Failure Mode :=
  if raw = "symbolic" ∨ raw = "trace" then .ok .symbolic
  else if raw = "concrete" ∨ raw = "run" then .ok .concrete
  else .error (.plain ("unknown mode " ++ Text.quote raw))

end Mode

/-- The value of a live object: an engine handle, possibly a missing one, or anything else. -/
inductive ObjectValue where
  | engine (h : Option Handle)
  | other (v : FieldValue)

/-- The name of a value's type. -/
def ObjectValue.typeName : ObjectValue → String
  | .engine _ => "*handle.Handle"
  | .other v => v.typeName

/-- A live object of a class. -/
structure Object where
  className : String
  value : ObjectValue

/-- What kernels work in. -/
structure Station where
  executor : Executor := { runtimes := [], isCaching := false }
  tracer : Tracer := Tracer.make false 0
  signal : Signal := .never

/-- One of the implementations of an operator. Its results may be missing, and of either kind. -/
abbrev OperatorKernel (α : Type) :=
  List α → List Object → Station → Except Failure (List (Option Value)) × Station

/-- An operator. -/
structure Operator where
  symbolic : OperatorKernel Descriptor
  concrete : OperatorKernel Tensor

/-- A class of objects. -/
structure ObjectClass where
  flatten : ObjectValue → Except Failure (List Field)
  unflatten : List Field → Except Failure ObjectValue

/-- Operators and classes by name, in the order they came. -/
structure Registry where
  operators : List (String × Operator) := []
  classes : List (String × ObjectClass) := []

/-- The type name of what is given for a tensor. -/
def givenTypeName : Option Value → String
  | none => "<nil>"
  | some (.symbol _) => "tensor.Descriptor"
  | some (.tensor _) => "*tensor.Tensor"

namespace Registry

variable (r : Registry)

/-- Adds an operator; a kernel may be missing. -/
def addOperator (name : String) (symbolic : Option (OperatorKernel Descriptor))
    (concrete : Option (OperatorKernel Tensor)) : Except Failure Registry :=
  if name = "" then .error (.plain "operator name is empty")
  else
    match symbolic, concrete with
    | some symbolic, some concrete =>
      if (r.operators.lookup name).isSome then
        .error (.within ("operator " ++ Text.quote name) .duplicate)
      else .ok { r with operators := r.operators ++ [(name, ⟨symbolic, concrete⟩)] }
    | _, _ =>
      .error (.plain ("operator " ++ Text.quote name ++
        " needs both symbolic and concrete kernels"))

/-- Adds a class; a hook may be missing. -/
def addClass (name : String) (flatten : Option (ObjectValue → Except Failure (List Field)))
    (unflatten : Option (List Field → Except Failure ObjectValue)) : Except Failure Registry :=
  if name = "" then .error (.plain "class name is empty")
  else
    match flatten, unflatten with
    | some flatten, some unflatten =>
      if (r.classes.lookup name).isSome then
        .error (.within ("class " ++ Text.quote name) .duplicate)
      else .ok { r with classes := r.classes ++ [(name, ⟨flatten, unflatten⟩)] }
    | _, _ =>
      .error (.plain ("class " ++ Text.quote name ++ " needs flatten and unflatten hooks"))

/-- Makes additions one after the other up to the first that is refused; those before it stay. -/
def addEach (r : Registry) : List (Registry → Except Failure Registry) →
    Except Failure Unit × Registry
  | [] => (.ok (), r)
  | add :: more =>
    match add r with
    | .error f => (.error f, r)
    | .ok r => addEach r more

/-- The operator of a name. -/
def operator? (name : String) : Option Operator :=
  r.operators.lookup name

/-- The class of a name. -/
def class? (name : String) : Option ObjectClass :=
  r.classes.lookup name

/-- Names in the order of their octets. -/
def sortedNames (names : List String) : List String :=
  names.mergeSort fun a b => decide (Bytes.ofText a ≤ Bytes.ofText b)

/-- The names of the operators. -/
def operatorNames : List String :=
  sortedNames (r.operators.map (·.1))

/-- The names of the classes. -/
def classNames : List String :=
  sortedNames (r.classes.map (·.1))

/-- What values look like, from input `i` on; none may be missing. -/
def descriptors (name : String) (i : Nat) :
    List (Option Value) → Except Failure (List Descriptor)
  | [] => .ok []
  | none :: _ => .error (.plain (name ++ ": input " ++ toString i ++ " is nil"))
  | some v :: more => (descriptors name (i + 1) more).map (v.descriptor :: ·)

/-- The tensors among values, from input `i` on; each has to be one. -/
def tensors (name : String) (i : Nat) : List (Option Value) → Except Failure (List Tensor)
  | [] => .ok []
  | some (.tensor t) :: more => (tensors name (i + 1) more).map (t :: ·)
  | v :: _ =>
    .error (.plain (name ++ ": concrete input " ++ toString i ++ " is " ++ givenTypeName v ++
      ", want *tensor.Tensor"))

/-- Calls an operator in a mode. -/
def invoke (mode : Mode) (name : String) (inputs : List (Option Value)) (objects : List Object)
    (s : Station) : Except Failure (List (Option Value)) × Station :=
  match r.operator? name with
  | none => (.error (.within (Text.quote name) .unknownOperator), s)
  | some op =>
    match mode with
    | .symbolic =>
      match descriptors name 0 inputs with
      | .error f => (.error f, s)
      | .ok inputs => op.symbolic inputs objects s
    | .concrete =>
      match tensors name 0 inputs with
      | .error f => (.error f, s)
      | .ok inputs => op.concrete inputs objects s
    | .other n => (.error (.plain (name ++ ": invalid mode " ++ Text.ofInt64 n)), s)

/-- The fields of an object. -/
def flattenObject (o : Object) : Except Failure (List Field) :=
  match r.class? o.className with
  | none => .error (.within (Text.quote o.className) .unknownClass)
  | some c => (c.flatten o.value).mapError (.within ("flatten " ++ o.className))

/-- The object of a class from its fields. -/
def unflattenObject (className : String) (fields : List Field) : Except Failure Object :=
  match r.class? className with
  | none => .error (.within (Text.quote className) .unknownClass)
  | some c =>
    match c.unflatten fields with
    | .error f => .error (.within ("unflatten " ++ className) f)
    | .ok value => .ok ⟨className, value⟩

end Registry

end EngineHost
