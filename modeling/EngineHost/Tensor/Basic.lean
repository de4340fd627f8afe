import EngineHost.Number.Binary
import EngineHost.Tensor.Descriptor

/-!
# Tensors

A tensor holds as many elements as its static shape counts; that is part of its type. Elements of
the two float kinds are kept as bit patterns, so nothing is lost in storage, and conversions between
kinds go through single precision: the float kinds widen or round to the nearest, integers round to
the nearest going there and lose their fraction coming back.
-/

namespace EngineHost

/-- The elements of a tensor. -/
inductive Elements where
  | float32 (values : Array Single)
  | float16 (values : Array Half)
  | int32 (values : Array Int32)
  | int64 (values : Array Int64)
  deriving DecidableEq, Repr

namespace Elements

/-- The kind of the elements. -/
def kind : Elements → ElementKind
  | .float32 _ => .float32
  | .float16 _ => .float16
  | .int32 _ => .int32
  | .int64 _ => .int64

/-- The number of elements. -/
def size : Elements → Nat
  | .float32 v => v.size
  | .float16 v => v.size
  | .int32 v => v.size
  | .int64 v => v.size

/-- The elements in single precision. -/
def toSingles : Elements → Array Single
  | .float32 v => v
  | .float16 v => v.map Half.toSingle
  | .int32 v => v.map fun n => Single.ofInt n.toInt
  | .int64 v => v.map fun n => Single.ofInt n.toInt

/-- The elements as integers of sixty-four bits; floats lose their fraction. -/
def toInt64s : Elements → Array Int64
  | .int64 v => v
  | .int32 v => v.map Int32.toInt64
  | v => v.toSingles.map Single.toInt64

/-- Elements of a kind from values in single precision. -/
def ofSingles : ElementKind → Array Single → Elements
  | .float32, v => .float32 v
  | .float16, v => .float16 (v.map Single.toHalf)
  | .int32, v => .int32 (v.map Single.toInt32)
  | .int64, v => .int64 (v.map Single.toInt64)

/-- As many zeros of a kind. -/
def zeros (n : Nat) : ElementKind → Elements
  | .float32 => .float32 (Array.replicate n .zero)
  | .float16 => .float16 (Array.replicate n ⟨0⟩)
  | .int32 => .int32 (Array.replicate n 0)
  | .int64 => .int64 (Array.replicate n 0)

end Elements

/-- A dense tensor in row-major order. -/
structure Tensor where
  elements : Elements
  shape : Shape
  device : Device
  isStatic : shape.isStatic = true
  count_eq : shape.count = .ok elements.size

/-- Why elements do not make a tensor. -/
inductive TensorError where
  | dynamicShape (shape : Shape)
  | uncountable (cause : Shape.CountError)
  | wrongCount (shape : Shape) (expected got : Nat)
  | unsupported (dtype : DType)
  /-- Not a reported error: so many elements cannot be had at once. -/
  | noRoom
  deriving DecidableEq, Repr

/-- The wording of the reason. -/
def TensorError.message : TensorError → String
  | .dynamicShape shape => "tensor shape " ++ shape.listText ++ " must be static"
  | .uncountable cause => cause.message
  | .wrongCount shape expected got =>
    "shape " ++ shape.listText ++ " expects " ++ toString expected ++ " elements, got " ++
      toString got
  | .unsupported dtype => DType.unsupportedMessage dtype.name
  | .noRoom => "too many elements"

/-- The most octets that can be had at once. -/
def maxRoom : Nat := Nat.pow 2 48

/-- Can so many elements of a kind be had at once? -/
def ElementKind.hasRoom (k : ElementKind) (n : Nat) : Bool :=
  n * k.width ≤ maxRoom

namespace Tensor

/-- A tensor of given elements, if they fit the shape. -/
def make (device : Device) (elements : Elements) (shape : Shape) : Except TensorError Tensor :=
  if static : shape.isStatic = true then
    match h : shape.count with
    | .error e => .error (.uncountable e)
    | .ok n =>
      if fits : n = elements.size then
        .ok { elements, shape, device, isStatic := static, count_eq := by rw [h, fits] }
      else .error (.wrongCount shape n elements.size)
  else .error (.dynamicShape shape)

/-- A tensor of zeros. -/
def zeros (dtype : DType) (shape : Shape) (device : Device) : Except TensorError Tensor :=
  match shape.count with
  | .error e => .error (.uncountable e)
  | .ok n =>
    match dtype.kind? with
    | none => .error (.unsupported dtype)
    | some k => if k.hasRoom n then make device (.zeros n k) shape else .error .noRoom

/-- A tensor on the processor with one value in every place. -/
def full (value : Single) (shape : Shape) : Except TensorError Tensor :=
  match shape.count with
  | .error e => .error (.uncountable e)
  | .ok n =>
    if ElementKind.float32.hasRoom n then make .cpu (.float32 (Array.replicate n value)) shape
    else .error .noRoom

/-- A tensor of an element type from values in single precision. -/
def ofSingles (dtype : DType) (values : Array Single) (shape : Shape) (device : Device) :
    Except TensorError Tensor :=
  match dtype.kind? with
  | none => .error (.unsupported dtype)
  | some k => make device (.ofSingles k values) shape

variable (t : Tensor)

/-- The element type. -/
def dtype : DType := t.elements.kind.dtype

/-- The tensor without its elements. -/
def descriptor : Descriptor := ⟨t.dtype, t.shape, t.device⟩

/-- The number of elements. -/
def size : Nat := t.elements.size

/-- The size of the elements in bytes. -/
def byteSize : Nat := t.elements.size * t.elements.kind.width

/-- The same elements on another device. -/
def moveTo (device : Device) : Tensor := { t with device }

/-- The printed form. -/
def text : String := t.descriptor.text

/-- Are two lists of numbers within a distance of each other, place by place? Two that are no
numbers are, and so are two whose distance is no number. -/
def close (atol : Double) (x y : Single) : Bool :=
  (x.isNaN && y.isNaN) || !Double.apart x.toDouble y.toDouble atol

/-- Equal element types and shapes, and elements within a distance of each other. -/
def allClose (a b : Tensor) (atol : Double) : Bool :=
  a.dtype = b.dtype && a.shape = b.shape &&
    (a.elements.toSingles.zip b.elements.toSingles).all fun (x, y) => close atol x y

/-- Same descriptors and equal elements; floats are compared as numbers. -/
def same (a b : Tensor) : Bool :=
  a.descriptor.same b.descriptor &&
    match a.elements.kind with
    | .int32 => a.elements.toInt64s = b.elements.toInt64s
    | .int64 => a.elements.toInt64s = b.elements.toInt64s
    | _ => allClose a b .zero

end Tensor

/-- What flows along an edge of a program: a tensor when it runs, a descriptor when it is traced. -/
inductive Value where
  | tensor (t : Tensor)
  | symbol (d : Descriptor)

namespace Value

/-- What is known of a value without its elements. -/
def descriptor : Value → Descriptor
  | .tensor t => t.descriptor
  | .symbol d => d

/-- Tensors as values, all of which are there. -/
def tensors (ts : List Tensor) : List (Option Value) :=
  (ts.map .tensor).map some

/-- Descriptors as values, all of which are there. -/
def symbols (ds : List Descriptor) : List (Option Value) :=
  (ds.map .symbol).map some

end Value

end EngineHost
