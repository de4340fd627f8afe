import EngineHost.Tensor.Device
import EngineHost.Tensor.DType
import EngineHost.Tensor.Shape

/-!
# Descriptors

What is known of a tensor without its elements: element type, shape and device.
-/

namespace EngineHost

/-- A tensor without its elements. -/
structure Descriptor where
  dtype : DType
  shape : Shape
  device : Device
  deriving DecidableEq, Repr, Inhabited

namespace Descriptor

/-- Equal element types and shapes on the same device. -/
def same (d e : Descriptor) : Bool :=
  d.dtype = e.dtype && d.shape = e.shape && d.device.same e.device

/-- The printed form. -/
def text (d : Descriptor) : String :=
  d.dtype.name ++ "[" ++ d.shape.text ++ "]@" ++ d.device.text

end Descriptor

end EngineHost
