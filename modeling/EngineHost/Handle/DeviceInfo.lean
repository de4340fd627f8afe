import EngineHost.Failure
import EngineHost.Handle.Schema

/-!
# The device an engine was built for

Beside the device itself an engine records the signature of the hardware model, `family/model`. The
two travel in one field as index, type and signature joined by percent signs.
-/

namespace EngineHost

/-- A malformed handle: the field at fault, if one is, and the reason. -/
structure Malformed where
  field : String
  reason : String
  deriving DecidableEq, Repr

/-- A malformed field of a handle. -/
def Slot.malformed (slot : Slot) (reason : String) : Malformed :=
  ⟨slot.key, reason⟩

/-- A malformed handle as a failure. -/
def Malformed.toFailure (m : Malformed) : Failure :=
  .malformed m.field m.reason

/-- The device an engine was built for. -/
structure DeviceInfo where
  device : Device
  signature : String
  deriving DecidableEq, Repr, Inhabited

/-- The family of a hardware signature: what stands before its first slash. -/
def signatureFamily (signature : String) : String :=
  Text.before '/' signature

namespace DeviceInfo

/-- The family of the hardware. -/
def family (d : DeviceInfo) : String :=
  signatureFamily d.signature

/-- The field form. -/
def text (d : DeviceInfo) : String :=
  Text.ofInt64 d.device.index ++ "%" ++ d.device.typeName ++ "%" ++ d.signature

/-- Reads the field form. -/
def parse (raw : String) : Except Malformed DeviceInfo :=
  match Text.split bindingDelim raw with
  | [idx, type, signature] =>
    match Text.int64? idx with
    | none => .error (Slot.device.malformed ("invalid device index " ++ Text.quote idx))
    | some n =>
      if n < 0 then .error (Slot.device.malformed ("invalid device index " ++ Text.quote idx))
      else
        match Device.parse type with
        | .error e => .error (Slot.device.malformed e.message)
        | .ok d =>
          if signature = "" then .error (Slot.device.malformed "empty device signature")
          else .ok ⟨{ d with index := n }, signature⟩
  | _ =>
    .error (Slot.device.malformed ("expected index%type%signature, got " ++ Text.quote raw))

end DeviceInfo

end EngineHost
