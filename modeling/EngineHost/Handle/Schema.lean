/-!
# The fields of an exported handle

A handle is exported as ten fields in a fixed order, each with a name. Several binding names share
one field, joined by a percent sign.
-/

namespace EngineHost

/-- The fields, in their order. -/
inductive Slot where
  | abiVersion
  | name
  | device
  | engine
  | inputNames
  | outputNames
  | hardwareCompatible
  | metadata
  | targetPlatform
  | reserved
  deriving DecidableEq, Repr

namespace Slot

/-- Every field, in order. -/
def all : List Slot :=
  [.abiVersion, .name, .device, .engine, .inputNames, .outputNames, .hardwareCompatible, .metadata,
    .targetPlatform, .reserved]

/-- The name of a field. -/
def key : Slot → String
  | .abiVersion => "abi_version"
  | .name => "name"
  | .device => "device"
  | .engine => "serialized_engine"
  | .inputNames => "in_binding_names"
  | .outputNames => "out_binding_names"
  | .hardwareCompatible => "hardware_compatible"
  | .metadata => "serialized_metadata"
  | .targetPlatform => "target_platform"
  | .reserved => "reserved"

end Slot

/-- The only layout of fields in use. -/
def schemaVersion : String := "1"

/-- Joins binding names. -/
def bindingDelim : Char := '%'

/-- The name of a platform: the system, and the machine under its usual name. -/
def platformName (system machine : String) : String :=
  let arch :=
    if machine = "amd64" then "x86_64" else if machine = "arm64" then "aarch64" else machine
  system ++ "_" ++ arch

/-- The platform of this host. -/
def hostPlatform : String :=
  platformName "linux" "amd64"

end EngineHost
