import EngineHost.Engine.Host
import EngineHost.Plan.Context

/-!
# Loading plans

A plan loads where it was built for: on its platform, on a processor, and on its device. A plan
built to be hardware compatible asks for the family of its device only, any other for the very
model; whether it was built so has to agree with what the handle says.
-/

namespace EngineHost

namespace PlanRuntime

/-- The name of the runtime. -/
def name : String := "plan"

/-- Does a payload start like a plan? -/
def accepts (payload : Bytes) : Bool :=
  Wire.magic.isPrefixOf payload

/-- The family in a signature of octets. -/
def familyOf (signature : Bytes) : Bytes :=
  signature.takeWhile (· ≠ '/'.toUInt8)

/-- Why a plan does not fit a device. -/
def deviceProblem? (host : HostConfig) (p : CompiledPlan) : Option String :=
  let here := Bytes.ofText host.signature
  if p.hardwareCompatible then
    if familyOf p.signature ≠ familyOf here then
      some ("plan built for device family " ++ Text.quoteBytes (familyOf p.signature) ++
        ", host is " ++ Text.quoteBytes (familyOf here))
    else none
  else if p.signature ≠ here then
    some ("plan built for device " ++ Text.quoteBytes p.signature ++ ", host is " ++
      Text.quoteBytes here ++ " (rebuild with hardware compatibility to relax)")
  else none

/-- Why a plan does not load on a host under some options. -/
def problem? (host : HostConfig) (o : LoadOptions) (p : CompiledPlan) : Option String :=
  if p.platform ≠ Bytes.ofText host.platform then
    some ("plan targets platform " ++ p.platform.toText ++ ", host is " ++ host.platform)
  else if p.hardwareCompatible ≠ o.hardwareCompatible then
    some ("plan was built with hardware_compatible=" ++ Text.ofBool p.hardwareCompatible)
  else if o.device.device.type ≠ "cpu" ∧ o.device.device.type ≠ "" then
    some ("plan runtime only drives cpu devices, handle wants " ++ o.device.device.text)
  else deviceProblem? host p

/-- Loads a plan. -/
def loadPlan (host : HostConfig) (payload : Bytes) (o : LoadOptions) : Except Failure PlanEngine :=
  match Wire.decode payload with
  | .error e => .error (o.failure (.plain e.message))
  | .ok p =>
    match problem? host o p with
    | some why => .error (o.failure (.plain why))
    | none => .ok { name := o.name, network := p.network, split := Kernel.chunks host.workers }

/-- A loaded plan as an engine of a size. -/
def engineOf (e : PlanEngine) (bytes : Int64) : Engine where
  inputNames := e.network.inputNames
  outputNames := e.network.outputs
  bytes
  context := .ok e.context

/-- The runtime of plans on a host. -/
def runtime (host : HostConfig) : Runtime :=
  let host := host.withDefaults
  { name := name
    accepts := accepts
    load := fun payload o =>
      (loadPlan host payload o).map (engineOf · (Int64.ofNat payload.length)) }

end PlanRuntime

end EngineHost
