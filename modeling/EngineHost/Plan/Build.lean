import EngineHost.Engine.Host
import EngineHost.Handle.Basic
import EngineHost.Plan.Wire

/-!
# Building plans

A sound network becomes a payload for a platform and a device (`BuildConfig.build`), the metadata
that lets it be traced (`NetworkDraft.metadata`) and a handle with both (`BuildConfig.buildHandle`).
A caller hands in a draft of the network, in which the ends of an input's ranges may be left out. In
the metadata an axis whose profile allows one size only is that size, any other copies the axis of
the input it comes from, and layers move these along as they move the sizes themselves.

The names in a network are octets, and a handle is built with these; a reading of the names, as
texts for one, gives the handle with the names that were read (`BuildConfig.buildHandleAs`).
-/

namespace EngineHost

/-- What a plan is built for; what is empty is this host's. -/
structure BuildConfig where
  hardwareCompatible : Bool := false
  signature : String := ""
  platform : String := ""
  deriving DecidableEq, Repr

/-- An input as a caller gives it. Ends of its ranges that are left out are those of no axes; only
the metadata tells them from ends that are given and empty. -/
structure InputDraft where
  name : Bytes
  min : Option Shape
  max : Option Shape
  deriving DecidableEq, Repr

/-- A network as a caller gives it. -/
structure NetworkDraft where
  inputs : List InputDraft
  layers : List Layer
  outputs : List Bytes
  deriving DecidableEq, Repr

/-- The input that a draft stands for. -/
def InputDraft.input (i : InputDraft) : NetworkInput :=
  ⟨i.name, i.min.getD [], i.max.getD []⟩

/-- The network that a draft stands for. -/
def NetworkDraft.network (d : NetworkDraft) : Network :=
  ⟨d.inputs.map InputDraft.input, d.layers, d.outputs⟩

/-- The draft that leaves nothing out. -/
def Network.draft (net : Network) : NetworkDraft :=
  ⟨net.inputs.map fun i => ⟨i.name, some i.min, some i.max⟩, net.layers, net.outputs⟩

/-- Exchanges the last two entries. -/
def swapLast (xs : List α) : List α :=
  match xs.reverse with
  | a :: b :: more => (b :: a :: more).reverse
  | _ => xs

/-- The axes of a layer's value from those of its first operand. -/
def Layer.axes (l : Layer) (first : List α) : List α :=
  match l.op? with
  | some .reduceSum => first.eraseIdx l.axis.toNatClampNeg
  | some .transpose => swapLast first
  | _ => first

namespace Network

variable {ν : Type} [BindingName ν] (read : Bytes → ν)

/-- The axes of an input as metadata gives them. -/
def inputDims (input : NetworkInput) : List (DimSpec ν) :=
  (input.min.zip input.max).zipIdx.map fun ((low, high), axis) =>
    if low = high then .ofSize low else .ofInput (read input.name) (Int64.ofNat axis)

/-- The axes of every value, latest first. -/
def allDims (net : Network) : List (Bytes × List (DimSpec ν)) :=
  let inputs := (net.inputs.map fun i => (i.name, inputDims read i)).reverse
  net.layers.foldl
    (fun dims l =>
      (l.output, l.axes ((dims.lookup (l.operands.headD [])).getD [])) :: dims)
    inputs

end Network

namespace NetworkDraft

variable {ν : Type} [BindingName ν] (read : Bytes → ν)

/-- The metadata of a network that was found sound. -/
def deriveMetadata (d : NetworkDraft) : Metadata ν where
  inputs := d.inputs.map fun i =>
    { name := read i.name, dtype := .float32, min := i.min, max := i.max }
  outputs := d.outputs.map fun name =>
    { name := read name
      dtype := .float32
      shape := some (((d.network.allDims read).lookup name).getD []) }

/-- The metadata of a network. -/
def metadata (d : NetworkDraft) : Except NetworkError (Metadata ν) :=
  match d.network.validate with
  | .error e => .error e
  | .ok () => .ok (d.deriveMetadata read)

end NetworkDraft

/-- Why no plan is built. -/
inductive BuildError where
  | network (e : NetworkError)
  | tooLong (e : Wire.TooLong)
  | handle (e : Malformed)
  deriving DecidableEq, Repr

/-- A refusal to build, as a failure. -/
def BuildError.toFailure : BuildError → Failure
  | .network e => .within "build plan" (.plain e.message)
  | .tooLong e => .plain e.message
  | .handle e => e.toFailure

namespace BuildConfig

/-- Fills in this host's device and platform. -/
def withDefaults (c : BuildConfig) : BuildConfig :=
  { c with
    signature := if c.signature = "" then defaultSignature else c.signature
    platform := if c.platform = "" then hostPlatform else c.platform }

/-- The compiled form of a network. -/
def compile (c : BuildConfig) (net : Network) : CompiledPlan :=
  let c := c.withDefaults
  { version := Wire.formatVersion
    hardwareCompatible := c.hardwareCompatible
    platform := .ofText c.platform
    signature := .ofText c.signature
    network := net }

/-- Builds a payload. -/
def build (c : BuildConfig) (net : Network) : Except BuildError Bytes :=
  match net.validate with
  | .error e => .error (.network e)
  | .ok () => (Wire.encode (c.compile net)).mapError .tooLong

/-- Builds a handle of a name, with the names of its bindings as they are read. -/
def buildHandleAs {ν : Type} [DecidableEq ν] [BindingName ν] (read : Bytes → ν) (c : BuildConfig)
    (name : String) (d : NetworkDraft) : Except BuildError (Handle ν) := do
  let engine ← c.build d.network
  let c := c.withDefaults
  let parts : HandleParts ν :=
    { name
      device := ⟨.cpu, c.signature⟩
      engine
      inputNames := d.network.inputNames.map read
      outputNames := d.outputs.map read
      hardwareCompatible := c.hardwareCompatible
      metadata := d.deriveMetadata read
      targetPlatform := c.platform }
  (Handle.make parts).mapError .handle

/-- Builds a handle of a name. -/
def buildHandle (c : BuildConfig) (name : String) (d : NetworkDraft) :
    Except BuildError (Handle Bytes) :=
  c.buildHandleAs id name d

/-- Builds a handle of a name whose bindings are named by texts. -/
def buildTextHandle (c : BuildConfig) (name : String) (d : NetworkDraft) :
    Except BuildError Handle :=
  c.buildHandleAs Bytes.toText name d

end BuildConfig

end EngineHost
