import EngineHost.Executor

/-!
# Tracing handles

To trace a handle is to say what its outputs look like without running its engine: the inputs are
held against the profiles, and each axis of an output is a fixed size or the size of an axis of an
input.

A handle that says nothing of its outputs can be traced by running it once on zeros, where that is
allowed and every size is known. What such a probe found is kept in a `ProbeCache`, which forgets
the oldest first.
-/

namespace EngineHost

/-- What probes found: results by key, and the keys from the oldest to the latest. -/
structure ProbeCache where
  entries : List (String × List Descriptor) := []
  order : List String := []
  deriving DecidableEq, Repr

namespace ProbeCache

/-- What is kept under a key. -/
def find? (c : ProbeCache) (key : String) : Option (List Descriptor) :=
  c.entries.lookup key

/-- Forgets the oldest until there is room below a limit. -/
def makeRoom (limit : Nat) (entries : List (String × List Descriptor)) :
    (order : List String) → ProbeCache
  | [] => ⟨entries, []⟩
  | oldest :: more =>
    if limit ≤ more.length + 1 then makeRoom limit (entries.filter (·.1 ≠ oldest)) more
    else ⟨entries, oldest :: more⟩

/-- Keeps a result, unless one is kept already. -/
def store (c : ProbeCache) (limit : Nat) (key : String) (found : List Descriptor) : ProbeCache :=
  if (c.find? key).isSome then c
  else
    let c := makeRoom limit c.entries c.order
    ⟨c.entries ++ [(key, found)], c.order ++ [key]⟩

/-- The number of results kept. -/
def size (c : ProbeCache) : Nat :=
  c.entries.length

end ProbeCache

/-- Traces handles. -/
structure Tracer where
  allowsProbes : Bool
  limit : Nat
  probes : ProbeCache := {}
  deriving DecidableEq, Repr

/-- Runs a handle for a probe, in a state of type `σ`. -/
abbrev Prober (σ : Type) := List (Option Tensor) → Handle → σ → Except Failure (List Tensor) × σ

namespace Tracer

/-- How many results are kept where no number is given. -/
def defaultLimit : Nat := 256

/-- A tracer that keeps so many results. -/
def make (allowsProbes : Bool) (limit : Int64) : Tracer :=
  { allowsProbes, limit := if limit ≤ 0 then defaultLimit else limit.toNatClampNeg }

/-- Every input is on the handle's device. -/
def checkDevices (h : Handle) : List String → List Descriptor → Except Failure Unit
  | name :: names, d :: more =>
    if d.device.same h.device.device then checkDevices h names more
    else .error (.deviceMismatch h.name name d.device h.device.device)
  | _, _ => .ok ()

/-- The first axis whose size is known and outside its range. -/
def outsideAxis (axis : Nat) : Shape → Shape → Shape → Option Nat
  | d :: dims, low :: lows, high :: highs =>
    if 0 ≤ d ∧ !inProfile low high d then some axis else outsideAxis (axis + 1) dims lows highs
  | _, _, _ => none

/-- Why an input does not fit its spec. -/
def inputProblem? (spec : InputSpec) (d : Descriptor) : Option String :=
  if d.dtype ≠ spec.dtype then
    some ("dtype " ++ d.dtype.name ++ ", engine expects " ++ spec.dtype.name)
  else if d.shape.length ≠ spec.low.length then
    some ("rank " ++ toString d.shape.length ++ ", profile rank " ++ toString spec.low.length)
  else
    (outsideAxis 0 d.shape spec.low spec.high).map fun axis =>
      "axis " ++ toString axis ++ " is outside the optimization profile"

/-- Every input fits its spec. -/
def checkSpecs (h : Handle) : List String → List InputSpec → List Descriptor → Except Failure Unit
  | name :: names, spec :: specs, d :: more =>
    match inputProblem? spec d with
    | some reason =>
      .error (.shapeBinding
        { engine := h.name, input := .ofText name, shape := d.shape.stated?, min := spec.min,
          max := spec.max, reason })
    | none => checkSpecs h names specs more
  | _, _, _ => .ok ()

/-- Checks the inputs of a handle. -/
def checkInputs (h : Handle) (inputs : List Descriptor) : Except Failure Unit :=
  if inputs.length ≠ h.inputNames.length then .error (Executor.wrongInputs h inputs.length)
  else do
    checkDevices h h.inputNames inputs
    checkSpecs h h.inputNames h.metadata.inputs inputs

/-- The size of one axis of an output. -/
def resolveDim (h : Handle) (inputs : List Descriptor) (output : String) (axis : Nat)
    (dim : DimSpec) : Except Failure Int64 :=
  if dim.isStatic then .ok dim.static
  else if dim.axis < 0 then
    .error (Slot.metadata.malformed ("output " ++ Text.quote output ++ " axis " ++ toString axis ++
      " copies negative axis " ++ Text.ofInt64 dim.axis ++ " of " ++
      Text.quote dim.input)).toFailure
  else
    let i := h.inputNames.idxOf dim.input
    let shape := (inputs[i]?).map (·.shape)
    match (shape.getD [])[dim.axis.toNatClampNeg]? with
    | some d => .ok d
    | none =>
      match shape.orElse fun _ => (inputs[0]?).map (·.shape) with
      | some shape =>
        .error (.shapeBinding
          { engine := h.name, input := .ofText dim.input,
            reason := "output " ++ Text.quote output ++ " axis " ++ toString axis ++
              " copies axis " ++ Text.ofInt64 dim.axis ++ ", input has rank " ++
              toString shape.length })
      | none => .error .crash

/-- The sizes of the axes of an output from one axis on. -/
def resolveDims (h : Handle) (inputs : List Descriptor) (output : String) (axis : Nat) :
    List DimSpec → Except Failure Shape
  | [] => .ok []
  | dim :: more => do
    let d ← resolveDim h inputs output axis dim
    let dims ← resolveDims h inputs output (axis + 1) more
    pure (d :: dims)

/-- The outputs that metadata describes. -/
def resolveOutputs (h : Handle) (inputs : List Descriptor) :
    List OutputSpec → Except Failure (List Descriptor)
  | [] => .ok []
  | spec :: more => do
    let shape ← resolveDims h inputs spec.name 0 (spec.shape.getD [])
    let rest ← resolveOutputs h inputs more
    pure (⟨spec.dtype, shape, h.device.device⟩ :: rest)

/-! ### Probes -/

/-- The failure to trace a handle that says nothing of its outputs. -/
def untraceable (h : Handle) (why : String) : Failure :=
  .within ("trace engine " ++ Text.quote h.name ++ why) .noOutputMetadata

/-- Every size is known. -/
def checkStatic (h : Handle) (i : Nat) : List Descriptor → Except Failure Unit
  | [] => .ok ()
  | d :: more =>
    if d.shape.isStatic then checkStatic h (i + 1) more
    else
      .error (untraceable h (": input " ++ toString i ++ " has dynamic shape " ++ d.shape.text ++
        " and cannot be probed"))

/-- What a probe is kept under. -/
def probeKey (h : Handle) (inputs : List Descriptor) : String :=
  h.digest ++ "|" ++ h.device.text ++ String.join (inputs.map fun d => "|" ++ d.text)

/-- Zeros for the inputs from input `i` on. -/
def zeros (h : Handle) (i : Nat) : List Descriptor → Except Failure (List (Option Tensor))
  | [] => .ok []
  | d :: more =>
    match Tensor.zeros d.dtype d.shape d.device with
    | .error .noRoom => .error .crash
    | .error e =>
      .error (.within ("probe engine " ++ Text.quote h.name ++ " input " ++ toString i)
        (.plain e.message))
    | .ok t => (zeros h (i + 1) more).map (some t :: ·)

variable (t : Tracer)

/-- Traces a handle by running it once on zeros, or recalls that. -/
def probe (prober : Option (Prober σ)) (inputs : List Descriptor) (h : Handle) (s : σ) :
    Except Failure (List Descriptor) × Tracer × σ :=
  match t.allowsProbes, prober with
  | true, some prober =>
    match checkStatic h 0 inputs with
    | .error f => (.error f, t, s)
    | .ok () =>
      match t.probes.find? (probeKey h inputs) with
      | some found => (.ok found, t, s)
      | none =>
        match zeros h 0 inputs with
        | .error f => (.error f, t, s)
        | .ok tensors =>
          match prober tensors h s with
          | (.error f, s) => (.error f, t, s)
          | (.ok outs, s) =>
            let found := outs.map (·.descriptor)
            (.ok found, { t with probes := t.probes.store t.limit (probeKey h inputs) found }, s)
  | _, _ => (.error (untraceable h ""), t, s)

/-- Traces a handle, if there is one. -/
def trace (prober : Option (Prober σ)) (inputs : List Descriptor) (h : Option Handle) (s : σ) :
    Except Failure (List Descriptor) × Tracer × σ :=
  match h with
  | none => (.error Executor.noHandle, t, s)
  | some h =>
    match checkInputs h inputs with
    | .error f => (.error f, t, s)
    | .ok () =>
      if h.metadata.outputs.isEmpty then t.probe prober inputs h s
      else (resolveOutputs h inputs h.metadata.outputs, t, s)

end Tracer

end EngineHost
