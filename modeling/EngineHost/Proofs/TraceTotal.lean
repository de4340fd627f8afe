import EngineHost.Proofs.BuiltEngine
import EngineHost.Proofs.HandleSound
import EngineHost.Tracer

/-!
# Tracing with metadata on both sides

A handle that speaks of its inputs and of its outputs is traced from its metadata alone. The checks
that made it a handle leave the tracer one thing to find out: whether each input fits its spec
(`InputSpec.Fits`). If all do, every copied axis is there to be copied and tracing succeeds
(`Tracer.resolveOutputs_resolved`); if one does not, the first of them is what tracing fails for
(`Tracer.checkSpecs_first`). Both are put together in `Tracer.trace_total`.

Three facts about the same list of inputs meet here. The specs stand in the order of the binding
names, so the place of a name is the place of its spec and of its descriptor; names differ, so the
spec that the checks looked up by name is that one; and a descriptor that fits has the rank of its
spec, so an axis below that rank is an axis of the descriptor (`Handle.copied_axis`).
-/

namespace EngineHost

/-! ### What is asked of an input -/

/-- **A descriptor fits a spec**: it has the element type and the rank, and each size that is known
lies in the range of its axis. -/
structure InputSpec.Fits (spec : InputSpec) (d : Descriptor) : Prop where
  dtype : d.dtype = spec.dtype
  rank : d.shape.length = spec.low.length
  sizes : ∀ (axis : Nat) (dim low high : Int64), d.shape[axis]? = some dim →
    spec.low[axis]? = some low → spec.high[axis]? = some high → 0 ≤ dim →
    low ≤ dim ∧ (0 ≤ high → dim ≤ high)

/-- What a range asks of a size. -/
theorem inProfile_iff {low high dim : Int64} :
    inProfile low high dim = true ↔ low ≤ dim ∧ (0 ≤ high → dim ≤ high) := by
  simp only [inProfile, Bool.and_eq_true, Bool.not_eq_true', decide_eq_false_iff_not,
    Bool.and_eq_false_imp, decide_eq_true_eq, Int64.not_lt]

namespace Tracer

/-- No axis is outside exactly if every known size is in the range of its axis. -/
theorem outsideAxis_eq_none_iff {axis : Nat} {dims lows highs : Shape} :
    outsideAxis axis dims lows highs = none ↔
      ∀ (k : Nat) (dim low high : Int64), dims[k]? = some dim → lows[k]? = some low →
        highs[k]? = some high → 0 ≤ dim → low ≤ dim ∧ (0 ≤ high → dim ≤ high) := by
  induction dims generalizing axis lows highs with
  | nil => exact ⟨fun _ k dim low high hdim => by simp at hdim, fun _ => rfl⟩
  | cons d dims ih =>
    cases lows with
    | nil => exact ⟨fun _ k dim low high _ hlow => by simp at hlow, fun _ => rfl⟩
    | cons l lows =>
      cases highs with
      | nil => exact ⟨fun _ k dim low high _ _ hhigh => by simp at hhigh, fun _ => rfl⟩
      | cons u highs =>
        rw [outsideAxis]
        split
        next hout =>
          refine ⟨(by cases ·), fun hall => ?_⟩
          have hin := inProfile_iff.mpr (hall 0 d l u rfl rfl rfl hout.1)
          rw [hin] at hout
          exact absurd hout.2 (by simp)
        next hin =>
          rw [ih]
          constructor
          · -- The first axis was looked at here, the others by the rest of the loop.
            intro hrest k dim low high hdim hlow hhigh hknown
            cases k with
            | zero =>
              cases hdim
              cases hlow
              cases hhigh
              exact inProfile_iff.mp (by simpa [hknown] using hin)
            | succ k => exact hrest k dim low high hdim hlow hhigh hknown
          · exact fun hall k => hall (k + 1)

/-- There is no problem with an input exactly if it fits. -/
theorem inputProblem?_eq_none_iff {spec : InputSpec} {d : Descriptor} :
    inputProblem? spec d = none ↔ spec.Fits d := by
  unfold inputProblem?
  split
  next hdtype => exact ⟨(by cases ·), fun h => absurd h.dtype hdtype⟩
  next hdtype =>
  split
  next hrank => exact ⟨(by cases ·), fun h => absurd h.rank hrank⟩
  next hrank =>
    rw [Option.map_eq_none_iff, outsideAxis_eq_none_iff]
    exact ⟨fun h => ⟨not_not.mp hdtype, not_not.mp hrank, h⟩, fun h => h.sizes⟩

end Tracer

/-- Input `i` does not fit its spec. -/
def Handle.Misfits (h : Handle) (inputs : List Descriptor) (i : Nat) : Prop :=
  ∃ spec d, h.metadata.inputs[i]? = some spec ∧ inputs[i]? = some d ∧ ¬spec.Fits d

namespace Tracer

variable {h : Handle} {inputs : List Descriptor}

/-- Descriptors on the handle's device pass the check of devices. -/
theorem checkDevices_eq_ok (hdevices : ∀ d ∈ inputs, d.device.same h.device.device = true)
    (names : List String) : checkDevices h names inputs = .ok () := by
  induction inputs generalizing names with
  | nil => cases names <;> rfl
  | cons d more ih =>
    rw [List.forall_mem_cons] at hdevices
    cases names with
    | nil => rfl
    | cons name names =>
      rw [checkDevices, if_pos hdevices.1]
      exact ih hdevices.2 names

/-- Descriptors that fit pass the check of specs. -/
theorem checkSpecs_of_fits {specs : List InputSpec}
    (hfits : List.Forall₂ InputSpec.Fits specs inputs)
    (names : List String) : checkSpecs h names specs inputs = .ok () := by
  induction hfits generalizing names with
  | nil => cases names <;> rfl
  | cons hfit _ ih =>
    cases names with
    | nil => rfl
    | cons name names =>
      rw [checkSpecs, inputProblem?_eq_none_iff.mpr hfit]
      exact ih names

/-- The first input that does not fit is the one that the check fails for. -/
theorem checkSpecs_first {names : List String} {specs : List InputSpec} {i : Nat} {name : String}
    {spec : InputSpec} {d : Descriptor} (hname : names[i]? = some name)
    (hspec : specs[i]? = some spec) (hd : inputs[i]? = some d) (hmisfit : ¬spec.Fits d)
    (hbefore : ∀ j < i, ∀ spec d, specs[j]? = some spec → inputs[j]? = some d → spec.Fits d) :
    ∃ reason, checkSpecs h names specs inputs = .error (.shapeBinding
      { engine := h.name, input := .ofText name, shape := d.shape.stated?, min := spec.min,
        max := spec.max, reason }) := by
  -- On the place of the input: the loop is at it, or the input in front fits and is passed over.
  induction i generalizing names specs inputs with
  | zero =>
    cases names with
    | nil => cases hname
    | cons name names =>
    cases specs with
    | nil => cases hspec
    | cons spec specs =>
    cases inputs with
    | nil => cases hd
    | cons d inputs =>
      cases hname
      cases hspec
      cases hd
      obtain ⟨reason, hreason⟩ :=
        Option.ne_none_iff_exists'.mp (mt inputProblem?_eq_none_iff.mp hmisfit)
      refine ⟨reason, ?_⟩
      rw [checkSpecs, hreason]
  | succ i ih =>
    cases names with
    | nil => cases hname
    | cons name names =>
    cases specs with
    | nil => cases hspec
    | cons spec specs =>
    cases inputs with
    | nil => cases hd
    | cons d inputs =>
      have hfit : spec.Fits d := hbefore 0 (Nat.succ_pos i) spec d rfl rfl
      rw [checkSpecs, inputProblem?_eq_none_iff.mpr hfit]
      exact ih hname hspec hd fun j hj => hbefore (j + 1) (Nat.succ_lt_succ hj)

end Tracer

/-! ### What is given for an output -/

/-- The size that an axis of an output has: its own, or that of the axis it copies. -/
inductive DimSpec.Sizes (h : Handle) (inputs : List Descriptor) (dim : DimSpec) : Int64 → Prop
  | static (hstatic : dim.isStatic = true) : DimSpec.Sizes h inputs dim dim.static
  | copied {i : Nat} {d : Descriptor} {size : Int64} (hcopied : dim.isStatic = false)
      (hinput : h.inputNames[i]? = some dim.input) (hd : inputs[i]? = some d) (haxis : 0 ≤ dim.axis)
      (hsize : d.shape[dim.axis.toNatClampNeg]? = some size) : DimSpec.Sizes h inputs dim size

/-- **What is given for an output**: a descriptor of the spec's element type on the handle's device,
with an axis for each axis of the spec. -/
structure OutputSpec.Resolved (h : Handle) (inputs : List Descriptor) (spec : OutputSpec)
    (out : Descriptor) : Prop where
  dtype : out.dtype = spec.dtype
  rank : out.shape.length = (spec.shape.getD []).length
  device : out.device = h.device.device
  sizes : List.Forall₂ (DimSpec.Sizes h inputs) (spec.shape.getD []) out.shape

section Resolving

variable {h : Handle} {inputs : List Descriptor}

/-- An axis that is copied is there, at the place of the name it is copied from. -/
theorem Handle.copied_axis (hgiven : h.metadata.inputs ≠ [])
    (hfits : List.Forall₂ InputSpec.Fits h.metadata.inputs inputs) {dim : DimSpec}
    (hdim : dim.Sound h.metadata h.inputNames) (hcopied : dim.isStatic = false) :
    0 ≤ dim.axis ∧ h.inputNames[h.inputNames.idxOf dim.input]? = some dim.input ∧
      ∃ d size, inputs[h.inputNames.idxOf dim.input]? = some d ∧
        d.shape[dim.axis.toNatClampNeg]? = some size := by
  -- A copied axis is not negative, names an input, and is below the rank of that input's spec.
  obtain ⟨haxis, hmem, hrank⟩ := hdim.resolve_left (by simp [hcopied])
  have hspecs := h.sound.metadata.inputs hgiven
  have hplace : h.inputNames[h.inputNames.idxOf dim.input]? = some dim.input := by
    rw [List.getElem?_eq_getElem (List.idxOf_lt_length_of_mem hmem), List.getElem_idxOf]
  obtain ⟨spec, hspec, hsound⟩ := forall₂_getElem? hspecs.flip hplace
  obtain ⟨d, hd, hfit⟩ := forall₂_getElem? hfits hspec
  -- The names of the specs are the binding names, so the check has found this very spec.
  have hnames : h.metadata.inputs.map (·.name) = h.inputNames := by
    rw [← List.forall₂_eq_eq_eq, List.forall₂_map_left_iff]
    exact hspecs.imp fun _ _ hs => hs.name_eq
  have hfound : h.metadata.input? dim.input = some spec := by
    rw [← hsound.name_eq]
    exact find?_of_nodup_map (hnames ▸ h.sound.inputs.nodup) (List.mem_of_getElem? hspec)
  have hlt : dim.axis.toNatClampNeg < d.shape.length := by
    rw [hfit.rank]
    exact hrank spec hfound
  exact ⟨haxis, hplace, d, _, hd, List.getElem?_eq_getElem hlt⟩

namespace Tracer

/-- An axis of an output is given where the inputs fit. -/
theorem resolveDim_resolved (hgiven : h.metadata.inputs ≠ [])
    (hfits : List.Forall₂ InputSpec.Fits h.metadata.inputs inputs) {dim : DimSpec}
    (hdim : dim.Sound h.metadata h.inputNames) (output : String) (axis : Nat) :
    ∃ size, resolveDim h inputs output axis dim = .ok size ∧ dim.Sizes h inputs size := by
  unfold resolveDim
  split
  next hstatic => exact ⟨_, rfl, .static hstatic⟩
  next hcopied =>
    have hcopied : dim.isStatic = false := by simpa using hcopied
    obtain ⟨haxis, hplace, d, size, hd, hsize⟩ := Handle.copied_axis hgiven hfits hdim hcopied
    -- The two failures of a copied axis ask for one that is negative or not there.
    refine ⟨size, ?_, .copied hcopied hplace hd haxis hsize⟩
    rw [if_neg (Int64.not_lt.mpr haxis)]
    simp only [hd, Option.map_some, Option.getD_some, hsize]

/-- All axes of an output. -/
theorem resolveDims_resolved (hgiven : h.metadata.inputs ≠ [])
    (hfits : List.Forall₂ InputSpec.Fits h.metadata.inputs inputs) {dims : List DimSpec}
    (hdims : ∀ dim ∈ dims, dim.Sound h.metadata h.inputNames) (output : String) (axis : Nat) :
    ∃ shape, resolveDims h inputs output axis dims = .ok shape ∧
      List.Forall₂ (DimSpec.Sizes h inputs) dims shape := by
  induction dims generalizing axis with
  | nil => exact ⟨[], rfl, .nil⟩
  | cons dim more ih =>
    rw [List.forall_mem_cons] at hdims
    obtain ⟨size, hsize, hsizes⟩ := resolveDim_resolved hgiven hfits hdims.1 output axis
    obtain ⟨shape, hshape, hrest⟩ := ih hdims.2 (axis + 1)
    refine ⟨size :: shape, ?_, .cons hsizes hrest⟩
    rw [resolveDims, hsize, hshape]
    rfl

/-- Where every input fits, every output is given. -/
theorem resolveOutputs_resolved (hgiven : h.metadata.inputs ≠ [])
    (hfits : List.Forall₂ InputSpec.Fits h.metadata.inputs inputs) {specs : List OutputSpec}
    {names : List String}
    (hspecs : List.Forall₂ (OutputSpec.Sound h.metadata h.inputNames) specs names) :
    ∃ outs, resolveOutputs h inputs specs = .ok outs ∧
      List.Forall₂ (OutputSpec.Resolved h inputs) specs outs := by
  induction hspecs with
  | nil => exact ⟨[], rfl, .nil⟩
  | @cons spec _ specs _ hspec _ ih =>
    obtain ⟨shape, hshape, hsizes⟩ := resolveDims_resolved hgiven hfits hspec.dims spec.name 0
    obtain ⟨outs, houts, hrest⟩ := ih
    refine ⟨⟨spec.dtype, shape, h.device.device⟩ :: outs, ?_,
      .cons ⟨rfl, hsizes.length_eq.symm, rfl, hsizes⟩ hrest⟩
    rw [resolveOutputs, hshape, houts]
    rfl

end Tracer

end Resolving

/-! ### Tracing -/

/-- **What tracing answers**: a failure exactly if some input does not fit, and then the first of
them is told with its profile; otherwise one descriptor for each output name, in the handle's
order. -/
structure Handle.Answers (h : Handle) (inputs : List Descriptor)
    (answer : Except Failure (List Descriptor)) : Prop where
  fails_iff : (∃ f, answer = .error f) ↔ ∃ i, h.Misfits inputs i
  first : ∀ i, h.Misfits inputs i → (∀ j < i, ¬h.Misfits inputs j) → ∃ name spec d reason,
    h.inputNames[i]? = some name ∧ h.metadata.inputs[i]? = some spec ∧ inputs[i]? = some d ∧
      answer = .error (.shapeBinding
        { engine := h.name, input := .ofText name, shape := d.shape.stated?, min := spec.min,
          max := spec.max, reason })
  outputs : ∀ outs, answer = .ok outs → outs.length = h.outputNames.length ∧
    ∀ (i : Nat) (name : String), h.outputNames[i]? = some name →
      ∃ (spec : OutputSpec) (out : Descriptor), h.metadata.outputs[i]? = some spec ∧
        outs[i]? = some out ∧ spec.name = name ∧ spec.Resolved h inputs out

namespace Tracer

variable {h : Handle} {inputs : List Descriptor}

/-- Over lists of one length, all inputs fit or one of them does not. -/
theorem fits_iff (hlen : h.metadata.inputs.length = inputs.length) :
    List.Forall₂ InputSpec.Fits h.metadata.inputs inputs ↔ ∀ i, ¬h.Misfits inputs i := by
  constructor
  · rintro hfits i ⟨spec, d, hspec, hd, hmisfit⟩
    obtain ⟨e, he, hfit⟩ := forall₂_getElem? hfits hspec
    obtain rfl : d = e := Option.some.inj (hd.symm.trans he)
    exact hmisfit hfit
  · intro hall
    refine List.forall₂_iff_get.mpr ⟨hlen, fun i hi hi' => ?_⟩
    by_contra hmisfit
    exact hall i ⟨_, _, List.getElem?_eq_getElem hi, List.getElem?_eq_getElem hi', hmisfit⟩

/-- What a handle with metadata on both sides is traced to. -/
def answer (h : Handle) (inputs : List Descriptor) : Except Failure (List Descriptor) :=
  (checkInputs h inputs).bind fun _ => resolveOutputs h inputs h.metadata.outputs

section Answer

variable (hin : h.metadata.inputs ≠ []) (hout : h.metadata.outputs ≠ [])
  (hlen : inputs.length = h.inputNames.length)
  (hdevices : ∀ d ∈ inputs, d.device.same h.device.device = true)

include hlen hdevices in
/-- Where number and devices are right, the specs are all that is checked. -/
theorem checkInputs_eq_checkSpecs :
    checkInputs h inputs = checkSpecs h h.inputNames h.metadata.inputs inputs := by
  rw [checkInputs, if_neg (not_not.mpr hlen), checkDevices_eq_ok hdevices]
  rfl

include hin hlen in
/-- There are as many specs as inputs. -/
theorem length_specs : h.metadata.inputs.length = inputs.length :=
  (h.sound.metadata.inputs hin).length_eq.trans hlen.symm

include hin hlen hdevices

/-- The first input that does not fit is the one that the inputs are refused for. -/
theorem checkInputs_first {i : Nat} (hmisfit : h.Misfits inputs i)
    (hbefore : ∀ j < i, ¬h.Misfits inputs j) : ∃ name spec d reason,
      h.inputNames[i]? = some name ∧ h.metadata.inputs[i]? = some spec ∧ inputs[i]? = some d ∧
        checkInputs h inputs = .error (.shapeBinding
          { engine := h.name, input := .ofText name, shape := d.shape.stated?, min := spec.min,
            max := spec.max, reason }) := by
  obtain ⟨spec, d, hspec, hd, hmisfit⟩ := hmisfit
  obtain ⟨name, hname, -⟩ := forall₂_getElem? (h.sound.metadata.inputs hin) hspec
  obtain ⟨reason, hreason⟩ := checkSpecs_first hname hspec hd hmisfit
    fun j hj spec d hspec hd => by_contra fun hno => hbefore j hj ⟨spec, d, hspec, hd, hno⟩
  exact ⟨name, spec, d, reason, hname, hspec, hd,
    (checkInputs_eq_checkSpecs hlen hdevices).trans hreason⟩

/-- Inputs pass exactly if all of them fit. -/
theorem checkInputs_eq_ok_iff : checkInputs h inputs = .ok () ↔ ∀ i, ¬h.Misfits inputs i := by
  constructor
  · intro hpassed
    classical
    -- Of the inputs that do not fit there is a first, which the check would have failed for.
    by_contra hmisfit
    have hmisfit : ∃ i, h.Misfits inputs i := by simpa using hmisfit
    obtain ⟨name, spec, d, reason, -, -, -, hfails⟩ := checkInputs_first hin hlen hdevices
      (Nat.find_spec hmisfit) fun j hj => Nat.find_min hmisfit hj
    rw [hpassed] at hfails
    cases hfails
  · intro hfits
    rw [checkInputs_eq_checkSpecs hlen hdevices]
    exact checkSpecs_of_fits ((fits_iff (length_specs hin hlen)).mpr hfits) h.inputNames

include hout

/-- Inputs that have passed leave nothing to fail for. -/
theorem answer_of_passed (hpassed : checkInputs h inputs = .ok ()) :
    ∃ outs, resolveOutputs h inputs h.metadata.outputs = .ok outs ∧
      answer h inputs = .ok outs ∧
      List.Forall₂ (OutputSpec.Resolved h inputs) h.metadata.outputs outs := by
  have hfits := (checkInputs_eq_ok_iff hin hlen hdevices).mp hpassed
  obtain ⟨outs, houts, hresolved⟩ := resolveOutputs_resolved hin
    ((fits_iff (length_specs hin hlen)).mpr hfits) (h.sound.metadata.outputs hout)
  refine ⟨outs, houts, ?_, hresolved⟩
  rw [answer, hpassed]
  exact houts

/-- **What a handle with metadata on both sides is traced to.** -/
theorem answers : h.Answers inputs (answer h inputs) := by
  have houtputs := h.sound.metadata.outputs hout
  have hpassed := checkInputs_eq_ok_iff hin hlen hdevices
  -- The answer is a failure where the inputs are refused, and nowhere else.
  have hrefused {f : Failure} (hf : checkInputs h inputs = .error f) :
      answer h inputs = .error f := by
    rw [answer, hf]
    rfl
  have hok (outs : List Descriptor) (houts : answer h inputs = .ok outs) :
      checkInputs h inputs = .ok () := by
    rcases hcheck : checkInputs h inputs with f | ⟨⟩
    · rw [hrefused hcheck] at houts
      cases houts
    · rfl
  constructor
  · rw [← not_iff_not, not_exists, not_exists, ← hpassed]
    constructor
    · intro hnever
      rcases hcheck : checkInputs h inputs with f | ⟨⟩
      · exact absurd (hrefused hcheck) (hnever f)
      · rfl
    · intro hcheck f hf
      obtain ⟨outs, -, houts, -⟩ := answer_of_passed hin hout hlen hdevices hcheck
      rw [houts] at hf
      cases hf
  · intro i hmisfit hbefore
    obtain ⟨name, spec, d, reason, hname, hspec, hd, hf⟩ :=
      checkInputs_first hin hlen hdevices hmisfit hbefore
    exact ⟨name, spec, d, reason, hname, hspec, hd, hrefused hf⟩
  · intro outs houts
    obtain ⟨found, -, hfound, hresolved⟩ :=
      answer_of_passed hin hout hlen hdevices (hok outs houts)
    obtain rfl : found = outs := Except.ok.inj (hfound.symm.trans houts)
    refine ⟨hresolved.length_eq.symm.trans houtputs.length_eq, fun i name hname => ?_⟩
    -- The place of the name is the place of its spec, and of what the spec was resolved to.
    obtain ⟨spec, hspec, hsound⟩ := forall₂_getElem? houtputs.flip hname
    obtain ⟨out, hget, hout⟩ := forall₂_getElem? hresolved hspec
    exact ⟨spec, out, hspec, hget, hsound.name_eq, hout⟩

end Answer

/-- **Checked metadata makes tracing total.** A handle that speaks of its inputs and of its outputs
is traced on descriptors of the right number on its device. There is a spec for each of them, with a
range for each of its axes; once the inputs have passed, the outputs are resolved without a failure;
and tracing gives `Handle.Answers` whatever the tracer has kept and whoever would run probes for it,
and leaves both as they are. -/
theorem trace_total (h : Handle) (hin : h.metadata.inputs ≠ []) (hout : h.metadata.outputs ≠ [])
    {inputs : List Descriptor} (hlen : inputs.length = h.inputNames.length)
    (hdevices : ∀ d ∈ inputs, d.device.same h.device.device = true) :
    (h.metadata.inputs.length = inputs.length ∧
        ∀ spec ∈ h.metadata.inputs, spec.low.length = spec.high.length) ∧
      (checkInputs h inputs = .ok () →
        ∃ outs, resolveOutputs h inputs h.metadata.outputs = .ok outs) ∧
      ∃ answer, h.Answers inputs answer ∧ ∀ {σ : Type} (t : Tracer) (prober : Option (Prober σ))
        (s : σ), t.trace prober inputs (some h) s = (answer, t, s) := by
  refine ⟨⟨length_specs hin hlen, fun spec hspec => ?_⟩, fun hpassed => ?_,
    answer h inputs, answers hin hout hlen hdevices, fun t prober s => ?_⟩
  · -- Sound specs have ranges for each axis.
    obtain ⟨i, hi⟩ := List.mem_iff_getElem?.mp hspec
    obtain ⟨name, -, hsound⟩ := forall₂_getElem? (h.sound.metadata.inputs hin) hi
    exact hsound.ranges.length_eq
  · obtain ⟨outs, houts, -, -⟩ := answer_of_passed hin hout hlen hdevices hpassed
    exact ⟨outs, houts⟩
  · have hsaid : ¬h.metadata.outputs.isEmpty = true := mt List.isEmpty_iff.mp hout
    -- There is metadata for the outputs, so nothing is probed.
    unfold trace answer
    dsimp only
    split
    next f hf => rw [hf]; rfl
    next hok =>
      rw [if_neg hsaid, hok]
      rfl

/-- Parts whose output copies the open axis of the first input; the second input takes one size. -/
def copyingParts : HandleParts where
  name := "copying"
  device := ⟨.cpu, "cpu/generic"⟩
  engine := [1]
  inputNames := ["a", "b"]
  outputNames := ["y"]
  metadata :=
    { inputs := [
        { name := "a", dtype := .float32, min := some [1, 0], max := some [4, -1] },
        { name := "b", dtype := ElementKind.int64.dtype, min := some [2], max := some [2] }]
      outputs := [
        { name := "y", dtype := ElementKind.float16.dtype
          shape := some [.ofInput "a" 1, .ofSize 7] }] }

/-- A first input with an open size, which fits, and a second one that is too large. -/
def oversized : List Descriptor :=
  [⟨.float32, [2, -1], .cpu⟩, ⟨ElementKind.int64.dtype, [3], ⟨"", 0⟩⟩]

theorem trace_total_copying : ∃ h, Handle.make copyingParts = .ok h ∧ h.metadata.inputs ≠ [] ∧
    h.metadata.outputs ≠ [] ∧ oversized.length = h.inputNames.length ∧
    (∀ d ∈ oversized, d.device.same h.device.device = true) ∧
    ∃ b, b.engine = "copying" ∧ b.input = .ofText "b" ∧ b.max = some [2] ∧
      ∀ (t : Tracer) (prober : Option (Prober Nat)) (s : Nat),
        t.trace prober oversized (some h) s = (.error (.shapeBinding b), t, s) := by
  have hsome : (Handle.make copyingParts).toOption.isSome = true := by decide +kernel
  obtain ⟨h, hmake⟩ : ∃ h, Handle.make copyingParts = .ok h := ⟨_, eq_ok_get hsome⟩
  have hparts : h.toHandleParts = copyingParts.withDefaults := Handle.toHandleParts_of_make hmake
  have hspecs : h.metadata.inputs = copyingParts.metadata.inputs := by
    rw [hparts]
    rfl
  have hnames : h.inputNames = ["a", "b"] := by
    rw [hparts]
    rfl
  have hdevices : ∀ d ∈ oversized, d.device.same h.device.device = true := by
    rw [hparts]
    decide
  have hin : h.metadata.inputs ≠ [] := by simp [hspecs, copyingParts]
  have hout : h.metadata.outputs ≠ [] := by
    rw [hparts]
    decide
  have hlen : oversized.length = h.inputNames.length := by simp [hnames, oversized]
  obtain ⟨-, -, answer, hanswers, htrace⟩ := trace_total h hin hout hlen hdevices
  -- Three is more than two; the open size of the first input is no size to look at.
  have hmisfit : h.Misfits oversized 1 := by
    refine ⟨_, _, by rw [hspecs]; rfl, rfl, fun hfit => ?_⟩
    exact absurd ((hfit.sizes 0 3 2 2 rfl rfl rfl (by decide)).2 (by decide)) (by decide)
  have hbefore : ∀ j < 1, ¬h.Misfits oversized j := by
    intro j hj
    obtain rfl : j = 0 := by omega
    rintro ⟨spec, d, hspec, hd, hno⟩
    rw [hspecs] at hspec
    cases hspec
    cases hd
    exact hno (inputProblem?_eq_none_iff.mp (by decide))
  obtain ⟨name, spec, d, reason, hname, hspec, -, hfails⟩ := hanswers.first 1 hmisfit hbefore
  rw [hnames] at hname
  rw [hspecs] at hspec
  cases hname
  cases hspec
  have hname : h.name = "copying" := by
    rw [hparts]
    rfl
  refine ⟨h, hmake, hin, hout, hlen, hdevices,
    ⟨h.name, .ofText "b", d.shape.stated?, some [2], some [2], reason⟩, hname, rfl, rfl, ?_⟩
  intro t prober s
  rw [htrace, hfails]

end Tracer

end EngineHost
