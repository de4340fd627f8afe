import EngineHost.Proofs.BuiltEngine
import EngineHost.Tracer

/-!
# Tracing built handles

A descriptor abstracts a tensor if it has the tensor's element type, device and rank, and each of
its sizes is the tensor's or negative, which is to say left open (`Descriptor.Abstracts`). The
proofs here use one relation for both this and equality: `Descriptor.Describes vague` lets sizes be
left open only if `vague` holds, and every lemma is about whatever `vague` is.

Where a built handle ran on tensors, tracing it on descriptors of these tensors succeeds and
describes the outputs (`Tracer.trace_ran`). Two tables are compared along the layers: the shapes
that were inferred for the run, and the axes that the metadata was derived from. An axis stands for
a size if resolving it gives a description of that size (`Resolves`); that holds of the inputs,
where it is a matter of their profiles, and layers move axes as they move sizes.
-/

namespace EngineHost

/-! ### What descriptors say of tensors -/

/-- **A descriptor abstracts a tensor.** -/
structure Descriptor.Abstracts (d : Descriptor) (t : Tensor) : Prop where
  dtype : d.dtype = t.dtype
  device : d.device.same t.device = true
  shape : List.Forall₂ (fun dim size => dim < 0 ∨ dim = size) d.shape t.shape

/-- A size that is known, or one that is left open where that is allowed. -/
def DimDescribes (vague : Prop) (dim size : Int64) : Prop :=
  dim = size ∨ vague ∧ dim < 0

/-- A descriptor that says of a tensor what it is, sizes that are left open apart. -/
structure Descriptor.Describes (vague : Prop) (d : Descriptor) (t : Tensor) : Prop where
  dtype : d.dtype = t.dtype
  device : d.device.same t.device = true
  shape : List.Forall₂ (DimDescribes vague) d.shape t.shape

/-- A size that is known is the tensor's. -/
theorem DimDescribes.eq_of_nonneg {vague : Prop} {dim size : Int64}
    (h : DimDescribes vague dim size) (hdim : 0 ≤ dim) : dim = size :=
  h.resolve_right fun hopen => absurd hopen.2 (Int64.not_lt.mpr hdim)

namespace Descriptor

variable {d : Descriptor} {t : Tensor}

/-- Abstracting is describing with sizes left open. -/
theorem Abstracts.describes (h : d.Abstracts t) : d.Describes True t :=
  ⟨h.dtype, h.device, h.shape.imp fun _ _ hdim => hdim.symm.imp_right fun hopen => ⟨trivial, hopen⟩⟩

/-- Describing is abstracting, whether or not sizes may be left open. -/
theorem Describes.abstracts {vague : Prop} (h : d.Describes vague t) : d.Abstracts t :=
  ⟨h.dtype, h.device, h.shape.imp fun _ _ hdim => hdim.symm.imp_left And.right⟩

/-- Where every size is known, abstracting leaves nothing open. -/
theorem Abstracts.describes_static (h : d.Abstracts t) (hstatic : d.shape.isStatic = true) :
    d.Describes False t := by
  refine ⟨h.dtype, h.device, List.forall₂_iff_zip.mpr ⟨h.shape.length_eq, fun {dim size} hx => ?_⟩⟩
  have hdim : 0 ≤ dim := (Shape.isStatic_iff _).mp hstatic dim (List.of_mem_zip hx).1
  rcases (List.forall₂_iff_zip.mp h.shape).2 hx with hopen | hsame
  · exact absurd hopen (Int64.not_lt.mpr hdim)
  · exact .inl hsame

/-- Leaving nothing open is equality. -/
theorem Describes.same (h : d.Describes False t) : d.same t.descriptor = true := by
  have hshape : d.shape = t.shape :=
    List.forall₂_eq_eq_eq.le _ _ (h.shape.imp fun _ _ hdim => hdim.resolve_right And.left)
  rw [Descriptor.same, Bool.and_eq_true, Bool.and_eq_true]
  exact ⟨⟨decide_eq_true h.dtype, decide_eq_true hshape⟩, h.device⟩

end Descriptor

/-- Devices are the same if they are two names of one. -/
theorem Device.same_iff {d e : Device} : d.same e = true ↔ d.normalized = e.normalized := by
  rw [Device.same, decide_eq_true_eq]

theorem Device.same_trans {d e f : Device} (h : d.same e = true) (h' : e.same f = true) :
    d.same f = true :=
  same_iff.mpr ((same_iff.mp h).trans (same_iff.mp h'))

theorem Device.same_symm {d e : Device} (h : d.same e = true) : e.same d = true :=
  same_iff.mpr (same_iff.mp h).symm

/-! ### The checks on the inputs -/

/-- The spec that metadata has of an input. -/
def InputDraft.spec (i : InputDraft) : InputSpec :=
  { name := i.name.toText, dtype := .float32, min := i.min, max := i.max }

namespace Tracer

variable {vague : Prop} {h : Handle} {descs : List Descriptor} {inputs : List Tensor}

/-- Descriptions of tensors on the handle's device pass the check of devices. -/
theorem checkDevices_ok (hdescs : List.Forall₂ (Descriptor.Describes vague) descs inputs)
    (hdevices : ∀ t ∈ inputs, t.device.same h.device.device = true) (names : List String) :
    checkDevices h names descs = .ok () := by
  induction hdescs generalizing names with
  | nil => cases names <;> rfl
  | @cons d t _ _ hd _ ih =>
    rw [List.forall_mem_cons] at hdevices
    cases names with
    | nil => rfl
    | cons name more =>
      rw [checkDevices, if_pos (Device.same_trans hd.device hdevices.1)]
      exact ih hdevices.2 more

/-- A size that is known lies in every range that the tensor's lies in. -/
theorem outsideAxis_none {dims sizes lows highs : Shape} {axis axis' : Nat}
    (hdims : List.Forall₂ (DimDescribes vague) dims sizes)
    (hinside : PlanEngine.outsideAxis axis sizes lows highs = none) :
    outsideAxis axis' dims lows highs = none := by
  induction hdims generalizing lows highs axis axis' with
  | nil => rfl
  | @cons dim size _ _ hdim _ ih =>
    cases lows with
    | nil => rfl
    | cons low lows =>
      cases highs with
      | nil => rfl
      | cons high highs =>
        rw [PlanEngine.outsideAxis] at hinside
        split at hinside
        next hin =>
          rw [outsideAxis, if_neg]
          · exact ih hinside
          · -- Only sizes that are known are checked, and these are the tensor's.
            rintro ⟨hknown, hout⟩
            rw [hdim.eq_of_nonneg hknown, hin] at hout
            cases hout
        next => cases hinside

/-- A description of a tensor that an input accepts fits the spec of that input. -/
theorem inputProblem?_none {i : InputDraft} {d : Descriptor} {t : Tensor}
    (hd : d.Describes vague t) (haccepts : Accepts i.input t.shape) (hdtype : t.dtype = .float32) :
    inputProblem? i.spec d = none := by
  have hrank : d.shape.length = i.spec.low.length := hd.shape.length_eq.trans haccepts.rank
  have hinside : outsideAxis 0 d.shape i.spec.low i.spec.high = none :=
    outsideAxis_none hd.shape haccepts.inside
  have hkind : d.dtype = i.spec.dtype := hd.dtype.trans hdtype
  rw [inputProblem?, if_neg (not_not.mpr hkind), if_neg (not_not.mpr hrank)]
  exact Option.map_eq_none_iff.mpr hinside

/-- Descriptions of tensors that the inputs accept pass the check of specs. -/
theorem checkSpecs_ok {drafts : List InputDraft}
    (hdescs : List.Forall₂ (Descriptor.Describes vague) descs inputs)
    (haccepts : List.Forall₂ (fun i t => Accepts i.input t.shape ∧ t.dtype = .float32) drafts
      inputs)
    (names : List String) :
    checkSpecs h names (drafts.map InputDraft.spec) descs = .ok () := by
  induction hdescs generalizing drafts names with
  | nil =>
    cases haccepts
    cases names <;> rfl
  | cons hd _ ih =>
    cases haccepts with
    | cons haccept hrest =>
      cases names with
      | nil => rfl
      | cons name more =>
        rw [List.map_cons, checkSpecs, inputProblem?_none hd haccept.1 haccept.2]
        exact ih hrest more

/-- The inputs pass. -/
theorem checkInputs_ok {d : NetworkDraft} (hbuilt : h.BuiltFrom d) {outs : List Tensor}
    (hran : h.Ran d.network inputs outs)
    (hdescs : List.Forall₂ (Descriptor.Describes vague) descs inputs) :
    checkInputs h descs = .ok () := by
  obtain ⟨sizes, shapes, hinputs, -, -⟩ := hran.shown
  -- There is a tensor for each input of the network, and a name for each.
  have hlen : descs.length = h.inputNames.length := by
    rw [hdescs.length_eq, ← hinputs.length_eq, hbuilt.inputNames, List.length_map,
      Network.inputNames, List.length_map]
  have hspecs : h.metadata.inputs = d.inputs.map InputDraft.spec := by
    rw [hbuilt.metadata]
    rfl
  rw [checkInputs, if_neg (not_not.mpr hlen), checkDevices_ok hdescs hran.devices, hspecs]
  refine checkSpecs_ok hdescs ?_ h.inputNames
  rw [NetworkDraft.network, List.forall₂_map_left_iff] at hinputs
  exact hinputs.imp fun _ _ hi => hi.2

end Tracer

/-! ### Axes and the sizes they stand for -/

/-- An axis of an output stands for a size: resolving it gives a description of the size, whatever
output it is asked for. -/
def Resolves (vague : Prop) (h : Handle) (descs : List Descriptor) (dim : DimSpec) (size : Int64) :
    Prop :=
  ∃ n, (∀ output axis, Tracer.resolveDim h descs output axis dim = .ok n) ∧
    DimDescribes vague n size

section Resolves

variable {vague : Prop} {h : Handle} {descs : List Descriptor}

/-- A size of its own stands for itself. -/
theorem resolves_ofSize (n : Int64) : Resolves vague h descs (.ofSize n) n := by
  refine ⟨n, fun output axis => ?_, .inl rfl⟩
  have hstatic : (DimSpec.ofSize n : DimSpec).isStatic = true := decide_eq_true rfl
  rw [Tracer.resolveDim, if_pos hstatic]
  rfl

/-- A copied axis stands for whatever the description of the input says of it. -/
theorem resolves_ofInput {name : String} (hname : name ≠ "") {axis : Nat} (haxis : axis < 2 ^ 63)
    {d : Descriptor} (hd : descs[h.inputNames.idxOf name]? = some d) {n size : Int64}
    (hn : d.shape[axis]? = some n) (hsize : DimDescribes vague n size) :
    Resolves vague h descs (.ofInput name (Int64.ofNat axis)) size := by
  -- The axis is a number below 2 ^ 63, so it is not taken for a negative one.
  have hcopy : (DimSpec.ofInput name (Int64.ofNat axis)).isStatic = false := decide_eq_false hname
  have hnonneg : ¬(DimSpec.ofInput name (Int64.ofNat axis)).axis < 0 :=
    Int64.not_lt.mpr (Int64.le_iff_toInt_le.mpr (by
      change (0 : Int64).toInt ≤ (Int64.ofNat axis).toInt
      rw [Int64.toInt_ofNat_of_lt haxis]
      exact Int.natCast_nonneg axis))
  refine ⟨n, fun output i => ?_, hsize⟩
  rw [Tracer.resolveDim, hcopy, if_neg (by decide), if_neg hnonneg]
  simp only [DimSpec.ofInput, hd, Option.map_some, Option.getD_some,
    Int64.toNatClampNeg_ofNat_of_lt haxis, hn]

/-- A range that starts where it ends leaves one size. -/
theorem eq_of_inProfile {n size : Int64} (hn : 0 ≤ n) (h : inProfile n n size = true) :
    n = size := by
  simp only [inProfile, Bool.and_eq_true, Bool.not_eq_true', decide_eq_false_iff_not,
    Bool.and_eq_false_iff] at h
  obtain ⟨hlow, hhigh⟩ := h
  have hhigh : ¬n < size := hhigh.resolve_left fun hneg => hneg hn
  exact Int64.le_antisymm (Int64.not_lt.mp hlow) (Int64.not_lt.mp hhigh)

/-- The axes of an input stand for the sizes of a tensor that the input accepts: an axis that allows
one size only is that size, and any other is copied. The axes are taken from number `axis` on. -/
theorem resolves_inputDims {name : String} (hname : name ≠ "") {d : Descriptor}
    (hd : descs[h.inputNames.idxOf name]? = some d) {lows highs dims sizes : Shape} {axis : Nat}
    (hranges : List.Forall₂ SoundRange lows highs) (hbound : axis + lows.length ≤ 255)
    (hrank : sizes.length = lows.length) {first : Nat}
    (hinside : PlanEngine.outsideAxis first sizes lows highs = none)
    (hdims : List.Forall₂ (DimDescribes vague) dims sizes)
    (hget : ∀ k, d.shape[axis + k]? = dims[k]?) :
    List.Forall₂ (Resolves vague h descs)
      (((lows.zip highs).zipIdx axis).map fun ((low, high), axis) =>
        if low = high then .ofSize low else .ofInput name (Int64.ofNat axis)) sizes := by
  -- Ranges, sizes and descriptions go in step, and with them the number of the axis.
  induction hranges generalizing dims sizes axis first with
  | nil =>
    obtain rfl := List.length_eq_zero_iff.mp hrank
    exact .nil
  | @cons low high lows highs hrange _ ih =>
    cases hdims with
    | nil => cases hrank
    | @cons dim size dims sizes hdim hdims =>
      rw [PlanEngine.outsideAxis] at hinside
      split at hinside
      next hin =>
        rw [List.length_cons] at hbound hrank
        rw [List.zip_cons_cons, List.zipIdx_cons, List.map_cons]
        refine .cons ?_ (ih (by omega) (Nat.succ.inj hrank) hinside hdims fun k => ?_)
        · dsimp only
          split
          next heq =>
            -- The size is what the profile says, however vague the description.
            subst heq
            obtain rfl := eq_of_inProfile hrange.1 hin
            exact resolves_ofSize low
          next => exact resolves_ofInput hname (by omega) hd (hget 0) hdim
        · rw [Nat.add_assoc, Nat.add_comm 1 k]
          exact hget (k + 1)
      next => cases hinside

end Resolves

/-! ### Axes along the layers -/

section Layers

variable {R : α → Int64 → Prop} {xs : List α} {ys : Shape}

/-- Lists in step stay so without an entry. -/
theorem forall₂_eraseIdx (h : List.Forall₂ R xs ys) (k : Nat) :
    List.Forall₂ R (xs.eraseIdx k) (ys.eraseIdx k) := by
  induction h generalizing k with
  | nil => exact .nil
  | cons hxy hrest ih =>
    cases k with
    | zero => exact hrest
    | succ k => exact .cons hxy (ih k)

/-- Lists in step stay so with their last two entries exchanged. -/
theorem forall₂_swapLast (h : List.Forall₂ R xs ys) :
    List.Forall₂ R (swapLast xs) (swapLast ys) := by
  have hreverse := List.forall₂_reverse_iff.mpr h
  -- The exchange takes place at the front of the reversed lists.
  unfold swapLast
  generalize xs.reverse = xs' at hreverse
  generalize ys.reverse = ys' at hreverse
  cases hreverse with
  | nil => exact h
  | cons ha hmore =>
    cases hmore with
    | nil => exact h
    | cons hb hmore => exact List.forall₂_reverse_iff.mpr (.cons hb (.cons ha hmore))

/-- Axes move along a layer as sizes do. -/
theorem Layer.axes_follow {shapes : Bindings} {dims : List (Bytes × List α)}
    (hmatch : Matches (fun s ds => List.Forall₂ R ds s) shapes dims) {l : Layer} {s : Shape}
    (hshape : LayerShape shapes l s) :
    List.Forall₂ R (l.axes ((dims.lookup (l.operands.headD [])).getD [])) s := by
  -- By the shape rule, which says what the layer does to its first operand.
  cases hshape with
  | unary hop hfamily hargs ha =>
    obtain ⟨ds, hds, hR⟩ := hmatch.lookup ha
    rw [hargs, List.headD_cons, hds, Option.getD_some, Layer.axes, hop]
    rcases hfamily with rfl | rfl | rfl <;> exact hR
  | binary hop hfamily hargs ha =>
    -- Both operands have the shape, so the axes of the first one stand for it.
    obtain ⟨ds, hds, hR⟩ := hmatch.lookup ha
    rw [hargs, List.headD_cons, hds, Option.getD_some, Layer.axes, hop]
    rcases hfamily with rfl | rfl <;> exact hR
  | reduceSum hop hargs ha =>
    obtain ⟨ds, hds, hR⟩ := hmatch.lookup ha
    rw [hargs, List.headD_cons, hds, Option.getD_some, Layer.axes, hop]
    exact forall₂_eraseIdx hR _
  | transpose hop hargs ha =>
    obtain ⟨ds, hds, hR⟩ := hmatch.lookup ha
    rw [hargs, List.headD_cons, hds, Option.getD_some, Layer.axes, hop, ← swapLast_append_pair]
    exact forall₂_swapLast hR

/-- The axes of all values stand for the shapes of all values, if those of the inputs do. -/
theorem allDims_follow {layers : List Layer} {shapes final : Bindings}
    (hshaped : ShapedLayers shapes layers final) {dims : List (Bytes × List α)}
    (hmatch : Matches (fun s ds => List.Forall₂ R ds s) shapes dims) :
    Matches (fun s ds => List.Forall₂ R ds s) final (layers.foldl (fun dims l =>
      (l.output, l.axes ((dims.lookup (l.operands.headD [])).getD [])) :: dims) dims) := by
  induction hshaped generalizing dims with
  | nil => exact hmatch
  | cons _ hshape _ ih => exact ih (.cons ⟨rfl, Layer.axes_follow hmatch hshape⟩ hmatch)

end Layers

/-- A text is read back from its octets. -/
theorem Bytes.toText_ofText (s : String) : (Bytes.ofText s).toText = s := by
  rw [Bytes.toText, Bytes.toChars_ofText, String.ofList_toList]

/-! ### Tracing -/

section Trace

variable {vague : Prop} {h : Handle} {d : NetworkDraft} {descs : List Descriptor}
  {inputs outs : List Tensor}

/-- The axes of an input of a network that ran. -/
theorem Handle.BuiltFrom.resolves_input (hbuilt : h.BuiltFrom d)
    (hran : h.Ran d.network inputs outs)
    (hdescs : List.Forall₂ (Descriptor.Describes vague) descs inputs) {k : Nat} {i : NetworkInput}
    (hi : d.network.inputs[k]? = some i) {t : Tensor} (ht : inputs[k]? = some t)
    (haccepts : Accepts i t.shape) :
    List.Forall₂ (Resolves vague h descs) (Network.inputDims Bytes.toText i) t.shape := by
  obtain ⟨ranks, hsound⟩ := Network.sound_of_validate hbuilt.valid
  obtain ⟨-, -, hnames, -⟩ := h.checked
  obtain ⟨hnames, hnodup⟩ := Handle.checkNames_ok hnames
  have hmem := List.mem_of_getElem? hi
  obtain ⟨desc, hdesc, hdescribes⟩ := forall₂_getElem? hdescs.flip ht
  -- The handle has the input's name in the same place, as text.
  obtain ⟨name, hname, heq⟩ : ∃ name, h.inputNames[k]? = some name ∧
      Bytes.ofText name = i.name := by
    have hk : d.network.inputNames[k]? = some i.name := by
      rw [Network.inputNames, List.getElem?_map, hi]
      rfl
    rw [hran.inputNames, List.getElem?_map] at hk
    exact Option.map_eq_some_iff.mp hk
  -- Names differ, so the place of the name is the place it was found at.
  have hidx : h.inputNames.idxOf name = k := by
    obtain ⟨hlt, rfl⟩ := List.getElem?_eq_some_iff.mp hname
    exact hnodup.idxOf_getElem k hlt
  rw [Network.inputDims, ← heq, Bytes.toText_ofText]
  refine resolves_inputDims (hnames name (List.mem_of_getElem? hname)).1 (hidx ▸ hdesc)
    (hsound.inputs i hmem).ranges ?_ haccepts.rank haccepts.inside hdescribes.shape fun k => ?_
  · rw [Nat.zero_add]
    exact hbuilt.ranks i hmem
  · rw [Nat.zero_add]

/-- The axes in the metadata stand for the shapes of the run. -/
theorem Handle.BuiltFrom.resolves_outputs (hbuilt : h.BuiltFrom d)
    (hran : h.Ran d.network inputs outs)
    (hdescs : List.Forall₂ (Descriptor.Describes vague) descs inputs) :
    List.Forall₂ (fun name t =>
      List.Forall₂ (Resolves vague h descs)
        (((d.network.allDims Bytes.toText).lookup name).getD []) t.shape ∧
      t.dtype = .float32 ∧ t.device.same h.device.device = true) d.outputs outs := by
  obtain ⟨sizes, shapes, hinputs, hshaped, houts⟩ := hran.shown
  -- The tables match for the inputs, and the layers keep them so.
  have hmatch : Matches (fun s ds => List.Forall₂ (Resolves vague h descs) ds s) shapes
      (d.network.allDims Bytes.toText) := by
    refine allDims_follow hshaped (Network.matches_inputTable fun i hi => ?_)
    obtain ⟨k, hk⟩ := List.mem_iff_getElem?.mp hi
    obtain ⟨t, ht, hsize, haccepts, -⟩ := forall₂_getElem? hinputs hk
    rw [hsize]
    exact hbuilt.resolves_input hran hdescs hk ht haccepts
  refine houts.imp fun name t ⟨hshape, hrest⟩ => ⟨?_, hrest⟩
  obtain ⟨ds, hds, hresolves⟩ := hmatch.lookup hshape
  rwa [hds]

/-- All axes of an output. -/
theorem Tracer.resolveDims_ok {dims : List DimSpec} {sizes : Shape}
    (hdims : List.Forall₂ (Resolves vague h descs) dims sizes) (output : String) (axis : Nat) :
    ∃ found, resolveDims h descs output axis dims = .ok found ∧
      List.Forall₂ (DimDescribes vague) found sizes := by
  induction hdims generalizing axis with
  | nil => exact ⟨[], rfl, .nil⟩
  | cons hdim _ ih =>
    obtain ⟨n, hn, hdescribes⟩ := hdim
    obtain ⟨found, hfound, hrest⟩ := ih (axis + 1)
    refine ⟨n :: found, ?_, .cons hdescribes hrest⟩
    rw [resolveDims, hn, hfound]
    rfl

/-- The spec that a handle keeps of an output with given axes. -/
def keptSpec (axes : Bytes → List DimSpec) (name : Bytes) : OutputSpec :=
  { name := name.toText, dtype := .float32,
    shape := if some (axes name) = some [] then none else some (axes name) }

/-- No axes are kept as none, which is read as no axes. -/
theorem keptSpec_shape (axes : Bytes → List DimSpec) (name : Bytes) :
    (keptSpec axes name).shape.getD [] = axes name := by
  unfold keptSpec
  dsimp only
  split <;> simp_all

/-- All outputs. -/
theorem Tracer.resolveOutputs_ok {names : List Bytes} {axes : Bytes → List DimSpec}
    (houts : List.Forall₂ (fun name t =>
      List.Forall₂ (Resolves vague h descs) (axes name) t.shape ∧ t.dtype = .float32 ∧
        t.device.same h.device.device = true) names outs) :
    ∃ found, resolveOutputs h descs (names.map (keptSpec axes)) = .ok found ∧
      List.Forall₂ (Descriptor.Describes vague) found outs := by
  induction houts with
  | nil => exact ⟨[], rfl, .nil⟩
  | @cons name t _ _ hout _ ih =>
    obtain ⟨hresolves, hdtype, hdevice⟩ := hout
    obtain ⟨shape, hshape, hdescribes⟩ := resolveDims_ok hresolves name.toText 0
    obtain ⟨found, hfound, hrest⟩ := ih
    refine ⟨⟨.float32, shape, h.device.device⟩ :: found, ?_,
      .cons ⟨hdtype.symm, Device.same_symm hdevice, hdescribes⟩ hrest⟩
    rw [List.map_cons, resolveOutputs, keptSpec_shape, hfound]
    change (resolveDims h descs name.toText 0 (axes name) >>= _) = _
    rw [hshape]
    rfl

/-- **Tracing a handle that ran**: it succeeds, and describes what came out. -/
theorem Tracer.trace_ran (hbuilt : h.BuiltFrom d) (hran : h.Ran d.network inputs outs)
    (hdescs : List.Forall₂ (Descriptor.Describes vague) descs inputs) :
    ∃ found, List.Forall₂ (Descriptor.Describes vague) found outs ∧
      ∀ {σ : Type} (t : Tracer) (prober : Option (Prober σ)) (s : σ),
        t.trace prober descs (some h) s = (.ok found, t, s) := by
  obtain ⟨found, hfound, hdescribes⟩ := resolveOutputs_ok (hbuilt.resolves_outputs hran hdescs)
  -- The metadata was derived from the network, so its specs are those of the axes.
  have hspecs : h.metadata.outputs =
      d.outputs.map
        (keptSpec fun name => ((d.network.allDims Bytes.toText).lookup name).getD []) := by
    rw [hbuilt.metadata]
    exact List.map_map
  obtain ⟨ranks, hsound⟩ := Network.sound_of_validate hbuilt.valid
  have hne : ¬h.metadata.outputs.isEmpty = true := by
    rw [hspecs, List.isEmpty_iff, List.map_eq_nil_iff]
    exact hsound.outputs_ne_nil
  -- There is metadata for the outputs, so nothing is probed.
  refine ⟨found, hdescribes, fun t prober s => ?_⟩
  rw [trace, checkInputs_ok hbuilt hran hdescs]
  dsimp only
  rw [if_neg hne, hspecs, hfound]

end Trace

end EngineHost
