import EngineHost.Handle.Basic
import EngineHost.Proofs.NetworkSound

/-!
# Sound handles

`HandleParts.validate` is the one gate that every handle has passed, and `Metadata.validate` is its
longest part. Here it is said what passing means, without the order of the checks and without their
refusals:

* `BindingNames` — names that are given, free of the delimiter and all different;
* `InputSpec.Sound`, `DimSpec.Sound`, `OutputSpec.Sound` — what metadata may say of one input, of
  one axis of an output and of one output;
* `Metadata.Sound`, `HandleParts.Sound` — all of it together.

Each check accepts exactly what is sound (`Metadata.validate_eq_ok_iff`,
`HandleParts.validate_eq_ok_iff`). One direction is what everything proved about handles starts from
(`Handle.sound`); the other says of parts that were put together elsewhere that they make a handle.
-/

namespace EngineHost

/-! ### Binding names -/

theorem Text.hasChar_eq_false_iff {c : Char} {s : String} :
    Text.hasChar c s = false ↔ c ∉ s.toList := by
  rw [Text.hasChar, ← Bool.not_eq_true, List.contains_iff_mem]

section

variable {ν : Type} [DecidableEq ν] [BindingName ν]

/-- Names that bindings may have. -/
structure BindingNames (names : List ν) : Prop where
  named : ∀ n ∈ names, n ≠ BindingName.empty
  free : ∀ n ∈ names, BindingName.hasDelim n = false
  nodup : names.Nodup

/-- The loop over the names, behind names that were seen. -/
theorem HandleParts.checkNames_seen_iff {slot : Slot} {seen names : List ν} :
    checkNames slot seen names = .ok () ↔ BindingNames names ∧ ∀ n ∈ names, n ∉ seen := by
  induction names generalizing seen with
  | nil => exact ⟨fun _ => ⟨⟨by simp, by simp, List.nodup_nil⟩, by simp⟩, fun _ => rfl⟩
  | cons n more ih =>
    -- Three checks of the name itself, and then the rest of the list with one more name seen.
    rw [checkNames]
    split_ifs with hempty hdelim hseen
    · exact ⟨(by cases ·), fun h => absurd hempty (h.1.named n List.mem_cons_self)⟩
    · refine ⟨(by cases ·), fun h => ?_⟩
      rw [h.1.free n List.mem_cons_self] at hdelim
      cases hdelim
    · refine ⟨(by cases ·), fun h => ?_⟩
      exact absurd (List.contains_iff_mem.mp hseen) (h.2 n List.mem_cons_self)
    -- A later name is not `n` because `n` is among the seen ones for the rest of the list.
    have hfree : BindingName.hasDelim n = false := by simpa using hdelim
    have hfresh : n ∉ seen := fun hmem => hseen (List.contains_iff_mem.mpr hmem)
    rw [ih]
    constructor
    · rintro ⟨hmore, hnew⟩
      refine ⟨⟨List.forall_mem_cons.mpr ⟨hempty, hmore.named⟩,
        List.forall_mem_cons.mpr ⟨hfree, hmore.free⟩, List.nodup_cons.mpr ⟨?_, hmore.nodup⟩⟩,
        List.forall_mem_cons.mpr ⟨hfresh, ?_⟩⟩
      · exact fun hmem => hnew n hmem List.mem_cons_self
      · exact fun m hm hmem => hnew m hm (List.mem_cons_of_mem _ hmem)
    · rintro ⟨hall, hnew⟩
      obtain ⟨hn, hnodup⟩ := List.nodup_cons.mp hall.nodup
      refine ⟨⟨(List.forall_mem_cons.mp hall.named).2, (List.forall_mem_cons.mp hall.free).2,
        hnodup⟩, fun m hm hmem => ?_⟩
      rcases List.mem_cons.mp hmem with rfl | hmem
      · exact hn hm
      · exact hnew m (List.mem_cons_of_mem _ hm) hmem

/-- At the start no name has been seen. -/
theorem HandleParts.checkNames_eq_ok_iff {slot : Slot} {names : List ν} :
    checkNames slot [] names = .ok () ↔ BindingNames names := by
  rw [checkNames_seen_iff]
  exact ⟨And.left, fun h => ⟨h, by simp⟩⟩

/-! ### Metadata -/

/-- **What metadata may say of the input bound to a name**: its own name, an element type there is,
and a range for each axis. -/
structure InputSpec.Sound (spec : InputSpec ν) (name : ν) : Prop where
  name_eq : spec.name = name
  dtype : spec.dtype.isValid = true
  ranges : List.Forall₂ SoundRange spec.low spec.high

/-- **What metadata may say of an axis**: a size, or the axis of an input; where the metadata has a
spec of that input, the axis is one that the input has. -/
def DimSpec.Sound (m : Metadata ν) (inputNames : List ν) (dim : DimSpec ν) : Prop :=
  dim.isStatic = true ∨ 0 ≤ dim.axis ∧ dim.input ∈ inputNames ∧
    ∀ spec, m.input? dim.input = some spec → dim.axis.toNatClampNeg < spec.low.length

/-- **What metadata may say of the output bound to a name.** -/
structure OutputSpec.Sound (m : Metadata ν) (inputNames : List ν) (spec : OutputSpec ν)
    (name : ν) : Prop where
  name_eq : spec.name = name
  dtype : spec.dtype.isValid = true
  dims : ∀ dim ∈ spec.shape.getD [], dim.Sound m inputNames

/-- **Metadata without fault**: a side that says anything speaks of every binding, in order. -/
structure Metadata.Sound (m : Metadata ν) (inputNames outputNames : List ν) : Prop where
  inputs : m.inputs ≠ [] → List.Forall₂ InputSpec.Sound m.inputs inputNames
  outputs : m.outputs ≠ [] → List.Forall₂ (OutputSpec.Sound m inputNames) m.outputs outputNames

/-- No axis of a profile is at fault where each has a range. -/
theorem badProfileAxis_eq_none {low high : Shape} (h : List.Forall₂ SoundRange low high)
    (axis : Nat) : badProfileAxis axis low high = none := by
  induction h generalizing axis with
  | nil => rfl
  | cons hrange _ ih =>
    rw [badProfileAxis, if_neg, ih]
    rintro (hneg | ⟨hbounded, hempty⟩)
    · exact absurd hneg (Int64.not_lt.mpr hrange.1)
    · exact absurd hempty (Int64.not_lt.mpr (hrange.2 hbounded))

namespace Metadata

/-- The check of an input accepts what is sound: each refusal contradicts one field. -/
theorem checkInput_eq_ok_iff (i : Nat) (spec : InputSpec ν) (name : ν) :
    checkInput i spec name = .ok () ↔ spec.Sound name := by
  unfold checkInput
  split
  next hname => exact ⟨(by cases ·), fun h => absurd h.name_eq hname⟩
  next hname =>
  split
  next hdtype => exact ⟨(by cases ·), fun h => by simp [h.dtype] at hdtype⟩
  next hdtype =>
  split
  next hlen => exact ⟨(by cases ·), fun h => absurd h.ranges.length_eq hlen⟩
  next hlen =>
  split
  next axis low high hbad =>
    refine ⟨(by cases ·), fun h => ?_⟩
    rw [badProfileAxis_eq_none h.ranges] at hbad
    cases hbad
  next hgood =>
    refine ⟨fun _ => ⟨not_not.mp hname, by simpa using hdtype, ?_⟩, fun _ => rfl⟩
    exact ranges_of_badProfileAxis (not_not.mp hlen) hgood

variable {m : Metadata ν} {inputNames outputNames : List ν}

/-- The check of an axis accepts what is sound. -/
theorem checkDim_eq_ok_iff {output : ν} {axis : Nat} {dim : DimSpec ν} :
    checkDim m inputNames output axis dim = .ok () ↔ dim.Sound m inputNames := by
  unfold checkDim
  split
  next hstatic => exact ⟨fun _ => .inl hstatic, fun _ => rfl⟩
  next hcopied =>
  -- From here on the axis is a copied one, so it is sound by the second alternative or not at all.
  rw [DimSpec.Sound, or_iff_right hcopied]
  split
  next hneg => exact ⟨(by cases ·), fun h => absurd hneg (Int64.not_lt.mpr h.1)⟩
  next hneg =>
  split
  next hunknown => exact ⟨(by cases ·), fun h => by simp [h.2.1] at hunknown⟩
  next hknown =>
  have haxis : 0 ≤ dim.axis := Int64.not_lt.mp hneg
  have hinput : dim.input ∈ inputNames := by simpa using hknown
  -- Only where metadata has a spec of the input there is a rank to compare with.
  split
  next spec hspec =>
    split
    next hlarge =>
      exact ⟨(by cases ·), fun h => absurd (h.2.2 spec hspec) (Nat.not_lt.mpr hlarge)⟩
    next hsmall =>
      refine ⟨fun _ => ⟨haxis, hinput, fun other hother => ?_⟩, fun _ => rfl⟩
      obtain rfl : spec = other := Option.some.inj (hspec.symm.trans hother)
      exact Nat.not_le.mp hsmall
  next hnone =>
    refine ⟨fun _ => ⟨haxis, hinput, fun other hother => ?_⟩, fun _ => rfl⟩
    rw [hnone] at hother
    cases hother

/-- The loop over the axes; their number stands in the refusals only. -/
theorem checkDims_eq_ok_iff {output : ν} {axis : Nat} {dims : List (DimSpec ν)} :
    checkDims m inputNames output axis dims = .ok () ↔ ∀ dim ∈ dims, dim.Sound m inputNames := by
  induction dims generalizing axis with
  | nil => exact ⟨fun _ => by simp, fun _ => rfl⟩
  | cons dim more ih =>
    rw [checkDims, bind_eq_ok_iff, List.forall_mem_cons]
    constructor
    · rintro ⟨⟨⟩, hdim, hmore⟩
      exact ⟨checkDim_eq_ok_iff.mp hdim, ih.mp hmore⟩
    · rintro ⟨hdim, hmore⟩
      exact ⟨(), checkDim_eq_ok_iff.mpr hdim, ih.mpr hmore⟩

/-- The check of an output accepts what is sound. -/
theorem checkOutput_eq_ok_iff (i : Nat) (spec : OutputSpec ν) (name : ν) :
    checkOutput m inputNames i spec name = .ok () ↔ spec.Sound m inputNames name := by
  unfold checkOutput
  split
  next hname => exact ⟨(by cases ·), fun h => absurd h.name_eq hname⟩
  next hname =>
  split
  next hdtype => exact ⟨(by cases ·), fun h => by simp [h.dtype] at hdtype⟩
  next hdtype =>
    rw [checkDims_eq_ok_iff]
    exact ⟨fun h => ⟨not_not.mp hname, by simpa using hdtype, h⟩, fun h => h.dims⟩

omit [DecidableEq ν] [BindingName ν] in
/-- Two lists of one length in step: where a check accepts what a relation holds of, the loop
accepts lists that the relation holds of throughout. -/
theorem checkEach_eq_ok_iff {α : Type} {check : Nat → α → ν → Except Malformed Unit}
    {R : α → ν → Prop} (hcheck : ∀ i spec name, check i spec name = .ok () ↔ R spec name)
    {specs : List α} {names : List ν} (hlen : specs.length = names.length) {i : Nat} :
    checkEach check i specs names = .ok () ↔ List.Forall₂ R specs names := by
  -- The lists are consumed together, and one cannot end before the other.
  induction specs generalizing names i with
  | nil =>
    obtain rfl : names = [] := List.length_eq_zero_iff.mp hlen.symm
    exact ⟨fun _ => .nil, fun _ => rfl⟩
  | cons spec specs ih =>
    cases names with
    | nil => exact absurd hlen (by simp)
    | cons name names =>
      rw [checkEach, bind_eq_ok_iff, List.forall₂_cons, ← hcheck i]
      have hrest := @ih names (Nat.succ.inj hlen) (i + 1)
      constructor
      · rintro ⟨⟨⟩, hspec, hmore⟩
        exact ⟨hspec, hrest.mp hmore⟩
      · rintro ⟨hspec, hmore⟩
        exact ⟨(), hspec, hrest.mpr hmore⟩

/-- The check of one side: there is nothing to check, or as many specs as bindings and each of them
accepted. -/
def checkSide {α : Type} (check : Nat → α → ν → Except Malformed Unit) (uneven : Malformed)
    (specs : List α) (names : List ν) : Except Malformed Unit :=
  if specs.isEmpty then .ok ()
  else if specs.length ≠ names.length then .error uneven
  else checkEach check 0 specs names

omit [DecidableEq ν] [BindingName ν] in
theorem checkSide_eq_ok_iff {α : Type} {check : Nat → α → ν → Except Malformed Unit}
    {R : α → ν → Prop} (hcheck : ∀ i spec name, check i spec name = .ok () ↔ R spec name)
    {specs : List α} {names : List ν} {uneven : Malformed} :
    checkSide check uneven specs names = .ok () ↔
      (specs ≠ [] → List.Forall₂ R specs names) := by
  unfold checkSide
  -- Nothing to check, a wrong number, or the loop.
  split_ifs with hnone hlen
  · exact ⟨fun _ h => absurd (List.isEmpty_iff.mp hnone) h, fun _ => rfl⟩
  · refine ⟨(by cases ·), fun h => ?_⟩
    exact absurd (h (mt List.isEmpty_iff.mpr hnone)).length_eq hlen
  · rw [checkEach_eq_ok_iff hcheck (not_not.mp hlen)]
    exact ⟨fun h _ => h, fun h => h (mt List.isEmpty_iff.mpr hnone)⟩

/-- Metadata is checked one side after the other. -/
theorem validate_eq_sides : ∃ unevenInputs unevenOutputs, m.validate inputNames outputNames =
    (checkSide checkInput unevenInputs m.inputs inputNames >>= fun _ =>
      checkSide (m.checkOutput inputNames) unevenOutputs m.outputs outputNames) := by
  refine ⟨Slot.metadata.malformed (toString m.inputs.length ++ " input specs for " ++
    toString inputNames.length ++ " input bindings"), Slot.metadata.malformed (toString
    m.outputs.length ++ " output specs for " ++ toString outputNames.length ++
    " output bindings"), ?_⟩
  unfold validate checkSide
  -- Whether a side is empty is asked twice with the sense turned around, hence the four cases.
  cases m.inputs.isEmpty <;> cases m.outputs.isEmpty <;>
    simp only [Bool.not_true, Bool.not_false, Bool.false_eq_true, if_true, if_false]
  · split_ifs <;> rfl
  · split_ifs <;> rfl
  · split_ifs <;> rfl
  · rfl

/-- **The check of metadata accepts what is sound, and nothing else.** -/
theorem validate_eq_ok_iff :
    m.validate inputNames outputNames = .ok () ↔ m.Sound inputNames outputNames := by
  obtain ⟨unevenInputs, unevenOutputs, heq⟩ := @validate_eq_sides ν _ _ m inputNames outputNames
  have hinputs : checkSide checkInput unevenInputs m.inputs inputNames = .ok () ↔ _ :=
    checkSide_eq_ok_iff checkInput_eq_ok_iff
  have houtputs :
      checkSide (m.checkOutput inputNames) unevenOutputs m.outputs outputNames = .ok () ↔ _ :=
    checkSide_eq_ok_iff checkOutput_eq_ok_iff
  rw [heq, bind_eq_ok_iff]
  constructor
  · rintro ⟨⟨⟩, hin, hout⟩
    exact ⟨hinputs.mp hin, houtputs.mp hout⟩
  · intro h
    exact ⟨(), hinputs.mpr h.inputs, houtputs.mpr h.outputs⟩

end Metadata

/-! ### Handles -/

/-- **Parts without fault.** -/
structure HandleParts.Sound (p : HandleParts ν) : Prop where
  name : Text.isBlankText p.name = false
  signature : p.device.signature ≠ ""
  signature_free : bindingDelim ∉ p.device.signature.toList
  engine : p.engine ≠ []
  inputs : BindingNames p.inputNames
  outputs_ne_nil : p.outputNames ≠ []
  outputs : BindingNames p.outputNames
  platform : Text.isBlankText p.targetPlatform = false
  metadata : p.metadata.Sound p.inputNames p.outputNames

/-- **The check of all parts accepts what is sound, and nothing else.** -/
theorem HandleParts.validate_eq_ok_iff {p : HandleParts ν} : p.validate = .ok () ↔ p.Sound := by
  unfold validate
  -- The checks before the names are single questions, each answered by one field of what is sound.
  split
  next hname => exact ⟨(by cases ·), fun h => by simp [h.name] at hname⟩
  next hname =>
  split
  next hsignature => exact ⟨(by cases ·), fun h => absurd hsignature h.signature⟩
  next hsignature =>
  split
  next hdelim =>
    refine ⟨(by cases ·), fun h => ?_⟩
    rw [Text.hasChar_eq_false_iff.mpr h.signature_free] at hdelim
    cases hdelim
  next hdelim =>
  split
  next hengine => exact ⟨(by cases ·), fun h => absurd (List.isEmpty_iff.mp hengine) h.engine⟩
  next hengine =>
  -- What is left runs in sequence: the two lists of names, the platform, and metadata.
  rw [bind_eq_ok_iff]
  constructor
  · rintro ⟨⟨⟩, hinputs, h⟩
    dsimp only at h
    split at h
    next => cases h
    next hne =>
    obtain ⟨⟨⟩, houtputs, h⟩ := bind_eq_ok_iff.mp h
    split at h
    next => cases h
    next hplatform =>
      exact {
        name := by simpa using hname
        signature := hsignature
        signature_free := Text.hasChar_eq_false_iff.mp (by simpa using hdelim)
        engine := mt List.isEmpty_iff.mpr hengine
        inputs := checkNames_eq_ok_iff.mp hinputs
        outputs_ne_nil := mt List.isEmpty_iff.mpr hne
        outputs := checkNames_eq_ok_iff.mp houtputs
        platform := by simpa using hplatform
        metadata := Metadata.validate_eq_ok_iff.mp h }
  · intro h
    refine ⟨(), checkNames_eq_ok_iff.mpr h.inputs, ?_⟩
    rw [if_neg (mt List.isEmpty_iff.mp h.outputs_ne_nil), bind_eq_ok_iff]
    refine ⟨(), checkNames_eq_ok_iff.mpr h.outputs, ?_⟩
    rw [if_neg (by simp [h.platform])]
    exact Metadata.validate_eq_ok_iff.mpr h.metadata

/-- Parts make a handle exactly if they are sound once what they leave open is filled in. -/
theorem Handle.exists_make_iff {p : HandleParts ν} :
    (∃ h, Handle.make p = .ok h) ↔ p.withDefaults.Sound := by
  rw [← HandleParts.validate_eq_ok_iff]
  unfold Handle.make
  dsimp only
  split
  next hvalid => exact ⟨fun _ => hvalid, fun _ => ⟨_, rfl⟩⟩
  next e hrefused =>
    rw [hrefused]
    constructor
    · rintro ⟨_, ⟨⟩⟩
    · rintro ⟨⟩

/-- **Every handle is sound**, for it has passed the check. -/
theorem Handle.sound (h : Handle ν) : h.toHandleParts.Sound :=
  HandleParts.validate_eq_ok_iff.mp h.valid

end

end EngineHost
