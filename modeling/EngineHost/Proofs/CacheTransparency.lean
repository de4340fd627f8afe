import EngineHost.Proofs.Accounting
import EngineHost.Proofs.BuiltEngine
import EngineHost.Proofs.PlanLoading

/-!
# Keeping engines changes no result

Two executors over the same plan runtimes serve the same calls one after the other, the one keeping
its engines, the other loading afresh each time. Their results agree, call by call
(`Executor.results_agree_when_kept`), as long as the texts in the calls' handles do not imitate the
marks that `Executor.cacheKey` puts between its parts.

* A kept engine may have been loaded for another handle. `Engine.Alike` is what two engines that are
  kept under one key have in common: they differ in the name that stands in their messages, so
  whatever runs on them ends with the same tensors, or with failures of the same kinds
  (`Executor.runEngine_agree`).
* What a plan loads into depends on the payload, the flag and the type of the device alone
  (`Executor.load_agree`), and `Executor.cacheKey_separates` reads these off the key.
* The invariant of the cache is `Executor.Backed`: every engine in it is what some handle of its key
  loads into. A call keeps the invariant and agrees with the same call on a fresh engine; the run is
  an induction.

The condition on texts cannot be dropped: a signature that holds a bar can be read as a flag and the
beginning of a platform, and the engine is then taken for a handle that does not load at all
(`Executor.kept_engine_taken_for_another`).
-/

namespace EngineHost

/-! ### Failures of the same kinds -/

/-- Failures that callers cannot tell apart. -/
structure Failure.Alike (f g : Failure) : Prop where
  is_eq : ∀ k, f.is k = g.is k
  isCrash_eq : f.isCrash = g.isCrash

/-- Results that agree: values in a relation, or failures of the same kinds. -/
inductive Agree (R : α → β → Prop) : Except Failure α → Except Failure β → Prop
  | ok {a : α} {b : β} (h : R a b) : Agree R (.ok a) (.ok b)
  | error {f g : Failure} (h : f.Alike g) : Agree R (.error f) (.error g)

/-- Calls end alike: with the same tensors, or with failures of the same kinds. -/
abbrev SameOutcome : Except Failure (List Tensor) → Except Failure (List Tensor) → Prop :=
  Agree (· = ·)

namespace Failure

variable {f g : Failure}

theorem Alike.refl (f : Failure) : f.Alike f :=
  ⟨fun _ => rfl, rfl⟩

theorem alike_plain (text text' : String) : Alike (.plain text) (.plain text') :=
  ⟨fun _ => rfl, rfl⟩

theorem alike_shapeBinding (b b' : ShapeBinding) : Alike (.shapeBinding b) (.shapeBinding b') :=
  ⟨fun _ => rfl, rfl⟩

theorem Alike.within (h : f.Alike g) (context context' : String) :
    Alike (.within context f) (.within context' g) :=
  ⟨h.is_eq, h.isCrash_eq⟩

/-- Wrapping a failure to load adds a kind, and the same one to both. -/
theorem Alike.loading (h : f.Alike g) (o o' : LoadOptions) : (o.failure f).Alike (o'.failure g) :=
  ⟨fun k => congrArg (decide (k = .loading) || ·) (h.is_eq k), h.isCrash_eq⟩

/-- A failure to load is wrapped unless it is one already. -/
theorem Alike.loaded (h : f.Alike g) (o o' : LoadOptions) :
    Alike (if f.is .loading then f else o.failure f)
      (if g.is .loading then g else o'.failure g) := by
  rw [h.is_eq .loading]
  split
  next => exact h
  next => exact h.loading o o'

end Failure

namespace Agree

theorem refl (x : Except Failure α) : Agree (· = ·) x x := by
  cases x with
  | ok a => exact .ok rfl
  | error f => exact .error (.refl f)

/-- The two ways to agree, for a function that goes on with the results. -/
theorem fails_or_same {x y : Except Failure α} (h : Agree (· = ·) x y) :
    (∃ f g, x = .error f ∧ y = .error g ∧ f.Alike g) ∨ ∃ a, x = .ok a ∧ y = .ok a := by
  cases h with
  | error h => exact .inl ⟨_, _, rfl, rfl, h⟩
  | ok h => exact .inr ⟨_, rfl, h ▸ rfl⟩

/-- Results that agree are both there or both missing. -/
theorem isOk_eq {R : α → β → Prop} {x : Except Failure α} {y : Except Failure β}
    (h : Agree R x y) : x.isOk = y.isOk := by
  cases h with
  | ok _ => rfl
  | error _ => rfl

theorem map {x y : Except Failure α} (h : Agree (· = ·) x y) (f : α → β) :
    Agree (· = ·) (x.map f) (y.map f) := by
  cases h with
  | ok h => exact .ok (congrArg f h)
  | error h => exact .error h

end Agree

/-! ### Plans under another name -/

namespace PlanEngine

variable (e : PlanEngine) (n : String)

/-- The same plan under another name. -/
def renamed : PlanEngine :=
  { e with name := n }

theorem network_renamed : (e.renamed n).network = e.network :=
  rfl

/-- Binding a shape fails for the same reasons; the name stands in the wording only. -/
theorem bind_renamed (bound : Bindings) (name : Bytes) (shape : Option Shape) :
    Agree (· = ·) (e.bind bound name shape) ((e.renamed n).bind bound name shape) := by
  unfold bind
  rw [network_renamed]
  split
  next => exact .error (Failure.alike_shapeBinding _ _)
  next input _ =>
  dsimp only
  split
  next => exact .error (Failure.alike_shapeBinding _ _)
  next =>
  split
  next => exact .error (Failure.alike_shapeBinding _ _)
  next => exact .ok rfl

/-- The shapes of the inputs, as far as they are bound. -/
theorem inputShapes_renamed (bound shapes : Bindings) (inputs : List NetworkInput) :
    Agree (· = ·) (e.inputShapes bound shapes inputs)
      ((e.renamed n).inputShapes bound shapes inputs) := by
  induction inputs generalizing shapes with
  | nil => exact .ok rfl
  | cons input more ih =>
    unfold inputShapes
    split
    next => exact .error (Failure.alike_shapeBinding _ _)
    next shape _ => exact ih _

theorem layerShape_renamed (shapes : Bindings) (l : Layer) :
    Agree (· = ·) (e.layerShape shapes l) ((e.renamed n).layerShape shapes l) := by
  unfold layerShape
  dsimp only
  split
  next =>
    split
    next => exact .error (Failure.alike_shapeBinding _ _)
    next => exact .ok rfl
  next => exact .ok rfl

/-- The shapes of the layers, up to the first that has none. -/
theorem layerShapes_renamed (shapes : Bindings) (layers : List Layer) :
    Agree (· = ·) (e.layerShapes shapes layers) ((e.renamed n).layerShapes shapes layers) := by
  induction layers generalizing shapes with
  | nil => exact .ok rfl
  | cons l more ih =>
    unfold layerShapes
    obtain ⟨f, g, hx, hy, halike⟩ | ⟨shape, hx, hy⟩ :=
      (layerShape_renamed e n shapes l).fails_or_same
    · rw [hx, hy]
      exact .error halike
    · rw [hx, hy]
      exact ih _

theorem shapes_renamed (bound : Bindings) :
    Agree (· = ·) (e.shapes bound) ((e.renamed n).shapes bound) := by
  unfold shapes
  rw [network_renamed]
  obtain ⟨f, g, hx, hy, halike⟩ | ⟨shapes, hx, hy⟩ :=
    (inputShapes_renamed e n bound [] e.network.inputs).fails_or_same
  · rw [hx, hy]
    exact .error halike
  · rw [hx, hy]
    exact layerShapes_renamed e n shapes e.network.layers

/-- The shape of an output, or why there is none. -/
theorem outputShape_renamed (bound : Bindings) (name : Bytes) :
    Agree (· = ·) (e.outputShape bound name) ((e.renamed n).outputShape bound name) := by
  unfold outputShape
  rw [network_renamed]
  obtain ⟨f, g, hx, hy, halike⟩ | ⟨shapes, hx, hy⟩ := (shapes_renamed e n bound).fails_or_same
  · rw [hx, hy]
    exact .error halike
  · rw [hx, hy]
    dsimp only
    split
    next =>
      split
      next => exact .ok rfl
      next => exact .error (Failure.alike_plain _ _)
    next => exact .error (Failure.alike_plain _ _)

theorem takeInput_renamed (bound : Bindings) (input : NetworkInput)
    (given : List (Bytes × Option Tensor)) :
    Agree (· = ·) (e.takeInput bound input given) ((e.renamed n).takeInput bound input given) := by
  -- What is missing or of another kind is worded with the name; whether it is, is not.
  unfold takeInput
  split
  next => exact .error (Failure.alike_plain _ _)
  next t _ =>
  split
  next =>
    split
    next => exact .ok rfl
    next => exact (bind_renamed e n _ _ _).map _
  next => exact .error (Failure.alike_plain _ _)

/-- What is taken, and what is bound in the end. -/
theorem takeInputs_renamed (given : List (Bytes × Option Tensor)) (bound : Bindings)
    (buffers : Buffers) (inputs : List NetworkInput) :
    Agree (· = ·) (e.takeInputs given bound buffers inputs).1
        ((e.renamed n).takeInputs given bound buffers inputs).1 ∧
      (e.takeInputs given bound buffers inputs).2 =
        ((e.renamed n).takeInputs given bound buffers inputs).2 := by
  induction inputs generalizing bound buffers with
  | nil => exact ⟨.ok rfl, rfl⟩
  | cons input more ih =>
    unfold takeInputs
    obtain ⟨f, g, hx, hy, halike⟩ | ⟨taken, hx, hy⟩ :=
      (takeInput_renamed e n bound input given).fails_or_same
    · rw [hx, hy]
      exact ⟨.error halike, rfl⟩
    · rw [hx, hy]
      exact ih _ _

theorem giveOutputs_renamed (shapes : Bindings) (buffers : Buffers) (names : List Bytes) :
    Agree (· = ·) (e.giveOutputs shapes buffers names)
      ((e.renamed n).giveOutputs shapes buffers names) := by
  induction names with
  | nil => exact .ok rfl
  | cons name more ih =>
    unfold giveOutputs
    dsimp only
    split
    next => exact .error ((Failure.Alike.refl _).within _ _)
    next => exact ih.map _

/-- The layers are computed without a look at the name. -/
theorem layerValues_renamed (shapes : Bindings) (buffers : Buffers) (signal : Signal)
    (layers : List Layer) :
    (e.renamed n).layerValues shapes buffers signal layers =
      e.layerValues shapes buffers signal layers := by
  induction layers generalizing buffers signal with
  | nil => rfl
  | cons l more ih =>
    have hvalue : (e.renamed n).layerValue shapes buffers l = e.layerValue shapes buffers l := rfl
    unfold layerValues
    simp only [hvalue, ih]

/-- **An execution under another name** ends with the same tensors or fails for the same reason. -/
theorem execute_renamed (bound : Bindings) (signal : Signal)
    (given : List (Bytes × Option Tensor)) :
    Agree (· = ·) (e.execute bound signal given).1.result
      ((e.renamed n).execute bound signal given).1.result := by
  unfold execute
  rw [network_renamed]
  split
  next => exact .refl _
  next _ signal _ =>
  obtain ⟨htaken, hbound⟩ := takeInputs_renamed e n given bound [] e.network.inputs
  -- The pairs are taken apart so that what is bound in the end can be identified.
  generalize e.takeInputs given bound [] e.network.inputs = taken at htaken hbound
  generalize (e.renamed n).takeInputs given bound [] e.network.inputs = taken' at htaken hbound
  obtain ⟨inputs, bound⟩ := taken
  obtain ⟨inputs', bound'⟩ := taken'
  obtain rfl : bound = bound' := hbound
  obtain ⟨f, g, rfl, rfl, halike⟩ | ⟨buffers, rfl, rfl⟩ := htaken.fails_or_same
  · exact .error halike
  · dsimp only
    obtain ⟨f, g, hx, hy, halike⟩ | ⟨shapes, hx, hy⟩ := (shapes_renamed e n bound).fails_or_same
    · rw [hx, hy]
      exact .error halike
    · rw [hx, hy]
      dsimp only
      rw [layerValues_renamed]
      split
      next => exact .refl _
      next => exact giveOutputs_renamed e n _ _ _

end PlanEngine

/-! ### Engines that are alike -/

/-- Contexts that answer alike. -/
structure Context.Alike (c d : Context) : Prop where
  bind : ∀ bound name shape, Agree (· = ·) (c.bind bound name shape) (d.bind bound name shape)
  outputShape : ∀ bound name, Agree (· = ·) (c.outputShape bound name) (d.outputShape bound name)
  execute : ∀ bound signal feed,
    Agree (· = ·) (c.execute bound signal feed).result (d.execute bound signal feed).result

/-- Engines with the same bindings, on which everything ends alike. -/
structure Engine.Alike (e d : Engine) : Prop where
  inputNames : e.inputNames = d.inputNames
  outputNames : e.outputNames = d.outputNames
  context : Agree Context.Alike e.context d.context

theorem Engine.Alike.refl (e : Engine) : e.Alike e where
  inputNames := rfl
  outputNames := rfl
  context := by
    cases e.context with
    | error f => exact .error (.refl f)
    | ok c => exact .ok ⟨fun _ _ _ => .refl _, fun _ _ => .refl _, fun _ _ _ => .refl _⟩

theorem PlanEngine.context_alike (e : PlanEngine) (n : String) :
    e.context.Alike (e.renamed n).context where
  bind bound name shape := (bind_renamed e n bound name shape).map _
  outputShape bound name := (outputShape_renamed e n bound name).map _
  execute bound signal _ := execute_renamed e n bound signal _

theorem PlanRuntime.engineOf_alike (e : PlanEngine) (n : String) (bytes : Int64) :
    (engineOf e bytes).Alike (engineOf (e.renamed n) bytes) where
  inputNames := rfl
  outputNames := rfl
  context := .ok (e.context_alike n)

namespace Executor

section Alike

variable {c d : Context} (hcontext : c.Alike d) (h : Handle)

theorem bindingFailure_alike {f g : Failure} (halike : f.Alike g) (name : String)
    (shape : Option Shape) :
    (bindingFailure h name shape f).Alike (bindingFailure h name shape g) := by
  unfold bindingFailure
  rw [halike.is_eq .shapeBinding]
  split
  next => exact halike
  next => exact Failure.alike_shapeBinding _ _

theorem executionFailure_alike {f g : Failure} (halike : f.Alike g) :
    (executionFailure h f).Alike (executionFailure h g) := by
  -- Whether a failure is an interruption is a matter of its kinds.
  have hinterrupted : f.isInterrupted = g.isInterrupted := by
    rw [Failure.isInterrupted, Failure.isInterrupted, halike.is_eq, halike.is_eq]
  unfold executionFailure
  rw [halike.is_eq .shapeBinding, hinterrupted]
  split
  next => exact halike
  next => exact halike.within _ _

include hcontext in
/-- Binding the inputs one after the other. -/
theorem bindInputs_agree (bound : Bindings) (inputs : List (String × Tensor)) :
    Agree (· = ·) (bindInputs c h bound inputs) (bindInputs d h bound inputs) := by
  induction inputs generalizing bound with
  | nil => exact .ok rfl
  | cons input more ih =>
    obtain ⟨name, t⟩ := input
    unfold bindInputs
    obtain ⟨f, g, hx, hy, halike⟩ | ⟨_, hx, hy⟩ :=
      (hcontext.bind bound (.ofText name) t.shape.stated?).fails_or_same
    · rw [hx, hy]
      exact .error (bindingFailure_alike h halike name _)
    · rw [hx, hy]
      exact ih _

include hcontext in
theorem outputShapes_agree (bound : Bindings) (names : List String) :
    Agree (· = ·) (outputShapes c h bound names) (outputShapes d h bound names) := by
  induction names with
  | nil => exact .ok rfl
  | cons name more ih =>
    unfold outputShapes
    obtain ⟨f, g, hx, hy, halike⟩ | ⟨shape, hx, hy⟩ :=
      (hcontext.outputShape bound (.ofText name)).fails_or_same
    · rw [hx, hy]
      exact .error (bindingFailure_alike h halike name none)
    · rw [hx, hy]
      exact ih.map _

include hcontext in
/-- The use of a context, step by step: inputs, shapes, execution. -/
theorem runContext_agree (signal : Signal) (inputs : List Tensor) :
    SameOutcome (runContext c h signal inputs).1 (runContext d h signal inputs).1 := by
  unfold runContext
  obtain ⟨f, g, hx, hy, halike⟩ | ⟨bound, hx, hy⟩ :=
    (bindInputs_agree hcontext h [] (h.inputNames.zip inputs)).fails_or_same
  · rw [hx, hy]
    exact .error halike
  · rw [hx, hy]
    dsimp only
    obtain ⟨f, g, hx, hy, halike⟩ | ⟨promised, hx, hy⟩ :=
      (outputShapes_agree hcontext h bound h.outputNames).fails_or_same
    · rw [hx, hy]
      exact .error halike
    · rw [hx, hy]
      dsimp only
      obtain ⟨f, g, hx, hy, halike⟩ | ⟨results, hx, hy⟩ := (hcontext.execute bound signal
        ((h.inputNames.map Bytes.ofText).zip inputs)).fails_or_same
      · rw [hx, hy]
        exact .error (executionFailure_alike h halike)
      · rw [hx, hy]
        exact .refl _

end Alike

/-- **Alike engines serve a handle alike.** -/
theorem runEngine_agree {e d : Engine} (halike : e.Alike d) (h : Handle) (signal : Signal)
    (inputs : List Tensor) :
    SameOutcome (runEngine e h signal inputs).result (runEngine d h signal inputs).result := by
  have hnames : checkNames e h = checkNames d h := by
    rw [checkNames, checkNames, halike.inputNames, halike.outputNames]
  have hcontext := halike.context
  unfold runEngine
  rw [hnames]
  split
  next => exact .refl _
  next =>
  -- Only that the contexts agree is known of them, so they are taken as any two that do.
  generalize e.context = x at hcontext
  generalize d.context = y at hcontext
  cases hcontext with
  | error hfailure => exact .error (hfailure.within _ _)
  | ok hcontext => exact runContext_agree hcontext h signal inputs

end Executor

/-! ### What loading depends on -/

/-- Handles that differ in nothing a plan's loading depends on. -/
structure Handle.LoadsLike (h g : Handle) : Prop where
  engine : h.engine = g.engine
  typeName : h.device.device.typeName = g.device.device.typeName
  hardwareCompatible : h.hardwareCompatible = g.hardwareCompatible

namespace PlanRuntime

variable {h g : Handle} (hlike : h.LoadsLike g)

include hlike in
/-- A plan fits both handles or neither. -/
theorem problem?_isSome (host : HostConfig) (p : CompiledPlan) :
    (problem? host h.loadOptions p).isSome = (problem? host g.loadOptions p).isSome := by
  have hflag : h.loadOptions.hardwareCompatible = g.loadOptions.hardwareCompatible :=
    hlike.hardwareCompatible
  -- A device is the processor under two names, and the name of its type does not tell them apart.
  have htype : (h.loadOptions.device.device.type ≠ "cpu" ∧ h.loadOptions.device.device.type ≠ "") ↔
      (g.loadOptions.device.device.type ≠ "cpu" ∧ g.loadOptions.device.device.type ≠ "") := by
    rw [← not_iff_not, Device.isProcessor_iff, Device.isProcessor_iff]
    exact hlike.typeName ▸ Iff.rfl
  unfold problem?
  rw [hflag]
  by_cases hplatform : p.platform ≠ Bytes.ofText host.platform
  · rw [if_pos hplatform, if_pos hplatform]
  rw [if_neg hplatform, if_neg hplatform]
  by_cases hbuilt : p.hardwareCompatible ≠ g.loadOptions.hardwareCompatible
  · rw [if_pos hbuilt, if_pos hbuilt]
  rw [if_neg hbuilt, if_neg hbuilt]
  by_cases hcpu : g.loadOptions.device.device.type ≠ "cpu" ∧ g.loadOptions.device.device.type ≠ ""
  · rw [if_pos hcpu, if_pos (htype.mpr hcpu), Option.isSome_some, Option.isSome_some]
  · rw [if_neg hcpu, if_neg (mt htype.mp hcpu)]

include hlike in
/-- A plan is loaded for both handles or for neither. -/
theorem load_agree (host : HostConfig) (payload : Bytes) :
    Agree Engine.Alike ((runtime host).load payload h.loadOptions)
      ((runtime host).load payload g.loadOptions) := by
  change Agree Engine.Alike
    ((loadPlan host.withDefaults payload h.loadOptions).map (engineOf · _))
    ((loadPlan host.withDefaults payload g.loadOptions).map (engineOf · _))
  unfold loadPlan
  split
  next => exact .error ((Failure.Alike.refl _).loading _ _)
  next p _ =>
  have hsame := problem?_isSome hlike host.withDefaults p
  cases hh : problem? host.withDefaults h.loadOptions p with
  | none =>
    have hg : problem? host.withDefaults g.loadOptions p = none := by
      rw [← Option.not_isSome_iff_eq_none, ← hsame, hh]
      exact Bool.false_ne_true
    rw [hg]
    -- The two engines are one plan, under the names of the two handles.
    exact .ok (engineOf_alike _ g.name _)
  | some why =>
    rw [hh] at hsame
    obtain ⟨why', hg⟩ := Option.isSome_iff_exists.mp hsame.symm
    rw [hg]
    exact .error ((Failure.alike_plain why why').loading _ _)

end PlanRuntime

/-- **Handles that load alike get engines that are alike.** -/
theorem Executor.load_agree {h g : Handle} (hlike : h.LoadsLike g) (hosts : List HostConfig) :
    Agree Engine.Alike (load (hosts.map PlanRuntime.runtime) h)
      (load (hosts.map PlanRuntime.runtime) g) := by
  unfold load
  rw [hlike.engine]
  -- The runtime is found by the payload, which the handles share.
  cases hselect : Runtime.select (hosts.map PlanRuntime.runtime) g.engine with
  | error f => exact .error ((Failure.Alike.refl f).loading _ _)
  | ok r =>
    -- All runtimes are runtimes for plans, so the one that was found is.
    have hruntime : ∃ host, r = PlanRuntime.runtime host := by
      unfold Runtime.select at hselect
      split at hselect
      next r' hfind =>
        cases hselect
        obtain ⟨host, -, heq⟩ := List.mem_map.mp (List.mem_of_find?_eq_some hfind)
        exact ⟨host, heq.symm⟩
      next => cases hselect
    obtain ⟨host, rfl⟩ := hruntime
    have hload := PlanRuntime.load_agree hlike host g.engine
    dsimp only
    generalize (PlanRuntime.runtime host).load g.engine h.loadOptions = x at hload
    generalize (PlanRuntime.runtime host).load g.engine g.loadOptions = y at hload
    cases hload with
    | error halike => exact .error (halike.loaded _ _)
    | ok halike => exact .ok halike

/-! ### What the key tells apart -/

/-- The mark between the parts of a key. -/
def keyDelim : Char := '|'

/-- Do the texts of a handle keep clear of the marks that end them in a key? The type ends at a
percent sign, the signature at a bar; nothing comes behind the platform. -/
def Handle.isDelimited (h : Handle) : Bool :=
  !Text.hasChar bindingDelim h.device.device.typeName && !Text.hasChar keyDelim h.device.signature

/-- Texts that end at the same mark are cut at the same place. -/
theorem cut_unique {sep : Char} {a b s t : List Char} (ha : sep ∉ a) (hb : sep ∉ b)
    (heq : a ++ sep :: s = b ++ sep :: t) : a = b ∧ s = t := by
  induction a generalizing b with
  | nil =>
    cases b with
    | nil => exact ⟨rfl, List.tail_eq_of_cons_eq heq⟩
    | cons c more => exact absurd (List.mem_cons.mpr (.inl (List.head_eq_of_cons_eq heq))) hb
  | cons c more ih =>
    cases b with
    | nil => exact absurd (List.mem_cons.mpr (.inl (List.head_eq_of_cons_eq heq).symm)) ha
    | cons c' more' =>
      rw [List.mem_cons, not_or] at ha hb
      obtain ⟨hmore, hrest⟩ := ih ha.2 hb.2 (List.tail_eq_of_cons_eq heq)
      exact ⟨List.cons_eq_cons.mpr ⟨List.head_eq_of_cons_eq heq, hmore⟩, hrest⟩

/-- A hexadecimal number has no bar in it. -/
theorem keyDelim_not_mem_hexDigits (width n : Nat) : keyDelim ∉ Bytes.hexDigits width n := by
  have hdigit : ∀ d < 16, keyDelim ≠ Bytes.hexDigit d := by decide
  induction width generalizing n with
  | zero => exact List.not_mem_nil
  | succ width ih =>
    rw [Bytes.hexDigits, List.mem_append, List.mem_singleton, not_or]
    exact ⟨ih _, hdigit _ (Nat.mod_lt _ (by decide))⟩

theorem keyDelim_not_mem_digest (h : Handle) : keyDelim ∉ h.digest.toList := by
  rw [Handle.digest, Sha256.hexDigest, Bytes.toHex, String.toList_ofList, List.mem_flatMap]
  rintro ⟨b, -, hmem⟩
  exact keyDelim_not_mem_hexDigits 2 b.toNat hmem

theorem keyDelim_not_mem_ofBool (b : Bool) : keyDelim ∉ (Text.ofBool b).toList := by
  cases b with
  | false => decide
  | true => decide

theorem Text.ofBool_inj {b c : Bool} (heq : Text.ofBool b = Text.ofBool c) : b = c := by
  revert b c
  decide

theorem Text.ofInt64_inj {m n : Int64} (heq : Text.ofInt64 m = Text.ofInt64 n) : m = n := by
  have hread := congrArg Text.int64? heq
  rw [Text.ofInt64, Text.ofInt64, Text.int64?_toString, Text.int64?_toString] at hread
  exact Option.some.inj hread

namespace Executor

/-- A key, part by part. -/
theorem toList_cacheKey (h : Handle) : (cacheKey h).toList =
    h.digest.toList ++ keyDelim :: ((Text.ofInt64 h.device.device.index).toList ++ bindingDelim ::
      (h.device.device.typeName.toList ++ bindingDelim :: (h.device.signature.toList ++ keyDelim ::
        ((Text.ofBool h.hardwareCompatible).toList ++ keyDelim :: h.targetPlatform.toList)))) := by
  have hbar : "|".toList = [keyDelim] := by decide
  have hpercent : "%".toList = [bindingDelim] := by decide
  simp only [cacheKey, DeviceInfo.text, String.toList_append, hbar, hpercent, List.append_assoc,
    List.cons_append, List.nil_append]

/-- **The key separates handles.** It has one reading where the texts keep clear of its marks. -/
theorem cacheKey_separates {h g : Handle} (hh : h.isDelimited = true) (hg : g.isDelimited = true)
    (hkey : cacheKey h = cacheKey g) :
    h.digest = g.digest ∧ h.device.device.index = g.device.device.index ∧
      h.device.device.typeName = g.device.device.typeName ∧
      h.device.signature = g.device.signature ∧
      h.hardwareCompatible = g.hardwareCompatible ∧ h.targetPlatform = g.targetPlatform := by
  simp only [Handle.isDelimited, Bool.and_eq_true, Bool.not_eq_true'] at hh hg
  have hchars := congrArg String.toList hkey
  -- Every part ends at a mark that does not stand in it, so the parts can be cut off one by one.
  rw [toList_cacheKey, toList_cacheKey] at hchars
  obtain ⟨hdigest, hchars⟩ :=
    cut_unique (keyDelim_not_mem_digest h) (keyDelim_not_mem_digest g) hchars
  obtain ⟨hindex, hchars⟩ :=
    cut_unique (bindingDelim_not_mem_ofInt64 _) (bindingDelim_not_mem_ofInt64 _) hchars
  obtain ⟨htype, hchars⟩ :=
    cut_unique (not_mem_of_hasChar hh.1) (not_mem_of_hasChar hg.1) hchars
  obtain ⟨hsignature, hchars⟩ :=
    cut_unique (not_mem_of_hasChar hh.2) (not_mem_of_hasChar hg.2) hchars
  obtain ⟨hflag, hplatform⟩ :=
    cut_unique (keyDelim_not_mem_ofBool _) (keyDelim_not_mem_ofBool _) hchars
  exact ⟨String.toList_injective hdigest, Text.ofInt64_inj (String.toList_injective hindex),
    String.toList_injective htype, String.toList_injective hsignature,
    Text.ofBool_inj (String.toList_injective hflag), String.toList_injective hplatform⟩

/-! ### The cache along a run -/

/-- A call: inputs for a handle, if there is one, under a signal. -/
structure Call where
  handle : Option Handle
  inputs : List (Option Tensor)
  signal : Signal := .never

/-- The results of calls made one after the other. -/
def serve (x : Executor) : List Call → List (Except Failure (List Tensor))
  | [] => []
  | c :: more =>
    (x.execute c.signal c.inputs c.handle).1 ::
      serve (x.execute c.signal c.inputs c.handle).2.2 more

/-- **The cache is backed** by handles: each engine in it is what one of them with its key loads
into. -/
structure Backed (x : Executor) (handles : List Handle) : Prop where
  isCaching : x.isCaching = true
  isClosed : x.isClosed = false
  engines : ∀ kept ∈ x.engines,
    ∃ g ∈ handles, cacheKey g = kept.1 ∧ load x.runtimes g = .ok kept.2

/-- Handles that load alike where they are kept under one key. -/
def Separated (handles : List Handle) : Prop :=
  ∀ h ∈ handles, ∀ g ∈ handles, cacheKey h = cacheKey g → h.LoadsLike g

variable {x y : Executor} {handles : List Handle}

/-- Found in the cache. -/
theorem keptEngine_hit {h : Handle} {e : Engine} (hopen : x.isClosed = false)
    (hlookup : x.engines.lookup (cacheKey h) = some e) : x.keptEngine h = .ok (e, [], x) := by
  rw [Executor.keptEngine, if_neg (Bool.eq_false_iff.mp hopen), hlookup]

/-- Not found in the cache: loaded, and kept behind the others. -/
theorem keptEngine_miss {h : Handle} (hopen : x.isClosed = false)
    (hlookup : x.engines.lookup (cacheKey h) = none) :
    x.keptEngine h = (load x.runtimes h).map fun e =>
      (e, [.engineOpened e.bytes], { x with engines := x.engines ++ [(cacheKey h, e)] }) := by
  rw [Executor.keptEngine, if_neg (Bool.eq_false_iff.mp hopen), hlookup]
  cases load x.runtimes h with
  | error f => rfl
  | ok e => rfl

section Kept

variable (hcaching : x.isCaching = true) {h : Handle} {inputs : List (Option Tensor)}
  {given : List Tensor} (hgiven : checkInputs h inputs = .ok given) (signal : Signal)

include hcaching hgiven

/-- A call that is handed no engine. -/
theorem execute_of_keptEngine_error {f : Failure} (hkept : x.keptEngine h = .error f) :
    x.execute signal inputs (some h) = (.error f, signal, x) := by
  unfold execute run
  dsimp only
  rw [hgiven]
  dsimp only
  rw [if_pos hcaching, hkept]
  dsimp only
  rw [note_nil]

/-- A call on an engine of the cache. -/
theorem execute_of_keptEngine_ok {e : Engine} {opened : List Entry} {x' : Executor}
    (hkept : x.keptEngine h = .ok (e, opened, x')) :
    x.execute signal inputs (some h) =
      ((runEngine e h signal given).result, (runEngine e h signal given).signal,
        x'.note (opened ++ (runEngine e h signal given).entries)) := by
  unfold execute run
  dsimp only
  rw [hgiven]
  dsimp only
  rw [if_pos hcaching, hkept]

end Kept

/-- What the cache hands out for a handle is alike to what the handle loads into, and the cache
stays backed. -/
theorem Backed.keptEngine (hbacked : x.Backed handles) {hosts : List HostConfig}
    (hruntimes : x.runtimes = hosts.map PlanRuntime.runtime) (hsep : Separated handles) {h : Handle}
    (hmem : h ∈ handles) :
    (∃ f, x.keptEngine h = .error f ∧ load x.runtimes h = .error f) ∨
      ∃ e opened x' d, x.keptEngine h = .ok (e, opened, x') ∧ load x.runtimes h = .ok d ∧
        e.Alike d ∧ x'.Backed handles ∧ x'.runtimes = x.runtimes := by
  cases hlookup : x.engines.lookup (cacheKey h) with
  | some e =>
    -- A hit: the engine was loaded for some handle of the same key.
    obtain ⟨g, hg, hkey, hload⟩ := hbacked.engines _ (mem_of_lookup hlookup)
    have hagree := load_agree (hsep g hg h hmem hkey) hosts
    rw [← hruntimes, hload] at hagree
    -- Of the fresh engine only that it agrees with the kept one matters.
    generalize load x.runtimes h = fresh at hagree
    cases hagree with
    | ok halike =>
      exact .inr ⟨e, [], x, _, keptEngine_hit hbacked.isClosed hlookup, rfl, halike, hbacked, rfl⟩
  | none =>
    rw [keptEngine_miss hbacked.isClosed hlookup]
    cases hload : load x.runtimes h with
    | error f => exact .inl ⟨f, rfl, rfl⟩
    | ok e =>
      -- A miss: the engine is kept, backed by this very handle.
      refine .inr ⟨e, _, _, e, rfl, rfl, .refl e, ⟨hbacked.isCaching, hbacked.isClosed, ?_⟩, rfl⟩
      intro kept hkept
      rcases List.mem_append.mp hkept with hold | hnew
      · exact hbacked.engines kept hold
      · rw [List.mem_singleton.mp hnew]
        exact ⟨h, hmem, rfl, hload⟩

/-- **One call.** It ends as it does on an engine of its own, and leaves the cache backed. -/
theorem Backed.execute (hbacked : x.Backed handles) {hosts : List HostConfig}
    (hruntimes : x.runtimes = hosts.map PlanRuntime.runtime) (hsep : Separated handles)
    (hplain : y.isCaching = false) (hsame : y.runtimes = x.runtimes) (signal : Signal)
    (inputs : List (Option Tensor)) {h : Option Handle} (hmem : ∀ g ∈ h, g ∈ handles) :
    SameOutcome (x.execute signal inputs h).1 (y.execute signal inputs h).1 ∧
      (x.execute signal inputs h).2.2.Backed handles ∧
      (x.execute signal inputs h).2.2.runtimes = x.runtimes := by
  cases h with
  | none => exact ⟨.refl _, hbacked, rfl⟩
  | some h =>
    -- Inputs that do not pass never reach the cache.
    cases hinputs : checkInputs h inputs with
    | error f =>
      unfold Executor.execute Executor.run
      dsimp only
      rw [hinputs]
      dsimp only
      rw [note_nil]
      exact ⟨.refl _, hbacked, rfl⟩
    | ok present =>
      have hfresh : (y.execute signal inputs (some h)).1 = (y.runOnce h signal present).result := by
        unfold Executor.execute Executor.run
        dsimp only
        rw [hinputs]
        dsimp only
        rw [if_neg (Bool.eq_false_iff.mp hplain)]
      rw [hfresh, runOnce, hsame]
      obtain ⟨f, hkept, hload⟩ | ⟨e, opened, x', d, hkept, hload, halike, hbacked', hruntimes'⟩ :=
        hbacked.keptEngine hruntimes hsep (hmem h rfl)
      · rw [execute_of_keptEngine_error hbacked.isCaching hinputs signal hkept, hload]
        exact ⟨.refl _, hbacked, rfl⟩
      · rw [execute_of_keptEngine_ok hbacked.isCaching hinputs signal hkept, hload]
        exact ⟨runEngine_agree halike h signal present,
          ⟨hbacked'.isCaching, hbacked'.isClosed, hbacked'.engines⟩, hruntimes'⟩

/-- **All calls.** -/
theorem Backed.serve (hbacked : x.Backed handles) {hosts : List HostConfig}
    (hruntimes : x.runtimes = hosts.map PlanRuntime.runtime) (hsep : Separated handles)
    (hplain : y.isCaching = false) (hsame : y.runtimes = x.runtimes) {calls : List Call}
    (hmem : ∀ c ∈ calls, ∀ h ∈ c.handle, h ∈ handles) :
    List.Forall₂ SameOutcome (x.serve calls) (y.serve calls) := by
  -- The cache changes from call to call, and so does the journal of the other executor.
  induction calls generalizing x y with
  | nil => exact .nil
  | cons c more ih =>
    obtain ⟨hfirst, hbacked', hruntimes'⟩ := hbacked.execute hruntimes hsep hplain hsame c.signal
      c.inputs (hmem c (List.mem_cons.mpr (.inl rfl)))
    obtain ⟨hsame', hplain'⟩ := execute_keeps hplain c.signal c.inputs c.handle
    refine .cons hfirst (ih hbacked' (hruntimes'.trans hruntimes) hplain'
      (hsame'.trans (hsame.trans hruntimes'.symm)) ?_)
    exact fun c' hc' => hmem c' (List.mem_cons.mpr (.inr hc'))

/-- **Keeping engines changes no result.** Of two executors over the same plan runtimes the one
keeps its engines and the other does not: whatever calls they serve, each call ends with the same
tensors on both or with failures of the same kinds on both, if the texts of the handles keep clear
of the marks in a key and no two of their payloads share a digest. -/
theorem results_agree_when_kept {hosts : List HostConfig} {opening opening' : Ledger}
    {keeping plain : Executor}
    (hkeeping : make (hosts.map PlanRuntime.runtime) true opening = .ok keeping)
    (hplain : make (hosts.map PlanRuntime.runtime) false opening' = .ok plain) {calls : List Call}
    (hdelimited : ∀ h ∈ calls.filterMap (·.handle), h.isDelimited = true)
    (hdigest : ∀ h ∈ calls.filterMap (·.handle), ∀ g ∈ calls.filterMap (·.handle),
      h.digest = g.digest → h.engine = g.engine) :
    List.Forall₂ SameOutcome (keeping.serve calls) (plain.serve calls) := by
  have hsep : Separated (calls.filterMap (·.handle)) := by
    intro h hh g hg hkey
    obtain ⟨hsame, -, htype, -, hflag, -⟩ :=
      cacheKey_separates (hdelimited h hh) (hdelimited g hg) hkey
    exact ⟨hdigest h hh g hg hsame, htype, hflag⟩
  have hmem : ∀ c ∈ calls, ∀ h ∈ c.handle, h ∈ calls.filterMap (·.handle) :=
    fun c hc h hh => List.mem_filterMap.mpr ⟨c, hc, hh⟩
  -- An executor is made over at least one runtime, or not at all; that holds for both alike.
  unfold make at hkeeping hplain
  split at hkeeping
  next => cases hkeeping
  next hsome =>
    rw [if_neg hsome] at hplain
    cases hkeeping
    cases hplain
    have hbacked : Backed { runtimes := hosts.map PlanRuntime.runtime, isCaching := true, opening }
        (calls.filterMap (·.handle)) := ⟨rfl, rfl, fun _ hkept => absurd hkept List.not_mem_nil⟩
    refine hbacked.serve rfl hsep ?_ ?_ hmem
    · rfl
    · rfl

end Executor

/-- Built to be hardware compatible. -/
def compatibleHandle : Handle :=
  (BuildConfig.buildTextHandle { hardwareCompatible := true } "two" copyThenRectify).toOption.get
    (by decide +kernel)

/-- The same handle under another name. -/
def compatibleTwin : Handle :=
  (Handle.make { compatibleHandle.toHandleParts with name := "twin" }).toOption.get
    (by decide +kernel)

/-- Runs plans and keeps their engines. -/
def planKeeper : Executor :=
  { planExecutor with isCaching := true }

/-- The twin is served by the engine of the other; its second call leaves out the input. -/
def twinCalls : List Executor.Call :=
  [⟨some compatibleHandle, [some twoOnes], .never⟩, ⟨some compatibleTwin, [some twoOnes], .never⟩,
    ⟨some compatibleTwin, [none], .never⟩]

set_option maxRecDepth 20000 in
theorem engine_twinCalls :
    ∀ h ∈ twinCalls.filterMap (·.handle), h.engine = compatibleHandle.engine := by
  decide +kernel

theorem Executor.results_agree_when_kept_twins :
    (∀ h ∈ twinCalls.filterMap (·.handle), h.isDelimited = true) ∧
      List.Forall₂ SameOutcome (planKeeper.serve twinCalls) (planExecutor.serve twinCalls) := by
  have hdelimited : ∀ h ∈ twinCalls.filterMap (·.handle), h.isDelimited = true := by
    decide +kernel
  refine ⟨hdelimited, @results_agree_when_kept [{}] {} {} _ _ rfl rfl twinCalls hdelimited ?_⟩
  intro h hh g hg _
  exact (engine_twinCalls h hh).trans (engine_twinCalls g hg).symm

/-- The handle for another signature, flag and platform. -/
def Handle.relabelled (h : Handle) (signature : String) (flag : Bool) (platform : String) :
    Except Malformed Handle :=
  make { h.toHandleParts with
    device := ⟨.cpu, signature⟩, hardwareCompatible := flag, targetPlatform := platform }

/-- Compatible as it was built. The signature goes on as the rest of a key would. -/
def barredSignature : Handle :=
  (compatibleHandle.relabelled "a|false|p" true "q").toOption.get (by decide +kernel)

/-- Not compatible, so it does not load. The platform begins with the end of the other's key. -/
def barredPlatform : Handle :=
  (compatibleHandle.relabelled "a" false "p|true|q").toOption.get (by decide +kernel)

/-- A call for each of the two. -/
def barredCalls : List Executor.Call :=
  [⟨some barredSignature, [some twoOnes], .never⟩, ⟨some barredPlatform, [some twoOnes], .never⟩]

set_option maxRecDepth 20000 in
theorem isOk_serve_planKeeper : (planKeeper.serve barredCalls).map (·.isOk) = [true, true] := by
  decide +kernel

set_option maxRecDepth 20000 in
theorem isOk_serve_planExecutor :
    (planExecutor.serve barredCalls).map (·.isOk) = [true, false] := by
  decide +kernel

/-- **A kept engine is taken for another handle's.** The two keys are one text, so the second call,
which fails on an engine of its own, is served by the engine of the first. -/
theorem Executor.kept_engine_taken_for_another :
    make [PlanRuntime.runtime {}] true {} = .ok planKeeper ∧
      make [PlanRuntime.runtime {}] false {} = .ok planExecutor ∧
      ¬List.Forall₂ SameOutcome (planKeeper.serve barredCalls)
        (planExecutor.serve barredCalls) := by
  -- One call ends well on the one executor and fails on the other.
  refine ⟨rfl, rfl, fun hall => ?_⟩
  have hok : List.Forall₂ (· = ·) ((planKeeper.serve barredCalls).map (·.isOk))
      ((planExecutor.serve barredCalls).map (·.isOk)) :=
    List.forall₂_map_left_iff.mpr
      (List.forall₂_map_right_iff.mpr (hall.imp fun _ _ => Agree.isOk_eq))
  rw [List.forall₂_eq_eq_eq, isOk_serve_planKeeper, isOk_serve_planExecutor] at hok
  exact absurd hok (by decide)

end EngineHost
