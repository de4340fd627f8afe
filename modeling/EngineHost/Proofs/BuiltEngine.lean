import EngineHost.Engine.Backends
import EngineHost.Proofs.HandleExport
import EngineHost.Proofs.RuntimeStages
import EngineHost.Proofs.ShapeInference
import EngineHost.Proofs.WireExact

/-!
# Running what was built

A handle that was built from a network carries the network in its payload and in its metadata.
`Handle.BuiltFrom h d` says which parts of the handle come from which parts of the draft; it holds
of every handle that `BuildConfig.buildTextHandle` returns, and exporting the handle loses none of
it (`Handle.BuiltFrom.deserialize_flatten`).

A run of such a handle goes through loading, the names, the profiles, the shapes and the kernels,
and each of these may refuse. `Handle.Ran` collects what a run that succeeded has shown on the way,
in terms of the network alone: that the inputs were accepted, which shapes were inferred, and what
came out. Nothing else about runtimes and contexts is needed to compare the run with anything.
-/

namespace EngineHost

/-! ### Handles built from a draft -/

/-- **A handle built from a draft.** -/
structure Handle.BuiltFrom (h : Handle) (d : NetworkDraft) : Prop where
  valid : d.network.validate = .ok ()
  ranks : ∀ i ∈ d.network.inputs, i.min.length ≤ 255
  payload : ∃ p, Wire.decode h.engine = .ok p ∧ p.network = d.network
  device : h.device.device = .cpu
  inputNames : h.inputNames = d.network.inputNames.map Bytes.toText
  outputNames : h.outputNames = d.outputs.map Bytes.toText
  metadata : h.metadata = (d.deriveMetadata Bytes.toText).normalized
  defaults : h.toHandleParts.withDefaults = h.toHandleParts

/-- What building a handle returns is built from the draft. -/
theorem Handle.builtFrom_of_buildTextHandle {c : BuildConfig} {name : String} {d : NetworkDraft}
    {h : Handle} (hwidths : d.network.FitsWidths) (hbuild : c.buildTextHandle name d = .ok h) :
    h.BuiltFrom d := by
  obtain ⟨engine, hengine, hbuild⟩ := bind_eq_ok_iff.mp hbuild
  have hparts := Handle.toHandleParts_of_make (mapError_eq_ok_iff.mp hbuild)
  -- Building checks the network, so a handle that was built has a valid one.
  unfold BuildConfig.build at hengine
  split at hengine
  next => cases hengine
  next hvalid =>
  have hdecode := Wire.decode_of_encode rfl hvalid hwidths (mapError_eq_ok_iff.mp hengine)
  -- All parts but the payload are as they were handed to the constructor.
  refine ⟨hvalid, hwidths.ranks, ⟨c.compile d.network, ?_, rfl⟩, ?_, ?_, ?_, ?_, ?_⟩
  · rw [hparts]
    exact hdecode
  · rw [hparts]
    rfl
  · rw [hparts]
    rfl
  · rw [hparts]
    rfl
  · rw [hparts]
    rfl
  · rw [hparts, HandleParts.withDefaults_idem]

/-- A built handle comes back from its exported form. -/
theorem Handle.BuiltFrom.deserialize_flatten {h : Handle} {d : NetworkDraft}
    (hbuilt : h.BuiltFrom d) : Handle.deserialize h.flatten = .ok h := by
  obtain ⟨hsignature, hdelim, -, -⟩ := h.checked
  -- The device of a build is the processor, and that has a text form.
  refine Handle.deserialize_flatten (DeviceInfo.parse_text ?_ ?_ hsignature hdelim) hbuilt.defaults
  · rw [hbuilt.device]
    exact .inl rfl
  · rw [hbuilt.device]
    decide

/-! ### Runs that succeeded -/

namespace Executor

/-- What is kept between runs stays as it is where nothing is cached. -/
theorem execute_keeps {x : Executor} (hcaching : x.isCaching = false) (signal : Signal)
    (inputs : List (Option Tensor)) (h : Option Handle) :
    (x.execute signal inputs h).2.2.runtimes = x.runtimes ∧
      (x.execute signal inputs h).2.2.isCaching = false := by
  cases h with
  | none => exact ⟨rfl, hcaching⟩
  | some h =>
    -- Without a cache a call only ever notes something in the journal.
    unfold execute run
    dsimp only
    split
    next => exact ⟨rfl, hcaching⟩
    next =>
      rw [if_neg (by rw [hcaching]; decide)]
      exact ⟨rfl, hcaching⟩

/-- Inputs that pass are all there, and on the device of the handle. -/
theorem presentInputs_ok {h : Handle} {names : List String} {inputs present : List Tensor}
    (hlen : inputs.length = names.length)
    (hok : presentInputs h names (inputs.map some) = .ok present) :
    present = inputs ∧ ∀ t ∈ inputs, t.device.same h.device.device = true := by
  -- Names and inputs are taken in step, so the two lists are equally long all the way.
  induction names generalizing inputs present with
  | nil =>
    obtain rfl := List.length_eq_zero_iff.mp hlen
    cases hok
    exact ⟨rfl, by simp⟩
  | cons name more ih =>
    cases inputs with
    | nil => cases hlen
    | cons t rest =>
      rw [List.map_cons, presentInputs] at hok
      split at hok
      next => cases hok
      next hdevice =>
      obtain ⟨present', hpresent, rfl⟩ := map_eq_ok_iff.mp hok
      obtain ⟨rfl, hrest⟩ := ih (Nat.succ.inj hlen) hpresent
      exact ⟨rfl, List.forall_mem_cons.mpr ⟨by simpa using hdevice, hrest⟩⟩

/-- **The steps of a run that succeeded**, where nothing is cached. -/
theorem execute_ok {x : Executor} (hcaching : x.isCaching = false) {signal : Signal}
    {inputs outs : List Tensor} {h : Handle}
    (hok : (x.execute signal (inputs.map some) (some h)).1 = .ok outs) :
    inputs.length = h.inputNames.length ∧
    (∀ t ∈ inputs, t.device.same h.device.device = true) ∧
    ∃ e c bound promised results, load x.runtimes h = .ok e ∧ checkNames e h = .ok () ∧
      e.context = .ok c ∧ bindInputs c h [] (h.inputNames.zip inputs) = .ok bound ∧
      outputShapes c h bound h.outputNames = .ok promised ∧
      (c.execute bound signal ((h.inputNames.map Bytes.ofText).zip inputs)).result = .ok results ∧
      takeOutputs h results (h.outputNames.zip promised) = .ok outs := by
  -- One guard after the other: whatever a guard refuses has no result.
  unfold execute run at hok
  dsimp only at hok
  split at hok
  next => cases hok
  next present hpresent =>
  rw [if_neg (by rw [hcaching]; decide)] at hok
  unfold checkInputs at hpresent
  split at hpresent
  next => cases hpresent
  next hlen =>
  rw [not_not, List.length_map] at hlen
  obtain ⟨rfl, hdevices⟩ := presentInputs_ok hlen hpresent
  refine ⟨hlen, hdevices, ?_⟩
  unfold runOnce at hok
  split at hok
  next => cases hok
  next e he =>
  unfold runEngine at hok
  dsimp only at hok
  split at hok
  next => cases hok
  next hnames =>
  split at hok
  next => cases hok
  next c hc =>
  unfold runContext at hok
  dsimp only at hok
  split at hok
  next => cases hok
  next bound hbound =>
  split at hok
  next => cases hok
  next promised hpromised =>
  split at hok
  next => cases hok
  next results hresults =>
  exact ⟨e, c, bound, promised, results, he, hnames, hc, hbound, hpromised, hresults, hok⟩

end Executor

/-- Every runtime that a choice of backends opens is one of the two there are. -/
theorem Backends.of_mem_openChoice {lib : OnnxLibrary} {host : HostConfig} {choice : String}
    {runtimes : List Runtime} (hopen : (Backends.all lib).openChoice host choice = .ok runtimes)
    {r : Runtime} (hr : r ∈ runtimes) :
    (∃ host, r = OnnxRuntime.runtime lib host) ∨ ∃ host, r = PlanRuntime.runtime host := by
  unfold openChoice at hopen
  -- Which names are opened does not matter, only that each of them is known.
  generalize (if choice = "" ∨ choice = auto then (Backends.all lib).names else [choice]) = names
    at hopen
  induction names generalizing runtimes with
  | nil =>
    cases hopen
    cases hr
  | cons name more ih =>
    rw [List.mapM_cons] at hopen
    obtain ⟨first, hfirst, hopen⟩ := bind_eq_ok_iff.mp hopen
    obtain ⟨rest, hrest, hopen⟩ := bind_eq_ok_iff.mp hopen
    cases hopen
    rcases List.mem_cons.mp hr with rfl | hr
    · unfold openNamed at hfirst
      split at hfirst
      next factory hfactory =>
        cases hfirst
        have hmem := mem_of_lookup hfactory
        -- Two backends are registered, and a known name is one of theirs.
        simp only [Backends.all, List.mem_cons, Prod.mk.injEq, List.not_mem_nil, or_false] at hmem
        rcases hmem with ⟨-, rfl⟩ | ⟨-, rfl⟩
        · exact .inl ⟨_, rfl⟩
        · exact .inr ⟨_, rfl⟩
      next => cases hfirst
    · exact ih hr hrest

/-- What loads was loaded by one of the runtimes, which accepts the payload. -/
theorem Executor.exists_runtime_of_load {runtimes : List Runtime} {h : Handle} {e : Engine}
    (hload : load runtimes h = .ok e) :
    ∃ r ∈ runtimes, r.accepts h.engine = true ∧ r.load h.engine h.loadOptions = .ok e := by
  obtain ⟨r, ⟨before, after, hsplit, haccepts, -⟩, he⟩ := load_eq_ok_iff.mp hload
  exact ⟨r, by simp [hsplit], haccepts, he⟩

/-- A plan does not start like a model. -/
theorem OnnxRuntime.refuses_plan {payload : Bytes} {p : CompiledPlan}
    (hp : Wire.decode payload = .ok p) : accepts payload = false := by
  -- A payload that can be decoded starts with the mark of plans.
  obtain ⟨-, -, -, flags, -, rfl⟩ := (Wire.decode_eq_ok_iff payload p).mp hp
  rfl

/-- What loads at all from a payload that holds a plan is that plan, whatever the library for ONNX
graphs would make of it. -/
theorem Executor.load_ok {lib : OnnxLibrary} {host : HostConfig} {choice : String}
    {runtimes : List Runtime} (hopen : (Backends.all lib).openChoice host choice = .ok runtimes)
    {h : Handle} {e : Engine}
    (hload : load runtimes h = .ok e) {p : CompiledPlan} (hp : Wire.decode h.engine = .ok p) :
    ∃ pe : PlanEngine, pe.network = p.network ∧ e.inputNames = pe.network.inputNames ∧
      e.outputNames = pe.network.outputs ∧ e.context = .ok pe.context := by
  obtain ⟨r, hr, haccepts, he⟩ := exists_runtime_of_load hload
  rcases Backends.of_mem_openChoice hopen hr with ⟨host, rfl⟩ | ⟨host, rfl⟩
  · -- The other backend never sees the payload.
    exact absurd haccepts (Bool.eq_false_iff.mp (OnnxRuntime.refuses_plan hp))
  · obtain ⟨pe, hpe, rfl⟩ := map_eq_ok_iff.mp he
    unfold PlanRuntime.loadPlan at hpe
    rw [hp] at hpe
    dsimp only at hpe
    split at hpe
    next => cases hpe
    next =>
    cases hpe
    exact ⟨_, rfl, rfl, rfl, rfl⟩

/-! ### The steps of a run on a plan -/

/-- A tensor that was made has what it was made of. -/
theorem Tensor.of_make_ok {device : Device} {elements : Elements} {shape : Shape} {t : Tensor}
    (h : Tensor.make device elements shape = .ok t) :
    t.elements = elements ∧ t.shape = shape ∧ t.device = device := by
  unfold Tensor.make at h
  split at h
  next =>
    split at h
    next => cases h
    next =>
      split at h
      next => cases h; exact ⟨rfl, rfl, rfl⟩
      next => cases h
  next => cases h

section PlanRun

variable {pe : PlanEngine} {h : Handle}

/-- Shapes that were bound are what the profiles accept. -/
theorem Executor.bindInputs_ok (hnodup : pe.network.inputNames.Nodup) {inputs : List NetworkInput}
    (hsub : ∀ i ∈ inputs, i ∈ pe.network.inputs) {names : List String} {tensors : List Tensor}
    (hnames : inputs.map (·.name) = names.map Bytes.ofText) (hlen : tensors.length = names.length)
    {bound bound' : Bindings}
    (hok : bindInputs pe.context h bound (names.zip tensors) = .ok bound') :
    List.Forall₂ (fun i t => Accepts i t.shape) inputs tensors ∧
      bound' = ((inputs.zip tensors).map fun x => (x.1.name, x.2.shape)).reverse ++ bound := by
  -- Each binding goes in front, so in the end they stand in reverse.
  induction inputs generalizing names tensors bound with
  | nil =>
    obtain rfl := List.map_eq_nil_iff.mp hnames.symm
    obtain rfl := List.length_eq_zero_iff.mp hlen
    cases hok
    exact ⟨.nil, rfl⟩
  | cons i more ih =>
    obtain ⟨name, names, rfl⟩ : ∃ name rest, names = name :: rest :=
      List.exists_cons_of_ne_nil (by rintro rfl; cases hnames)
    obtain ⟨t, tensors, rfl⟩ : ∃ t rest, tensors = t :: rest :=
      List.exists_cons_of_ne_nil (by rintro rfl; cases hlen)
    rw [List.map_cons, List.map_cons, List.cons.injEq] at hnames
    obtain ⟨hname, hnames⟩ := hnames
    rw [List.zip_cons_cons, bindInputs, ← hname] at hok
    split at hok
    next => cases hok
    next hbind =>
    obtain ⟨_, hbind, -⟩ := map_eq_ok_iff.mp hbind
    -- The network has an input of that name, so binding it was a matter of its profile.
    obtain ⟨haccepts, -⟩ := (PlanEngine.bind_eq_ok_iff hnodup (hsub i (by simp))).mp hbind
    rw [Shape.getD_stated] at haccepts
    obtain ⟨hrest, rfl⟩ := ih (fun j hj => hsub j (by simp [hj])) hnames (Nat.succ.inj hlen) hok
    refine ⟨.cons haccepts hrest, ?_⟩
    rw [List.zip_cons_cons, List.map_cons, List.reverse_cons, List.append_assoc]
    rfl

/-- Inputs that were taken are in single precision. -/
theorem PlanEngine.takeInputs_float32 {given : List (Bytes × Option Tensor)}
    {inputs : List NetworkInput} {bound bound' : Bindings} {buffers buffers' : Buffers}
    (hok : pe.takeInputs given bound buffers inputs = (.ok buffers', bound')) :
    ∀ i ∈ inputs, ∃ t, (given.lookup i.name).join = some t ∧ t.dtype = .float32 := by
  induction inputs generalizing bound buffers with
  | nil => simp
  | cons i more ih =>
    rw [takeInputs] at hok
    split at hok
    next => cases hok
    next values mid htake =>
    refine List.forall_mem_cons.mpr ⟨?_, ih hok⟩
    unfold takeInput at htake
    split at htake
    next => cases htake
    next t ht =>
    refine ⟨t, ht, ?_⟩
    -- Elements of any other kind have been refused.
    split at htake
    next values helements =>
      rw [Tensor.dtype, helements]
      rfl
    next => cases htake

/-- Outputs that were given are in single precision. -/
theorem PlanEngine.giveOutputs_float32 {shapes : Bindings} {buffers : Buffers} {names : List Bytes}
    {outs : List (Bytes × Option Tensor)} (hok : pe.giveOutputs shapes buffers names = .ok outs) :
    ∀ x ∈ outs, ∀ t, x.2 = some t → t.dtype = .float32 := by
  induction names generalizing outs with
  | nil =>
    cases hok
    simp
  | cons name more ih =>
    rw [giveOutputs] at hok
    split at hok
    next => cases hok
    next t ht =>
    obtain ⟨rest, hrest, rfl⟩ := map_eq_ok_iff.mp hok
    refine List.forall_mem_cons.mpr ⟨?_, ih hrest⟩
    rintro t' heq
    cases heq
    rw [Tensor.dtype, (Tensor.of_make_ok ht).1]
    rfl

/-- An execution that succeeded took its inputs and gave its outputs. -/
theorem PlanEngine.execute_ok {bound : Bindings} {signal : Signal}
    {given results : List (Bytes × Option Tensor)}
    (hok : (pe.execute bound signal given).1.result = .ok results) :
    (∀ i ∈ pe.network.inputs, ∃ t, (given.lookup i.name).join = some t ∧ t.dtype = .float32) ∧
      ∀ x ∈ results, ∀ t, x.2 = some t → t.dtype = .float32 := by
  -- Whatever stops an execution before its end leaves no result.
  unfold execute at hok
  split at hok
  next => cases hok
  next =>
  split at hok
  next => cases hok
  next htake =>
  split at hok
  next => cases hok
  next =>
  split at hok
  next => cases hok
  next => exact ⟨takeInputs_float32 htake, giveOutputs_float32 hok⟩

theorem Executor.outputShapes_ok {bound : Bindings} {names : List String}
    {promised : List (Option Shape)}
    (hok : outputShapes pe.context h bound names = .ok promised) :
    List.Forall₂ (fun name p => ∃ shape, p = some shape ∧
      pe.outputShape bound (Bytes.ofText name) = .ok shape) names promised := by
  refine (outputShapes_eq_ok_iff.mp hok).imp fun name p hpromises => ?_
  obtain ⟨shape, hshape, hp⟩ := map_eq_ok_iff.mp hpromises
  exact ⟨shape, hp.symm, hshape⟩

theorem PlanEngine.outputShape_ok {bound : Bindings} {name : Bytes} {shape : Shape}
    (hok : pe.outputShape bound name = .ok shape) :
    ∃ shapes, pe.shapes bound = .ok shapes ∧ shapes.lookup name = some shape := by
  unfold outputShape at hok
  split at hok
  next => cases hok
  next shapes hshapes =>
  split at hok
  next shape' hshape' =>
    split at hok
    next =>
      cases hok
      exact ⟨shapes, hshapes, hshape'⟩
    next => cases hok
  next => cases hok

/-- There is an output, so asking for the shapes of the outputs infers all shapes. -/
theorem PlanEngine.exists_shapes {ranks : Ranks} (hsound : pe.network.Sound ranks)
    {names : List String} (hout : pe.network.outputs = names.map Bytes.ofText) {bound : Bindings}
    {promised : List (Option Shape)}
    (hwanted : List.Forall₂ (fun name p => ∃ shape, p = some shape ∧
      pe.outputShape bound (Bytes.ofText name) = .ok shape) names promised) :
    ∃ shapes, pe.shapes bound = .ok shapes := by
  -- Were no shape asked for, there would be no output, and a sound network has one.
  cases hwanted with
  | nil => exact absurd hout hsound.outputs_ne_nil
  | cons hfirst _ =>
    obtain ⟨shape, -, hshape⟩ := hfirst
    obtain ⟨shapes, hshapes, -⟩ := outputShape_ok hshape
    exact ⟨shapes, hshapes⟩

/-- The results taken are those of the names, of the promised shapes and on the handle's device. -/
theorem Executor.takeOutputs_ok {results : List (Bytes × Option Tensor)}
    {wanted : List (String × Option Shape)} {outs : List Tensor}
    (hok : takeOutputs h results wanted = .ok outs) :
    List.Forall₂ (fun x t => (∀ shape, x.2 = some shape → shape = t.shape) ∧
      t.device.same h.device.device = true ∧
      ∃ t₀, (Bytes.ofText x.1, some t₀) ∈ results ∧ t.dtype = t₀.dtype) wanted outs := by
  refine (takeOutputs_delivered hok).imp fun x out hdelivered => ?_
  obtain ⟨t, hlookup, -, hdtype, -⟩ := hdelivered.result
  exact ⟨fun shape hpromised => (hdelivered.shape shape hpromised).symm, hdelivered.device, t,
    mem_of_lookup hlookup, hdtype⟩

end PlanRun

/-- **What a run shows** of a network: the inputs are what the profiles accept, in single precision;
the shapes follow from theirs; and the outputs have these shapes, in single precision again. -/
structure Handle.Ran (h : Handle) (net : Network) (inputs outs : List Tensor) : Prop where
  inputNames : net.inputNames = h.inputNames.map Bytes.ofText
  outputNames : net.outputs = h.outputNames.map Bytes.ofText
  devices : ∀ t ∈ inputs, t.device.same h.device.device = true
  shown : ∃ (sizes : NetworkInput → Shape) (shapes : Bindings),
    List.Forall₂ (fun i t => sizes i = t.shape ∧ Accepts i t.shape ∧ t.dtype = .float32)
      net.inputs inputs ∧
    ShapedLayers (net.inputTable sizes) net.layers shapes ∧
    List.Forall₂ (fun name t => shapes.lookup name = some t.shape ∧ t.dtype = .float32 ∧
      t.device.same h.device.device = true) net.outputs outs

section Fed

variable {β : Type} {net : Network} (hnodup : net.inputNames.Nodup) {tensors : List Tensor}
  (hcount : tensors.length = net.inputs.length)

include hnodup hcount

/-- The names of inputs beside their tensors stay distinct. -/
theorem Network.zip_nodup (f : Tensor → β) :
    (((net.inputs.zip tensors).map fun x => (x.1.name, f x.2)).map (·.1)).Nodup := by
  have hnames : (net.inputs.zip tensors).map (fun x => x.1.name) = net.inputNames := by
    change (net.inputs.zip tensors).map (NetworkInput.name ∘ Prod.fst) = _
    rw [← List.map_map, List.map_fst_zip (by omega)]
    rfl
  rw [List.map_map]
  exact hnames ▸ hnodup

variable {i : NetworkInput} {t : Tensor} (hx : (i, t) ∈ net.inputs.zip tensors)

include hx

/-- What belongs to the tensor of an input is found under the name of the input. -/
theorem Network.lookup_zip (f : Tensor → β) :
    ((net.inputs.zip tensors).map fun x => (x.1.name, f x.2)).lookup i.name = some (f t) :=
  lookup_eq_some_of_mem (Network.zip_nodup hnodup hcount f) (List.mem_map.mpr ⟨_, hx, rfl⟩)

/-- Later bindings stand in front; with distinct names that makes no difference. -/
theorem Network.lookup_zip_reverse (f : Tensor → β) :
    (((net.inputs.zip tensors).map fun x => (x.1.name, f x.2)).reverse).lookup i.name =
      some (f t) := by
  refine lookup_eq_some_of_mem ?_ (List.mem_reverse.mpr (List.mem_map.mpr ⟨_, hx, rfl⟩))
  rw [List.map_reverse, List.nodup_reverse]
  exact Network.zip_nodup hnodup hcount f

end Fed

/-- Two relations one after the other, the second of which has seen both sides of the first. -/
theorem forall₂_through {R : α → β → Prop} {S : α × β → γ → Prop} {T : α → γ → Prop} {as : List α}
    {bs : List β} {cs : List γ} (h : List.Forall₂ R as bs) (h' : List.Forall₂ S (as.zip bs) cs)
    (hT : ∀ a b c, R a b → S (a, b) c → T a c) : List.Forall₂ T as cs := by
  induction h generalizing cs with
  | nil =>
    cases h'
    exact .nil
  | cons hR _ ih =>
    cases h' with
    | cons hS hrest => exact .cons (hT _ _ _ hR hS) (ih hrest)

section PlanRan

variable {pe : PlanEngine} {h : Handle}
  (hnodup : pe.network.inputNames.Nodup)
  (hin : pe.network.inputNames = h.inputNames.map Bytes.ofText) {inputs : List Tensor}
  (hcount : inputs.length = pe.network.inputs.length)

include hnodup hin hcount

/-- Every input is bound to the shape of its tensor, which its profile accepts. -/
theorem PlanEngine.bound_ok (hlen : inputs.length = h.inputNames.length) {bound : Bindings}
    (hbound : Executor.bindInputs pe.context h [] (h.inputNames.zip inputs) = .ok bound) :
    List.Forall₂ (fun i t => bound.lookup i.name = some t.shape ∧ Accepts i t.shape)
      pe.network.inputs inputs := by
  obtain ⟨haccepts, rfl⟩ := Executor.bindInputs_ok hnodup (fun _ hi => hi) hin hlen hbound
  rw [List.append_nil]
  exact List.forall₂_iff_zip.mpr ⟨hcount.symm, fun hx =>
    ⟨Network.lookup_zip_reverse hnodup hcount hx Tensor.shape,
      (List.forall₂_iff_zip.mp haccepts).2 hx⟩⟩

/-- The tensors an execution was handed over, and those it gave, are in single precision. -/
theorem PlanEngine.handed_float32 {bound : Bindings} {signal : Signal}
    {results : List (Bytes × Option Tensor)}
    (hresults : (pe.context.execute bound signal
      ((h.inputNames.map Bytes.ofText).zip inputs)).result = .ok results) :
    List.Forall₂ (fun _ t => t.dtype = .float32) pe.network.inputs inputs ∧
      ∀ x ∈ results, ∀ t, x.2 = some t → t.dtype = .float32 := by
  -- The runtime hands tensors over by name, and the names are those of the inputs in order.
  have hfeed : ((h.inputNames.map Bytes.ofText).zip inputs).map (fun x => (x.1, some x.2)) =
      (pe.network.inputs.zip inputs).map fun x => (x.1.name, some x.2) := by
    rw [← hin, Network.inputNames, List.zip_map_left, List.map_map]
    rfl
  change (pe.execute _ signal (((h.inputNames.map Bytes.ofText).zip inputs).map
    fun x => (x.1, some x.2))).1.result = .ok results at hresults
  rw [hfeed] at hresults
  obtain ⟨htaken, hgiven⟩ := PlanEngine.execute_ok hresults
  refine ⟨List.forall₂_iff_zip.mpr ⟨hcount.symm, fun {i t} hx => ?_⟩, hgiven⟩
  obtain ⟨t', ht', hdtype⟩ := htaken i (List.of_mem_zip hx).1
  rw [Network.lookup_zip hnodup hcount hx some] at ht'
  cases ht'
  exact hdtype

end PlanRan

/-- The steps of a run on a plan, put together. -/
theorem PlanEngine.ran {pe : PlanEngine} {ranks : Ranks} (hsound : pe.network.Sound ranks)
    {h : Handle} (hin : pe.network.inputNames = h.inputNames.map Bytes.ofText)
    (hout : pe.network.outputs = h.outputNames.map Bytes.ofText) {inputs outs : List Tensor}
    (hlen : inputs.length = h.inputNames.length)
    (hdevices : ∀ t ∈ inputs, t.device.same h.device.device = true) {bound : Bindings}
    {signal : Signal} {promised : List (Option Shape)} {results : List (Bytes × Option Tensor)}
    (hbound : Executor.bindInputs pe.context h [] (h.inputNames.zip inputs) = .ok bound)
    (hpromised : Executor.outputShapes pe.context h bound h.outputNames = .ok promised)
    (hresults : (pe.context.execute bound signal
      ((h.inputNames.map Bytes.ofText).zip inputs)).result = .ok results)
    (houts : Executor.takeOutputs h results (h.outputNames.zip promised) = .ok outs) :
    h.Ran pe.network inputs outs := by
  have hnodup := hsound.inputs_nodup
  have hcount : inputs.length = pe.network.inputs.length := by
    rw [hlen, ← List.length_map (f := Bytes.ofText), ← hin, Network.inputNames, List.length_map]
  have haccepted := PlanEngine.bound_ok hnodup hin hcount hlen hbound
  obtain ⟨htaken, hgiven⟩ := PlanEngine.handed_float32 hnodup hin hcount hresults
  -- The shapes are inferred once, whichever output they are asked for.
  have hwanted := Executor.outputShapes_ok hpromised
  obtain ⟨shapes, hshapes⟩ := PlanEngine.exists_shapes hsound hout hwanted
  -- What was bound has the rank of the profile, as the profile has accepted it.
  have hranks : ∀ i ∈ pe.network.inputs, ∀ s, bound.lookup i.name = some s →
      s.length = i.min.length := by
    intro i hi s hs
    obtain ⟨k, hk⟩ := List.mem_iff_getElem?.mp hi
    obtain ⟨t, -, hshape, haccepts⟩ := forall₂_getElem? haccepted hk
    obtain rfl := Option.some.inj (hshape.symm.trans hs)
    exact haccepts.rank
  obtain ⟨-, hlayers, -⟩ := PlanEngine.shapes_ok hsound hranks hshapes
  refine ⟨hin, hout, hdevices, fun i => (bound.lookup i.name).getD [], shapes, ?_, hlayers, ?_⟩
  · -- An input: its size is what it was bound to.
    refine List.forall₂_iff_zip.mpr ⟨hcount.symm, fun {i t} hx => ?_⟩
    obtain ⟨hshape, haccepts⟩ := (List.forall₂_iff_zip.mp haccepted).2 hx
    refine ⟨?_, haccepts, (List.forall₂_iff_zip.mp htaken).2 hx⟩
    dsimp only
    rw [hshape]
    rfl
  · -- An output: its shape was promised, and a tensor of another shape would have been refused.
    rw [hout, List.forall₂_map_left_iff]
    refine forall₂_through hwanted (Executor.takeOutputs_ok houts) ?_
    rintro name _ t ⟨shape, rfl, hshape⟩ ⟨hsame, hdevice, t₀, hmem, hdtype⟩
    obtain rfl := hsame shape rfl
    obtain ⟨shapes', hshapes', hlookup⟩ := PlanEngine.outputShape_ok hshape
    obtain rfl : shapes = shapes' := Except.ok.inj (hshapes.symm.trans hshapes')
    exact ⟨hlookup, hdtype.trans (hgiven _ hmem t₀ rfl), hdevice⟩

/-- A built handle that ran on the backends there are, with nothing cached, ran its network. -/
theorem Handle.BuiltFrom.ran {h : Handle} {d : NetworkDraft} (hbuilt : h.BuiltFrom d)
    {x : Executor} (hcaching : x.isCaching = false) {lib : OnnxLibrary} {host : HostConfig}
    {choice : String} (hopen : (Backends.all lib).openChoice host choice = .ok x.runtimes)
    {signal : Signal} {inputs outs : List Tensor}
    (hok : (x.execute signal (inputs.map some) (some h)).1 = .ok outs) :
    h.Ran d.network inputs outs := by
  obtain ⟨ranks, hsound⟩ := Network.sound_of_validate hbuilt.valid
  obtain ⟨p, hp, hnet⟩ := hbuilt.payload
  obtain ⟨hlen, hdevices, e, c, bound, promised, results, hload, hnames, hc, hbound, hpromised,
    hresults, houts⟩ := Executor.execute_ok hcaching hok
  obtain ⟨pe, hpe, hin, hout, hcontext⟩ := Executor.load_ok hopen hload hp
  obtain ⟨hnamesIn, hnamesOut⟩ := Executor.checkNames_eq_ok_iff.mp hnames
  -- The context that was used is that of the plan, as there is no other.
  rw [hcontext] at hc
  cases hc
  rw [← hnet, ← hpe] at hsound ⊢
  exact PlanEngine.ran hsound (hin ▸ hnamesIn) (hout ▸ hnamesOut) hlen hdevices hbound hpromised
    hresults houts

end EngineHost
