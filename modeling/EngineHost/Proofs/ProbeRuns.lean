import EngineHost.Proofs.CacheTransparency
import EngineHost.Proofs.Tracing

/-!
# What a probe depends on

A probe runs a handle once on zeros and keeps the descriptors of what came out. `Tracer.probeOnce`
is that run by itself, over plan runtimes: it finds the same for two handles that record the same
payload, device, flag and binding names (`Handle.ProbesLike`), on inputs of the same element types
and sizes (`Tracer.probeOnce_like`). The rest of a handle is its name, which stands in failures
only, its platform, which a plan does not ask for, and its metadata, which is not looked at.

The inputs may be on devices that are spelled differently, so the zeros are not the same tensors:
plans run on elements and shapes, wherever they are (`Executor.runEngine_elsewhere`).
-/

namespace EngineHost

/-! ### Inputs on another device -/

theorem Tensor.moveTo_moveTo (t : Tensor) (d e : Device) : (t.moveTo d).moveTo e = t.moveTo e :=
  rfl

/-- A tensor can be made on any device if it can be made on one. -/
theorem Tensor.make_elsewhere {device : Device} {elements : Elements} {shape : Shape} {t : Tensor}
    (hok : make device elements shape = .ok t) (device' : Device) :
    make device' elements shape = .ok (t.moveTo device') := by
  unfold make at hok ⊢
  split at hok
  next hstatic =>
    rw [dif_pos hstatic]
    split at hok
    next => cases hok
    next n hn =>
    split at hok
    next hfits =>
      cases hok
      rw [dif_pos hfits]
      rfl
    next => cases hok
  next => cases hok

/-- Zeros are the same everywhere. -/
theorem Tensor.zeros_elsewhere {dtype : DType} {shape : Shape} {device : Device} {t : Tensor}
    (hok : zeros dtype shape device = .ok t) (device' : Device) :
    zeros dtype shape device' = .ok (t.moveTo device') := by
  unfold zeros at hok ⊢
  split at hok
  next => cases hok
  next =>
  split at hok
  next => cases hok
  next =>
  split at hok
  next hroom =>
    rw [if_pos hroom]
    exact make_elsewhere hok device'
  next => cases hok

namespace PlanEngine

variable (e : PlanEngine) (d : Device)

/-- What a plan is given, on another device. -/
def elsewhere (given : List (Bytes × Option Tensor)) : List (Bytes × Option Tensor) :=
  given.map fun x => (x.1, x.2.map (·.moveTo d))

/-- What is looked up on another device is what is looked up, moved. -/
theorem lookup_elsewhere (given : List (Bytes × Option Tensor)) (name : Bytes) :
    ((elsewhere d given).lookup name).join = ((given.lookup name).join).map (·.moveTo d) := by
  induction given with
  | nil => rfl
  | cons x more ih =>
    rw [elsewhere, List.map_cons, List.lookup_cons, List.lookup_cons]
    split
    next => rfl
    next => exact ih

/-- An input is taken by its element type, its shape and its elements. -/
theorem takeInput_elsewhere (bound : Bindings) (input : NetworkInput)
    (given : List (Bytes × Option Tensor)) :
    e.takeInput bound input (elsewhere d given) = e.takeInput bound input given := by
  unfold takeInput
  rw [lookup_elsewhere]
  cases (given.lookup input.name).join with
  | none => rfl
  | some t => rfl

theorem takeInputs_elsewhere (given : List (Bytes × Option Tensor)) (bound : Bindings)
    (buffers : Buffers) (inputs : List NetworkInput) :
    e.takeInputs (elsewhere d given) bound buffers inputs =
      e.takeInputs given bound buffers inputs := by
  -- Bindings and buffers grow from input to input, so both are arbitrary.
  induction inputs generalizing bound buffers with
  | nil => rfl
  | cons input more ih =>
    unfold takeInputs
    rw [takeInput_elsewhere]
    split
    next => rfl
    next => exact ih _ _

/-- A plan runs on elements and shapes, wherever they are. -/
theorem execute_elsewhere (bound : Bindings) (signal : Signal)
    (given : List (Bytes × Option Tensor)) :
    e.execute bound signal (elsewhere d given) = e.execute bound signal given := by
  unfold execute
  rw [takeInputs_elsewhere]

end PlanEngine

namespace Executor

/-- Inputs are bound by their shapes. -/
theorem bindInputs_elsewhere (c : Context) (h : Handle) (d : Device) (bound : Bindings)
    (names : List String) (inputs : List Tensor) :
    bindInputs c h bound (names.zip (inputs.map (·.moveTo d))) =
      bindInputs c h bound (names.zip inputs) := by
  induction inputs generalizing names bound with
  | nil => simp
  | cons t more ih =>
    cases names with
    | nil => rfl
    | cons name names =>
      rw [List.map_cons, List.zip_cons_cons, List.zip_cons_cons, bindInputs, bindInputs]
      have hshape : (t.moveTo d).shape = t.shape := rfl
      rw [hshape]
      split
      next => rfl
      next => exact ih _ _

/-- A context of a plan does not see where its inputs are. -/
theorem runContext_elsewhere (pe : PlanEngine) (h : Handle) (signal : Signal) (d : Device)
    (inputs : List Tensor) :
    runContext pe.context h signal (inputs.map (·.moveTo d)) =
      runContext pe.context h signal inputs := by
  -- What the context is fed with is the same, moved.
  have hfeed : ∀ bound, pe.context.execute bound signal
      ((h.inputNames.map Bytes.ofText).zip (inputs.map (·.moveTo d))) =
        pe.context.execute bound signal ((h.inputNames.map Bytes.ofText).zip inputs) := by
    intro bound
    have hmoved : (((h.inputNames.map Bytes.ofText).zip (inputs.map (·.moveTo d))).map
        fun x => (x.1, some x.2)) = PlanEngine.elsewhere d
          (((h.inputNames.map Bytes.ofText).zip inputs).map fun x => (x.1, some x.2)) := by
      rw [PlanEngine.elsewhere, List.zip_map_right, List.map_map, List.map_map]
      rfl
    have hexecute := congrArg Prod.fst (pe.execute_elsewhere d bound signal
      (((h.inputNames.map Bytes.ofText).zip inputs).map fun x => (x.1, some x.2)))
    rw [← hmoved] at hexecute
    exact hexecute
  unfold runContext
  rw [bindInputs_elsewhere]
  simp only [hfeed]

/-- **An engine of a plan does not see where its inputs are.** -/
theorem runEngine_elsewhere (pe : PlanEngine) (bytes : Int64) (h : Handle) (signal : Signal)
    (d : Device) (inputs : List Tensor) :
    runEngine (PlanRuntime.engineOf pe bytes) h signal (inputs.map (·.moveTo d)) =
      runEngine (PlanRuntime.engineOf pe bytes) h signal inputs := by
  have hcontext : (PlanRuntime.engineOf pe bytes).context = .ok pe.context := rfl
  unfold runEngine
  rw [hcontext]
  dsimp only
  rw [runContext_elsewhere]

end Executor

/-! ### Handles that record the same -/

/-- Handles that differ in nothing a probe depends on. -/
structure Handle.ProbesLike (h g : Handle) : Prop where
  engine : h.engine = g.engine
  device : h.device.device = g.device.device
  hardwareCompatible : h.hardwareCompatible = g.hardwareCompatible
  inputNames : h.inputNames = g.inputNames
  outputNames : h.outputNames = g.outputNames

namespace Executor

variable {h g : Handle} {c : Context}

/-- The name of a handle stands only in failures. -/
theorem bindInputs_like {bound final : Bindings} {inputs : List (String × Tensor)}
    (hok : bindInputs c g bound inputs = .ok final) : bindInputs c h bound inputs = .ok final := by
  induction inputs generalizing bound with
  | nil => exact hok
  | cons input more ih =>
    rw [bindInputs] at hok ⊢
    split at hok
    next => cases hok
    next => exact ih hok

/-- Promised shapes do not depend on the name of a handle. -/
theorem outputShapes_like {bound : Bindings} {names : List String} {shapes : List (Option Shape)}
    (hok : outputShapes c g bound names = .ok shapes) :
    outputShapes c h bound names = .ok shapes := by
  induction names generalizing shapes with
  | nil => exact hok
  | cons name more ih =>
    rw [outputShapes] at hok ⊢
    split at hok
    next => cases hok
    next =>
      obtain ⟨rest, hrest, rfl⟩ := map_eq_ok_iff.mp hok
      rw [ih hrest]
      rfl

/-- Outputs are placed on the device of the handle. -/
theorem takeOutputs_like (hdevice : h.device.device = g.device.device)
    {results : List (Bytes × Option Tensor)} {wanted : List (String × Option Shape)}
    {outs : List Tensor} (hok : takeOutputs g results wanted = .ok outs) :
    takeOutputs h results wanted = .ok outs := by
  induction wanted generalizing outs with
  | nil => exact hok
  | cons x more ih =>
    rw [takeOutputs] at hok ⊢
    split at hok
    next => cases hok
    next t ht =>
    split at hok
    next => cases hok
    next hshape =>
    obtain ⟨rest, hrest, rfl⟩ := map_eq_ok_iff.mp hok
    rw [if_neg hshape, ih hrest, hdevice]
    rfl

/-- What a context gives to one handle, it gives to the other. -/
theorem runContext_like (hlike : h.ProbesLike g) {signal : Signal} {inputs outs : List Tensor}
    (hok : (runContext c g signal inputs).1 = .ok outs) :
    (runContext c h signal inputs).1 = .ok outs := by
  unfold runContext at hok ⊢
  rw [hlike.inputNames, hlike.outputNames]
  split at hok
  next => cases hok
  next bound hbound =>
  split at hok
  next => cases hok
  next promised hpromised =>
  dsimp only at hok
  rw [bindInputs_like hbound]
  dsimp only
  rw [outputShapes_like hpromised]
  dsimp only
  split at hok
  next => cases hok
  next => exact takeOutputs_like hlike.device hok

/-- **What a handle's engine gives, it gives to any handle that records the same.** -/
theorem runEngine_like (hlike : h.ProbesLike g) {e : Engine} {signal : Signal}
    {inputs outs : List Tensor} (hok : (runEngine e g signal inputs).result = .ok outs) :
    (runEngine e h signal inputs).result = .ok outs := by
  -- The names are compared with those of the engine, and are the same.
  have hnames : checkNames e h = checkNames e g := by
    rw [checkNames, checkNames, hlike.inputNames, hlike.outputNames]
  unfold runEngine at hok ⊢
  rw [hnames]
  split at hok
  next => cases hok
  next =>
  split at hok
  next => cases hok
  next => exact runContext_like hlike hok

/-! ### Calls without a cache -/

variable {x : Executor}

/-- A call where nothing is cached: its steps in order. -/
theorem execute_eq (hcaching : x.isCaching = false) (signal : Signal)
    (inputs : List (Option Tensor)) (h : Handle) :
    (x.execute signal inputs (some h)).1 = checkInputs h inputs >>= fun present =>
      load x.runtimes h >>= fun e => (runEngine e h signal present).result := by
  unfold execute run
  dsimp only
  cases checkInputs h inputs with
  | error f => rfl
  | ok present =>
    dsimp only
    rw [if_neg (Bool.eq_false_iff.mp hcaching), runOnce]
    cases load x.runtimes h with
    | error f => rfl
    | ok e => rfl

/-- Inputs on the device of the handle are all taken. -/
theorem presentInputs_of_same {names : List String} {inputs : List Tensor}
    (hdevices : ∀ t ∈ inputs, t.device.same h.device.device = true)
    (hlen : inputs.length = names.length) :
    presentInputs h names (inputs.map some) = .ok inputs := by
  induction inputs generalizing names with
  | nil =>
    obtain rfl := List.length_eq_zero_iff.mp hlen.symm
    rfl
  | cons t more ih =>
    cases names with
    | nil => cases hlen
    | cons name names =>
      rw [List.forall_mem_cons] at hdevices
      rw [List.map_cons, presentInputs, hdevices.1, ih hdevices.2 (Nat.succ.inj hlen)]
      rfl

/-- As many inputs as names, all of them in place, pass the check. -/
theorem checkInputs_of_same {inputs : List Tensor}
    (hdevices : ∀ t ∈ inputs, t.device.same h.device.device = true)
    (hlen : inputs.length = h.inputNames.length) :
    checkInputs h (inputs.map some) = .ok inputs := by
  rw [checkInputs, List.length_map, if_neg (not_not.mpr hlen), presentInputs_of_same hdevices hlen]

/-- There is a promise for every name. -/
theorem length_of_outputShapes {bound : Bindings} {names : List String}
    {promised : List (Option Shape)} (hok : outputShapes c h bound names = .ok promised) :
    promised.length = names.length := by
  induction names generalizing promised with
  | nil =>
    cases hok
    rfl
  | cons name more ih =>
    rw [outputShapes] at hok
    split at hok
    next => cases hok
    next =>
      obtain ⟨rest, hrest, rfl⟩ := map_eq_ok_iff.mp hok
      rw [List.length_cons, List.length_cons, ih hrest]

/-- What a handle loads into is a plan of the size of the payload. -/
theorem load_plan {hosts : List HostConfig} {e : Engine}
    (hload : load (hosts.map PlanRuntime.runtime) h = .ok e) :
    ∃ pe bytes, bytes = Int64.ofNat h.engine.length ∧ e = PlanRuntime.engineOf pe bytes := by
  obtain ⟨r, hr, -, he⟩ := exists_runtime_of_load hload
  obtain ⟨host, -, rfl⟩ := List.mem_map.mp hr
  obtain ⟨pe, -, rfl⟩ := map_eq_ok_iff.mp he
  exact ⟨pe, _, rfl, rfl⟩

/-- **Calls that end with the same tensors**: for handles that record the same, on inputs that
differ in where they are. -/
theorem execute_like (hcaching : x.isCaching = false) {hosts : List HostConfig}
    (hruntimes : x.runtimes = hosts.map PlanRuntime.runtime) (hlike : h.ProbesLike g)
    {signal : Signal} {given given' outs : List Tensor} {d : Device}
    (hmoved : given'.map (·.moveTo d) = given.map (·.moveTo d))
    (hplaced : ∀ t ∈ given', t.device.same h.device.device = true)
    (hok : (x.execute signal (given.map some) (some g)).1 = .ok outs) :
    (x.execute signal (given'.map some) (some h)).1 = .ok outs := by
  rw [execute_eq hcaching] at hok ⊢
  obtain ⟨present, hpresent, hok⟩ := bind_eq_ok_iff.mp hok
  obtain ⟨e, hload, hrun⟩ := bind_eq_ok_iff.mp hok
  -- The inputs of the one call passed its check, so there are as many as names.
  have hlen : given.length = g.inputNames.length := by
    unfold checkInputs at hpresent
    split at hpresent
    next => cases hpresent
    next hcount => rw [← not_not.mp hcount, List.length_map]
  obtain rfl : present = given := by
    rw [checkInputs, List.length_map, if_neg (not_not.mpr hlen)] at hpresent
    exact (presentInputs_ok hlen hpresent).1
  have hlen' : given'.length = h.inputNames.length := by
    rw [hlike.inputNames, ← hlen, ← List.length_map (f := (·.moveTo d)), hmoved, List.length_map]
  -- The engine of the one handle is alike to the engine of the other, and is a plan.
  have hloads : g.LoadsLike h :=
    ⟨hlike.engine.symm, congrArg Device.typeName hlike.device.symm, hlike.hardwareCompatible.symm⟩
  have hagree := load_agree hloads hosts
  rw [← hruntimes, hload] at hagree
  generalize hload' : load x.runtimes h = loaded at hagree
  cases hagree with
  | ok halike =>
    obtain ⟨pe, bytes, -, rfl⟩ := load_plan (hruntimes ▸ hload')
    -- What the other engine gives to the first handle it gives to the second, wherever the inputs
    -- are.
    have hsame := runEngine_agree halike g signal present
    rw [hrun] at hsame
    generalize hrun' : (runEngine (PlanRuntime.engineOf pe bytes) g signal present).result = result
      at hsame
    cases hsame with
    | ok heq =>
      subst heq
      refine bind_eq_ok_iff.mpr ⟨given', checkInputs_of_same hplaced hlen',
        bind_eq_ok_iff.mpr ⟨_, rfl, ?_⟩⟩
      rw [← runEngine_elsewhere pe bytes h signal d, hmoved, runEngine_elsewhere]
      exact runEngine_like hlike hrun'

end Executor

/-! ### What a probe finds -/

/-- Descriptors that differ in the device at most. -/
structure Descriptor.SameForm (d e : Descriptor) : Prop where
  dtype : d.dtype = e.dtype
  shape : d.shape = e.shape

namespace Tracer

/-- What a probe finds with nothing to recall. -/
def probeOnce (x : Executor) (h : Handle) (inputs : List Descriptor) :
    Except Failure (List Descriptor) := do
  let tensors ← zeros h 0 inputs
  let outs ← (x.execute .never tensors (some h)).1
  pure (outs.map (·.descriptor))

variable {h g : Handle} {inputs others : List Descriptor}

/-- Zeros for descriptors of the same form: the same, up to where they are. -/
theorem zeros_sameForm (hform : List.Forall₂ Descriptor.SameForm inputs others) {i j : Nat}
    {tensors : List (Option Tensor)} (hok : zeros g j others = .ok tensors) (d : Device) :
    ∃ given given' : List Tensor, tensors = given.map some ∧
      zeros h i inputs = .ok (given'.map some) ∧
      given'.map (·.moveTo d) = given.map (·.moveTo d) ∧
      given'.map (·.device) = inputs.map (·.device) := by
  -- The numbers of the inputs stand in failures only, so they may differ.
  induction hform generalizing i j tensors with
  | nil =>
    cases hok
    exact ⟨[], [], rfl, rfl, rfl, rfl⟩
  | @cons a b _ _ hab _ ih =>
    rw [zeros] at hok
    split at hok
    next => cases hok
    next => cases hok
    next t ht =>
    obtain ⟨rest, hrest, rfl⟩ := map_eq_ok_iff.mp hok
    obtain ⟨given, given', rfl, hzeros, hmoved, hdevices⟩ := ih (i := i + 1) hrest
    -- Only the device differs, and zeros are the same on every device.
    have ht' : Tensor.zeros a.dtype a.shape a.device = .ok (t.moveTo a.device) := by
      rw [hab.dtype, hab.shape]
      exact Tensor.zeros_elsewhere ht a.device
    refine ⟨t :: given, t.moveTo a.device :: given', rfl, ?_, ?_, ?_⟩
    · rw [zeros, ht', hzeros]
      rfl
    · rw [List.map_cons, List.map_cons, hmoved, Tensor.moveTo_moveTo]
    · rw [List.map_cons, List.map_cons, hdevices]
      rfl

/-- **Probes that find the same**: of handles that record the same, on descriptors of the same
form. -/
theorem probeOnce_like {x : Executor} (hcaching : x.isCaching = false) {hosts : List HostConfig}
    (hruntimes : x.runtimes = hosts.map PlanRuntime.runtime) (hlike : h.ProbesLike g)
    (hform : List.Forall₂ Descriptor.SameForm inputs others)
    (hdevices : ∀ d ∈ inputs, d.device.same h.device.device = true) {found : List Descriptor}
    (hok : probeOnce x g others = .ok found) : probeOnce x h inputs = .ok found := by
  obtain ⟨tensors, hzeros, hprobe⟩ := bind_eq_ok_iff.mp hok
  obtain ⟨outs, hexecute, hfound⟩ := bind_eq_ok_iff.mp hprobe
  obtain ⟨given, given', rfl, hzeros', hmoved, hplaces⟩ :=
    zeros_sameForm (h := h) (i := 0) hform hzeros .cpu
  -- The zeros are where the descriptors say.
  have hplaced : ∀ t ∈ given', t.device.same h.device.device = true := by
    intro t ht
    have hmem : t.device ∈ given'.map Tensor.device := List.mem_map_of_mem ht
    rw [hplaces] at hmem
    obtain ⟨d, hd, heq⟩ := List.mem_map.mp hmem
    exact heq ▸ hdevices d hd
  have hexecute' := Executor.execute_like hcaching hruntimes hlike hmoved hplaced hexecute
  exact bind_eq_ok_iff.mpr ⟨_, hzeros', bind_eq_ok_iff.mpr ⟨outs, hexecute', hfound⟩⟩

end Tracer

end EngineHost
