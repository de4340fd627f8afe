import EngineHost.Engine.Scripted
import EngineHost.Proofs.ProbeRuns

/-!
# What holds over any runtimes

Engines may have other names than the handle, shapes may be promised and not kept, results may be
missing, given twice or given for names nobody asked for, and failures may be of any kind. What a
caller can rely on comes from the executor's own checks.

`Executor.Stops` says at which stage a call that keeps no engine stops, and what the runtime said
there; `Stage.Reports` says what the caller is told for it. The theorem at the end,
`Executor.execute_contract`, says that these are all the ways a call can end: with outputs that
`Handle.Delivered` describes, or stopped at a stage and reported as that stage reports.
-/

namespace EngineHost

/-! ### Inputs -/

/-- **The tensors that a handle takes**: all of them there, as many as it binds, on its device. -/
structure Handle.Accepts (h : Handle) (inputs : List (Option Tensor)) (given : List Tensor) :
    Prop where
  present : inputs = given.map some
  count : given.length = h.inputNames.length
  devices : ∀ t ∈ given, t.device.same h.device.device = true

namespace Executor

variable {h : Handle}

/-- Inputs that pass the check are all there. -/
theorem presentInputs_present {names : List String} {inputs : List (Option Tensor)}
    (hlen : inputs.length = names.length) {given : List Tensor}
    (hok : presentInputs h names inputs = .ok given) : inputs = given.map some := by
  -- Inputs and names are taken in step, as there are as many.
  induction inputs generalizing names given with
  | nil =>
    cases names with
    | nil =>
      cases hok
      rfl
    | cons => cases hlen
  | cons input more ih =>
    cases names with
    | nil => cases hlen
    | cons name names =>
      cases input with
      | none => cases hok
      | some t =>
        rw [presentInputs] at hok
        split at hok
        next => cases hok
        next =>
          obtain ⟨rest, hrest, rfl⟩ := map_eq_ok_iff.mp hok
          rw [List.map_cons, ← ih (Nat.succ.inj hlen) hrest]

/-- **What the check of inputs asks.** -/
theorem checkInputs_eq_ok_iff {inputs : List (Option Tensor)} {given : List Tensor} :
    checkInputs h inputs = .ok given ↔ h.Accepts inputs given := by
  constructor
  · intro hok
    unfold checkInputs at hok
    split at hok
    next => cases hok
    next hlen =>
    have hlen : inputs.length = h.inputNames.length := not_not.mp hlen
    obtain rfl := presentInputs_present hlen hok
    rw [List.length_map] at hlen
    exact ⟨rfl, hlen, (presentInputs_ok hlen hok).2⟩
  · rintro ⟨rfl, hlen, hdevices⟩
    rw [checkInputs, if_neg (by rw [List.length_map]; exact not_not.mpr hlen)]
    exact presentInputs_of_same hdevices hlen

end Executor

/-! ### Stages -/

/-- The stages of a call, by what the runtime is asked. -/
inductive Stage where
  | selecting
  | loading
  | naming
  | opening
  | binding
  | shaping
  | executing
  | taking
  deriving DecidableEq, Repr

/-- **A call stops at a stage**, all stages before it passed; with what the runtime said, where it
was a failure of the runtime's. -/
inductive Executor.Stops (runtimes : List Runtime) (h : Handle) (signal : Signal)
    (given : List Tensor) : Stage → Option Failure → Prop
  | selecting (hnone : ∀ r ∈ runtimes, r.accepts h.engine = false) :
      Stops runtimes h signal given .selecting none
  | loading {r : Runtime} {g : Failure} (hr : Runtime.Takes runtimes h.engine r)
      (hload : r.load h.engine h.loadOptions = .error g) :
      Stops runtimes h signal given .loading (some g)
  | naming {e : Engine} (he : h.LoadsAs runtimes e) (hdiffer : ¬e.Named h) :
      Stops runtimes h signal given .naming none
  | opening {e : Engine} {g : Failure} (he : h.LoadsAs runtimes e) (hnamed : e.Named h)
      (hcontext : e.context = .error g) : Stops runtimes h signal given .opening (some g)
  | binding {c : Context} {before after : List (String × Tensor)} {name : String} {t : Tensor}
      {bound : Bindings} {g : Failure} (hc : h.Opens runtimes c)
      (hpairs : h.inputNames.zip given = before ++ (name, t) :: after)
      (hbefore : c.Binds [] before bound)
      (hbind : c.bind bound (.ofText name) t.shape.stated? = .error g) :
      Stops runtimes h signal given .binding (some g)
  | shaping {c : Context} {before after : List String} {name : String} {bound : Bindings}
      {promised : List (Option Shape)} {g : Failure} (hc : h.Opens runtimes c)
      (hbound : c.Binds [] (h.inputNames.zip given) bound)
      (hnames : h.outputNames = before ++ name :: after)
      (hbefore : List.Forall₂ (c.Promises bound) before promised)
      (hshape : c.outputShape bound (.ofText name) = .error g) :
      Stops runtimes h signal given .shaping (some g)
  | executing {c : Context} {bound : Bindings} {promised : List (Option Shape)} {g : Failure}
      (hc : h.Opens runtimes c) (hready : c.Readied h given bound promised)
      (hrun : (c.execute bound signal ((h.inputNames.map Bytes.ofText).zip given)).result =
        .error g) :
      Stops runtimes h signal given .executing (some g)
  | taking {c : Context} {bound : Bindings} {promised : List (Option Shape)}
      {results : List (Bytes × Option Tensor)} {x : String × Option Shape}
      (hc : h.Opens runtimes c) (hready : c.Readied h given bound promised)
      (hrun : (c.execute bound signal ((h.inputNames.map Bytes.ofText).zip given)).result =
        .ok results)
      (hx : x ∈ h.outputNames.zip promised) (hlacks : LacksResult results x.1 x.2) :
      Stops runtimes h signal given .taking none

/-- **What a caller is told** of a call that stopped: before there is an engine, a failure to load,
whatever it came from; for shapes, a failure to bind, and the runtime's own if it was one; for an
execution, a failure of the kinds of the runtime's, and the runtime's own if it was one to bind or
the caller gave up. -/
def Stage.Reports (stage : Stage) (said : Option Failure) (told : Failure) : Prop :=
  match stage with
  | .selecting => told.is .loading = true
  | .loading => told.is .loading = true ∧
      ∀ g, said = some g → ∀ k, g.is k = true → told.is k = true
  | .naming => told.is .malformed = true
  | .opening => ∀ g, said = some g → ∀ k, told.is k = g.is k
  | .binding | .shaping => told.is .shapeBinding = true ∧
      ∀ g, said = some g → g.is .shapeBinding = true → told = g
  | .executing => ∀ g, said = some g → (∀ k, told.is k = g.is k) ∧
      (g.is .shapeBinding = true ∨ g.isInterrupted = true → told = g)
  | .taking => ∀ k, told.is k = false

namespace Executor

/-! ### Calls -/

/-- The stages that a context is asked in, one after the other. -/
def throughContext (c : Context) (h : Handle) (signal : Signal) (given : List Tensor) :
    Except Failure (List Tensor) := do
  let bound ← bindInputs c h [] (h.inputNames.zip given)
  let promised ← outputShapes c h bound h.outputNames
  let results ← (c.execute bound signal ((h.inputNames.map Bytes.ofText).zip given)).result.mapError
    (executionFailure h)
  takeOutputs h results (h.outputNames.zip promised)

/-- A context is asked in this order. -/
theorem runContext_result (c : Context) (h : Handle) (signal : Signal) (given : List Tensor) :
    (runContext c h signal given).1 = throughContext c h signal given := by
  unfold runContext throughContext
  -- Each stage that fails ends the call with its failure, on both sides.
  rcases bindInputs c h [] (h.inputNames.zip given) with f | bound
  · rfl
  simp only [ok_bind]
  rcases outputShapes c h bound h.outputNames with f | promised
  · rfl
  simp only [ok_bind]
  rcases (c.execute bound signal
    ((h.inputNames.map Bytes.ofText).zip given)).result with f | results
  · rfl
  · rfl

/-- The stages behind loading. -/
theorem runEngine_result (e : Engine) (h : Handle) (signal : Signal) (given : List Tensor) :
    (runEngine e h signal given).result = checkNames e h >>= fun _ =>
      e.context.mapError (.within ("engine " ++ Text.quote h.name ++
        ": create execution context")) >>= fun c => throughContext c h signal given := by
  unfold runEngine
  -- The names are looked at first, and then a context is opened.
  rcases checkNames e h with f | ⟨⟩
  · rfl
  rcases e.context with f | c
  · rfl
  · exact runContext_result c h signal given

section Calls

variable {x : Executor} (hcaching : x.isCaching = false) {signal : Signal}
  {inputs : List (Option Tensor)} {h : Handle} {given : List Tensor}
  (haccepts : h.Accepts inputs given)

include hcaching haccepts

/-- Where the inputs are accepted, a call loads and then runs. -/
theorem execute_accepted : (x.execute signal inputs (some h)).1 =
    load x.runtimes h >>= fun e => (runEngine e h signal given).result := by
  rw [execute_eq hcaching, checkInputs_eq_ok_iff.mpr haccepts]
  rfl

/-- Where a context is opened, a call goes through it. -/
theorem execute_opened {c : Context} (hc : h.Opens x.runtimes c) :
    (x.execute signal inputs (some h)).1 = throughContext c h signal given := by
  obtain ⟨e, he, hnamed, hcontext⟩ := hc
  rw [execute_accepted hcaching haccepts, load_eq_ok_iff.mpr he]
  change (runEngine e h signal given).result = _
  rw [runEngine_result, checkNames_eq_ok_iff.mpr hnamed, hcontext]
  rfl

/-- Where a context is readied, a call executes it and takes the outputs. -/
theorem execute_readied {c : Context} (hc : h.Opens x.runtimes c) {bound : Bindings}
    {promised : List (Option Shape)} (hready : c.Readied h given bound promised) :
    (x.execute signal inputs (some h)).1 =
      (c.execute bound signal ((h.inputNames.map Bytes.ofText).zip given)).result.mapError
        (executionFailure h) >>= fun results =>
      takeOutputs h results (h.outputNames.zip promised) := by
  rw [execute_opened hcaching haccepts hc, throughContext,
    bindInputs_eq_ok_iff.mpr hready.binds]
  simp only [ok_bind, outputShapes_eq_ok_iff.mpr hready.promises]

end Calls

/-- A refused shape is reported as such, and a failure that says so already is passed on. -/
theorem bindingFailure_reports (h : Handle) (name : String) (shape : Option Shape) (g : Failure) :
    (bindingFailure h name shape g).is .shapeBinding = true ∧
      (g.is .shapeBinding = true → bindingFailure h name shape g = g) := by
  unfold bindingFailure
  split
  next hkind => exact ⟨hkind, fun _ => rfl⟩
  next hkind => exact ⟨rfl, fun h => absurd h hkind⟩

/-- A failed execution keeps its kinds; a refused shape and an interruption are passed on. -/
theorem executionFailure_reports (h : Handle) (g : Failure) :
    (∀ k, (executionFailure h g).is k = g.is k) ∧
      (g.is .shapeBinding = true ∨ g.isInterrupted = true → executionFailure h g = g) := by
  unfold executionFailure
  split
  next => exact ⟨fun _ => rfl, fun _ => rfl⟩
  next hkind => exact ⟨fun _ => rfl, fun hkept => absurd (by simpa using hkept) hkind⟩

/-- **A call that stops is reported** as its stage reports. -/
theorem Stops.reported {x : Executor} (hcaching : x.isCaching = false) {signal : Signal}
    {inputs : List (Option Tensor)} {h : Handle} {given : List Tensor}
    (haccepts : h.Accepts inputs given) {stage : Stage} {said : Option Failure}
    (hstops : Stops x.runtimes h signal given stage said) :
    ∃ told, (x.execute signal inputs (some h)).1 = .error told ∧ stage.Reports said told := by
  have hexecute : (x.execute signal inputs (some h)).1 =
      load x.runtimes h >>= fun e => (runEngine e h signal given).result :=
    execute_accepted hcaching haccepts
  -- One case for each stage: all before it pass, so that its failure is what is told.
  cases hstops with
  | selecting hnone =>
    obtain ⟨f, hf⟩ := load_of_not_taken hnone
    rw [hexecute, hf]
    exact ⟨_, rfl, rfl⟩
  | @loading r g hr hload =>
    rw [hexecute, load_of_refused hr hload]
    refine ⟨_, rfl, ?_⟩
    -- A failure to load is passed on, any other is put into one and so keeps its kinds.
    split
    next hkind => exact ⟨hkind, fun g' hg k hk => Option.some.inj hg ▸ hk⟩
    next =>
      refine ⟨rfl, fun g' hg k hk => ?_⟩
      obtain rfl := Option.some.inj hg
      simp [LoadOptions.failure, Failure.is, hk]
  | @naming e he hdiffer =>
    obtain ⟨f, hf, hkind⟩ := checkNames_of_differ hdiffer
    rw [hexecute, load_eq_ok_iff.mpr he]
    change ∃ told, (runEngine e h signal given).result = _ ∧ _
    rw [runEngine_result, hf]
    exact ⟨f, rfl, hkind⟩
  | @opening e g he hnamed hcontext =>
    rw [hexecute, load_eq_ok_iff.mpr he]
    change ∃ told, (runEngine e h signal given).result = _ ∧ _
    rw [runEngine_result, checkNames_eq_ok_iff.mpr hnamed, hcontext]
    exact ⟨_, rfl, fun g' hg k => Option.some.inj hg ▸ rfl⟩
  | @binding c before after name t bound g hc hpairs hbefore hbind =>
    rw [execute_opened hcaching haccepts hc, throughContext, hpairs,
      bindInputs_of_refused hbefore hbind]
    obtain ⟨hkind, hsame⟩ := bindingFailure_reports h name t.shape.stated? g
    exact ⟨_, rfl, hkind, fun g' hg => Option.some.inj hg ▸ hsame⟩
  | @shaping c before after name bound promised g hc hbound hnames hbefore hshape =>
    have hrefused : outputShapes c h bound h.outputNames = .error (bindingFailure h name none g) :=
      hnames ▸ outputShapes_of_refused hbefore hshape
    rw [execute_opened hcaching haccepts hc, throughContext, bindInputs_eq_ok_iff.mpr hbound]
    simp only [ok_bind, hrefused]
    obtain ⟨hkind, hsame⟩ := bindingFailure_reports h name none g
    exact ⟨_, rfl, hkind, fun g' hg => Option.some.inj hg ▸ hsame⟩
  | @executing c bound promised g hc hready hrun =>
    rw [execute_readied hcaching haccepts hc hready, hrun]
    exact ⟨_, rfl, fun g' hg => Option.some.inj hg ▸ executionFailure_reports h g⟩
  | @taking c bound promised results x' hc hready hrun hx hlacks =>
    obtain ⟨f, hf⟩ := takeOutputs_of_lacks (h := h) hx hlacks
    rw [execute_readied hcaching haccepts hc hready, hrun]
    exact ⟨f, hf, (of_takeOutputs_error hf).2⟩

/-- A failure behind an opened context comes from one of its stages. -/
theorem stops_of_throughContext {runtimes : List Runtime} {c : Context} {h : Handle}
    (hc : h.Opens runtimes c) {signal : Signal} {given : List Tensor} {f : Failure}
    (hf : throughContext c h signal given = .error f) :
    ∃ stage said, Stops runtimes h signal given stage said := by
  -- The first stage that fails is the one that the call stops at.
  rcases bind_eq_error_iff.mp hf with hbind | ⟨bound, hbound, hf⟩
  · obtain ⟨before, name, t, after, mid, g, hpairs, hbefore, hg⟩ := of_bindInputs_error hbind
    exact ⟨_, _, .binding hc hpairs hbefore hg⟩
  have hbinds := bindInputs_eq_ok_iff.mp hbound
  rcases bind_eq_error_iff.mp hf with hshape | ⟨promised, hpromised, hf⟩
  · obtain ⟨before, name, after, promised, g, hnames, hbefore, hg⟩ := of_outputShapes_error hshape
    exact ⟨_, _, .shaping hc hbinds hnames hbefore hg⟩
  have hready : c.Readied h given bound promised :=
    ⟨hbinds, outputShapes_eq_ok_iff.mp hpromised⟩
  rcases hrun : (c.execute bound signal ((h.inputNames.map Bytes.ofText).zip given)).result with
    g | results
  · exact ⟨_, _, .executing hc hready hrun⟩
  · rw [hrun] at hf
    obtain ⟨⟨x, hx, hlacks⟩, -⟩ := of_takeOutputs_error hf
    exact ⟨_, _, .taking hc hready hrun hx hlacks⟩

/-- **Every failure is one of a stage**, once the inputs are accepted. -/
theorem stops_of_execute {x : Executor} (hcaching : x.isCaching = false) {signal : Signal}
    {inputs : List (Option Tensor)} {h : Handle} {given : List Tensor}
    (haccepts : h.Accepts inputs given) {f : Failure}
    (hf : (x.execute signal inputs (some h)).1 = .error f) :
    ∃ stage said, Stops x.runtimes h signal given stage said := by
  rw [execute_accepted hcaching haccepts] at hf
  rcases bind_eq_error_iff.mp hf with hload | ⟨e, he, hf⟩
  · rcases of_load_error hload with hnone | ⟨r, g, hr, hg⟩
    · exact ⟨_, _, .selecting hnone⟩
    · exact ⟨_, _, .loading hr hg⟩
  have hloads := load_eq_ok_iff.mp he
  -- The names are looked at before the context is opened.
  by_cases hnamed : e.Named h
  · rcases hcontext : e.context with g | c
    · exact ⟨_, _, .opening hloads hnamed hcontext⟩
    · rw [runEngine_result, checkNames_eq_ok_iff.mpr hnamed, hcontext] at hf
      exact stops_of_throughContext ⟨e, hloads, hnamed, hcontext⟩ hf
  · exact ⟨_, _, .naming hloads hnamed⟩

/-- **A call that succeeds** has an engine of the handle's names, and gives one output for each
output name, in the handle's order. -/
structure Delivers (runtimes : List Runtime) (h : Handle) (signal : Signal)
    (given outs : List Tensor)
    (e : Engine) (c : Context) (bound : Bindings) (promised : List (Option Shape))
    (results : List (Bytes × Option Tensor)) : Prop where
  loaded : h.LoadsAs runtimes e
  named : e.Named h
  opened : e.context = .ok c
  readied : c.Readied h given bound promised
  ran : (c.execute bound signal ((h.inputNames.map Bytes.ofText).zip given)).result = .ok results
  count : outs.length = h.outputNames.length
  outputs : ∀ (i : Nat) (name : String), h.outputNames[i]? = some name → ∃ out shape,
    outs[i]? = some out ∧ promised[i]? = some shape ∧ h.Delivered results name shape out

/-- A call that succeeds delivers. -/
theorem delivers_of_execute {x : Executor} (hcaching : x.isCaching = false) {signal : Signal}
    {inputs : List (Option Tensor)} {h : Handle} {given outs : List Tensor}
    (haccepts : h.Accepts inputs given)
    (hok : (x.execute signal inputs (some h)).1 = .ok outs) :
    ∃ e c bound promised results,
      Delivers x.runtimes h signal given outs e c bound promised results := by
  obtain ⟨rfl, -, -⟩ := haccepts
  -- Success says that each step of the executor passed, and so what the runtime answered to it.
  obtain ⟨-, -, e, c, bound, promised, results, he, hnames, hc, hbound, hpromised, hrun, htake⟩ :=
    execute_ok hcaching hok
  have hpromises := outputShapes_eq_ok_iff.mp hpromised
  have hdelivered := takeOutputs_delivered htake
  refine ⟨e, c, bound, promised, results, load_eq_ok_iff.mp he, checkNames_eq_ok_iff.mp hnames, hc,
    ⟨bindInputs_eq_ok_iff.mp hbound, hpromises⟩, hrun, ?_, fun i name hname => ?_⟩
  · rw [← hdelivered.length_eq, List.length_zip, ← hpromises.length_eq, Nat.min_self]
  · -- Names, promises and outputs stand at the same places.
    obtain ⟨shape, hshape, -⟩ := forall₂_getElem? hpromises hname
    have hzip : (h.outputNames.zip promised)[i]? = some (name, shape) := by
      rw [List.getElem?_zip_eq_some]
      exact ⟨hname, hshape⟩
    obtain ⟨out, hout, hgot⟩ := forall₂_getElem? hdelivered hzip
    exact ⟨out, shape, hout, hshape, hgot⟩

/-- **The contract holds over any runtimes.** A call that keeps no engine, on any handle and any
inputs:

* if it succeeds, the inputs were accepted, the engine has the handle's names, and each output is
  the runtime's result of that name, as promised and on the handle's device;
* if it stops at a stage, it fails, and the caller is told what that stage reports;
* and if it fails, the inputs were not accepted, or it stopped at a stage. -/
theorem execute_contract {x : Executor} (hcaching : x.isCaching = false) (signal : Signal)
    (inputs : List (Option Tensor)) (h : Handle) :
    (∀ outs, (x.execute signal inputs (some h)).1 = .ok outs →
      ∃ given, h.Accepts inputs given ∧ ∃ e c bound promised results,
        Delivers x.runtimes h signal given outs e c bound promised results) ∧
    (∀ given stage said, h.Accepts inputs given → Stops x.runtimes h signal given stage said →
      ∃ told, (x.execute signal inputs (some h)).1 = .error told ∧ stage.Reports said told) ∧
    (∀ f, (x.execute signal inputs (some h)).1 = .error f →
      (∀ given, ¬h.Accepts inputs given) ∨
        ∃ given stage said, h.Accepts inputs given ∧
          Stops x.runtimes h signal given stage said) := by
  refine ⟨fun outs hok => ?_, fun given stage said haccepts hstops => ?_, fun f hf => ?_⟩
  · -- A call that succeeded has accepted its inputs.
    have hexecute := execute_eq hcaching signal inputs h
    obtain ⟨given, hgiven, -⟩ := bind_eq_ok_iff.mp (hexecute.symm.trans hok)
    have haccepts := checkInputs_eq_ok_iff.mp hgiven
    exact ⟨given, haccepts, delivers_of_execute hcaching haccepts hok⟩
  · exact hstops.reported hcaching haccepts
  · -- A call on inputs that were accepted can only have stopped at a stage.
    by_cases haccepted : ∃ given, h.Accepts inputs given
    · obtain ⟨given, haccepts⟩ := haccepted
      obtain ⟨stage, said, hstops⟩ := stops_of_execute hcaching haccepts hf
      exact .inr ⟨given, stage, said, haccepts, hstops⟩
    · exact .inl (not_exists.mp haccepted)

/-- Parts for a device that no scripted result is on. -/
def remoteParts : HandleParts where
  name := "remote"
  device := ⟨⟨"cuda", 1⟩, "family|unit"⟩
  engine := [7]
  inputNames := ["a"]
  outputNames := ["y", "z"]

/-- The handle of these parts. -/
def remoteHandle : Handle :=
  (Handle.make remoteParts).toOption.get (by decide +kernel)

/-- What the handle has of them. -/
theorem remoteHandle_parts : remoteHandle.toHandleParts = remoteParts.withDefaults :=
  Handle.toHandleParts_of_make (eq_ok_get _)

/-- Three halves, on a device. -/
def halves (device : Device) : Tensor where
  elements := .float32 #[⟨0x3F000000⟩, ⟨0x3F000000⟩, ⟨0x3F000000⟩]
  shape := [3]
  device := device
  isStatic := by decide
  count_eq := by decide

/-- Answers out of order: nothing for a name nobody asked for, and results on the processor. -/
def unruly : Script where
  name := "unruly"
  start := [7]
  inputNames := [.ofText "a"]
  outputNames := [.ofText "y", .ofText "z"]
  outputShapes := [(.ofText "z", some [3])]
  results := [(.ofText "w", none), (.ofText "z", some (halves .cpu)),
    (.ofText "y", some (halves .cpu))]

/-- An executor over a runtime that takes nothing and a scripted one. -/
def overScript (s : Script) : Executor where
  runtimes := [{ name := "deaf", start := [8] : Script }.runtime, s.runtime]
  isCaching := false

/-- The executor copes with the script. -/
theorem unruly_runs : ((overScript unruly).execute .never [some (halves ⟨"cuda", 1⟩)]
    (some remoteHandle)).1.toOption.isSome = true := by
  decide +kernel

/-- A runtime that says the caller gave up, where it is to bind a shape. -/
def sulking : Script :=
  { unruly with bindFailures := [(.ofText "a", .interrupted .canceled)] }

/-- The results come in the handle's order and on its device, and what the second runtime says is
reported as a failure to bind. -/
theorem execute_contract_unruly :
    (∃ outs, ((overScript unruly).execute .never [some (halves ⟨"cuda", 1⟩)]
        (some remoteHandle)).1 = .ok outs ∧ outs.length = 2 ∧
      ∃ out, outs[1]? = some out ∧ out.device.same ⟨"cuda", 1⟩ = true) ∧
    ∃ told, ((overScript sulking).execute .never [some (halves ⟨"cuda", 1⟩)]
        (some remoteHandle)).1 = .error told ∧ told.is .shapeBinding = true := by
  have hinputs : remoteHandle.inputNames = ["a"] := by rw [remoteHandle_parts]; rfl
  have houtputs : remoteHandle.outputNames = ["y", "z"] := by rw [remoteHandle_parts]; rfl
  have hdevice : remoteHandle.device.device = ⟨"cuda", 1⟩ := by rw [remoteHandle_parts]; rfl
  have hengine : remoteHandle.engine = [7] := by rw [remoteHandle_parts]; rfl
  constructor
  · have hok := eq_ok_get unruly_runs
    obtain ⟨hsucceeds, -, -⟩ := execute_contract (x := overScript unruly) rfl .never
      [some (halves ⟨"cuda", 1⟩)] remoteHandle
    obtain ⟨given, -, e, c, bound, promised, results, hdelivers⟩ := hsucceeds _ hok
    obtain ⟨out, shape, hout, -, hdelivered⟩ := hdelivers.outputs 1 "z" (by rw [houtputs]; rfl)
    refine ⟨_, hok, ?_, out, hout, ?_⟩
    · rw [hdelivers.count, houtputs]
      rfl
    · rw [← hdevice]
      exact hdelivered.device
  · obtain ⟨-, hstops, -⟩ := execute_contract (x := overScript sulking) rfl .never
      [some (halves ⟨"cuda", 1⟩)] remoteHandle
    have haccepts : remoteHandle.Accepts [some (halves ⟨"cuda", 1⟩)] [halves ⟨"cuda", 1⟩] := by
      refine ⟨rfl, by rw [hinputs]; rfl, ?_⟩
      rw [hdevice]
      decide
    -- The deaf runtime comes first and does not take the payload.
    have htakes : Runtime.Takes
        (overScript sulking).runtimes remoteHandle.engine sulking.runtime := by
      refine ⟨[_], [], rfl, ?_, ?_⟩
      · rw [hengine]
        rfl
      · rw [hengine]
        decide
    have hopens : remoteHandle.Opens (overScript sulking).runtimes sulking.context := by
      refine ⟨sulking.engine remoteHandle.engine, ⟨_, htakes, rfl⟩, ⟨?_, ?_⟩, rfl⟩
      · rw [hinputs]
        rfl
      · rw [houtputs]
        rfl
    have hpairs : remoteHandle.inputNames.zip [halves ⟨"cuda", 1⟩] =
        [] ++ [("a", halves ⟨"cuda", 1⟩)] := by
      rw [hinputs]
      rfl
    obtain ⟨told, htold, hreports⟩ := hstops _ _ _ haccepts (.binding hopens hpairs (.nil []) rfl)
    exact ⟨told, htold, hreports.1⟩

end Executor

end EngineHost
