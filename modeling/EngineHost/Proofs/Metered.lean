import EngineHost.Proofs.Accounting
import EngineHost.Proofs.ProgramTracing

/-!
# Computations on a budget of polls

A computation that polls the caller's signal may be interrupted, so what comes of it depends on when
it is asked. But it depends on nothing else: a call that ended well made a number of polls, and the
same call ends with the same result under every signal that is silent for as many
(`Signal.Metered`). Its polls can be paid at any time and in any order, because a signal counts them
and nothing more (`Signal.after_add`).

An execution of a plan is metered (`PlanEngine.context_metered`), hence so is every call of an
executor that keeps no engines (`Executor.calledOn_metered`). At a station that moreover makes no
probes, this makes every operator of a functional registry steady: what it returns is settled by its
inputs and its objects (`Registry.Functional.invoke_steady`).
-/

namespace EngineHost

/-! ### Polls -/

namespace Signal

/-- The signal after polls, if none of them is interrupted. -/
def after (signal : Signal) (polls : Nat) : Option Signal :=
  match signal.firing with
  | none => some signal
  | some (n, why) => if polls ≤ n then some ⟨some (n - polls, why)⟩ else none

theorem after_zero (signal : Signal) : signal.after 0 = some signal := by
  obtain ⟨firing⟩ := signal
  match firing with
  | none => rfl
  | some (n, why) => rfl

/-- **Polls add up.** -/
theorem after_add (signal : Signal) (first second : Nat) :
    signal.after (first + second) = (signal.after first).bind fun later => later.after second := by
  obtain ⟨firing⟩ := signal
  match firing with
  | none => rfl
  | some (n, why) =>
    -- What the first polls leave is enough for the second exactly if all of them are silent.
    by_cases hfirst : first ≤ n
    · have hrest : (first + second ≤ n) = (second ≤ n - first) := by
        rw [eq_iff_iff]
        omega
      simp only [after, if_pos hfirst, Option.bind_some, hrest, Nat.sub_add_eq]
    · have hboth : ¬first + second ≤ n := by omega
      simp only [after, if_neg hfirst, if_neg hboth, Option.bind_none]

/-- One poll. -/
theorem after_one_eq_some_iff {signal later : Signal} :
    signal.after 1 = some later ↔ signal.poll = (none, later) := by
  obtain ⟨firing⟩ := signal
  match firing with
  | none => simp [after, poll]
  | some (0, why) => simp [after, poll]
  | some (n + 1, why) => simp [after, poll]

/-- **A metered computation**: where it ends well, it has made a number of polls, and under every
signal that is silent for as many it ends with the same result. -/
def Metered {α : Type} (run : Signal → Except Failure α × Signal) : Prop :=
  ∀ ⦃signal : Signal⦄ ⦃a : α⦄ ⦃later : Signal⦄, run signal = (.ok a, later) →
    ∃ polls, signal.after polls = some later ∧
      ∀ ⦃other rest : Signal⦄, other.after polls = some rest → run other = (.ok a, rest)

section Metered

variable {α β : Type}

/-- A result that polls nothing. -/
theorem metered_const (result : Except Failure α) : Metered fun signal => (result, signal) := by
  rintro signal a later hok
  obtain ⟨rfl, rfl⟩ := Prod.mk.inj hok
  refine ⟨0, after_zero signal, fun other rest hafter => ?_⟩
  rw [after_zero] at hafter
  rw [Option.some.inj hafter]

/-- A poll as a computation. -/
def polled (signal : Signal) : Except Failure Unit × Signal :=
  match signal.poll with
  | (some why, later) => (.error (.interrupted why), later)
  | (none, later) => (.ok (), later)

/-- A poll ends well where nothing fires. -/
theorem polled_eq_ok_iff {signal later : Signal} :
    signal.polled = (.ok (), later) ↔ signal.poll = (none, later) := by
  unfold polled
  split
  next why after heq => simp [heq]
  next after heq => simp [heq]

theorem polled_eq_error {signal later : Signal} {f : Failure}
    (h : signal.polled = (.error f, later)) : ∃ why, signal.poll = (some why, later) := by
  unfold polled at h
  split at h
  next why after heq =>
    obtain ⟨-, rfl⟩ := Prod.mk.inj h
    exact ⟨why, heq⟩
  next => cases h

/-- **A poll is metered**: it makes one. -/
theorem metered_polled : Metered polled := by
  intro signal u later hok
  refine ⟨1, after_one_eq_some_iff.mpr (polled_eq_ok_iff.mp hok), fun other rest hafter => ?_⟩
  exact polled_eq_ok_iff.mpr (after_one_eq_some_iff.mp hafter)

/-- **One computation after another**: where the first fails so do both, and otherwise the second
goes on under the signal that the first has left. -/
theorem Metered.bind {run : Signal → Except Failure α × Signal} (hrun : Metered run)
    {next : α → Signal → Except Failure β × Signal} (hnext : ∀ a, Metered (next a))
    {both : Signal → Except Failure β × Signal}
    (herror : ∀ {signal f later}, run signal = (.error f, later) →
      ∃ f', (both signal).1 = .error f')
    (hok : ∀ {signal a later}, run signal = (.ok a, later) → both signal = next a later) :
    Metered both := by
  intro signal b last hboth
  cases hfirst : run signal with
  | mk result later =>
    cases result with
    | error f =>
      obtain ⟨f', hfailed⟩ := herror hfirst
      rw [hboth] at hfailed
      cases hfailed
    | ok a =>
      -- The polls of the first, and then those of the second under what is left of the signal.
      obtain ⟨polls, hpolls, hagain⟩ := hrun hfirst
      obtain ⟨more, hmore, hnextAgain⟩ := hnext a ((hok hfirst).symm.trans hboth)
      refine ⟨polls + more, ?_, fun other rest hafter => ?_⟩
      · rw [after_add, hpolls, Option.bind_some, hmore]
      · rw [after_add] at hafter
        obtain ⟨between, hbetween, hrest⟩ := Option.bind_eq_some_iff.mp hafter
        rw [hok (hagain hbetween)]
        exact hnextAgain hrest

end Metered

end Signal

/-! ### Plans -/

namespace PlanEngine

variable (e : PlanEngine)

/-- Layers are computed with a poll before each. -/
theorem layerValues_metered (shapes : Bindings) (buffers : Buffers) (layers : List Layer) :
    Signal.Metered fun signal => ((e.layerValues shapes buffers signal layers).1,
      (e.layerValues shapes buffers signal layers).2.2) := by
  -- The buffers grow from layer to layer, so they are arbitrary in the induction.
  induction layers generalizing buffers with
  | nil => exact Signal.metered_const _
  | cons l more ih =>
    cases hvalue : e.layerValue shapes buffers l with
    | none =>
      -- No value: whatever the signal, this fails.
      intro signal a later hok
      dsimp only at hok
      rw [layerValues] at hok
      split at hok
      next => cases hok
      next =>
      rw [hvalue] at hok
      cases hok
    | some value =>
      refine Signal.metered_polled.bind (fun _ => ih ((l.output, value) :: buffers)) ?_ ?_
      · intro signal f later hpolled
        obtain ⟨why, hpoll⟩ := Signal.polled_eq_error hpolled
        exact ⟨.interrupted why, by rw [layerValues, hpoll]⟩
      · intro signal u later hpolled
        rw [layerValues, Signal.polled_eq_ok_iff.mp hpolled]
        dsimp only
        rw [hvalue]

/-- What is left of an execution once the shapes are known. -/
def computed (shapes : Bindings) (buffers : Buffers) (signal : Signal) :
    Except Failure (List (Bytes × Option Tensor)) × Signal :=
  match e.layerValues shapes buffers signal e.network.layers with
  | (.error f, _, later) => (.error f, later)
  | (.ok buffers, _, later) => (e.giveOutputs shapes buffers e.network.outputs, later)

/-- Layers and outputs: only the layers poll. -/
theorem computed_metered (shapes : Bindings) (buffers : Buffers) :
    Signal.Metered (e.computed shapes buffers) := by
  refine (e.layerValues_metered shapes buffers e.network.layers).bind
    (fun buffers => Signal.metered_const (e.giveOutputs shapes buffers e.network.outputs)) ?_ ?_
  · intro signal f later hlayers
    unfold computed
    -- Of a run the result and the signal are kept, while what has grown is dropped.
    generalize e.layerValues shapes buffers signal e.network.layers = run at hlayers ⊢
    obtain ⟨result, grown, after⟩ := run
    obtain ⟨rfl, rfl⟩ := Prod.mk.inj hlayers
    exact ⟨f, rfl⟩
  · intro signal b later hlayers
    unfold computed
    generalize e.layerValues shapes buffers signal e.network.layers = run at hlayers ⊢
    obtain ⟨result, grown, after⟩ := run
    obtain ⟨rfl, rfl⟩ := Prod.mk.inj hlayers
    rfl

/-- **An execution is metered**: a poll at the start, and those of the layers. -/
theorem execute_metered (bound : Bindings) (given : List (Bytes × Option Tensor)) :
    Signal.Metered fun signal => ((e.execute bound signal given).1.result,
      (e.execute bound signal given).1.signal) := by
  have hinterrupted : ∀ {signal f later}, Signal.polled signal = (.error f, later) →
      ∃ f', (e.execute bound signal given).1.result = .error f' := by
    intro signal f later hpolled
    obtain ⟨why, hpoll⟩ := Signal.polled_eq_error hpolled
    exact ⟨.interrupted why, by rw [execute, hpoll]⟩
  -- What is read between the first poll and the layers does not depend on the signal.
  cases htake : e.takeInputs given bound [] e.network.inputs with
  | mk taken bound' =>
    cases taken with
    | error f =>
      refine Signal.metered_polled.bind (fun _ => Signal.metered_const (.error f)) hinterrupted ?_
      intro signal u later hpolled
      rw [execute, Signal.polled_eq_ok_iff.mp hpolled]
      dsimp only
      rw [htake]
    | ok buffers =>
      cases hshapes : e.shapes bound' with
      | error f =>
        refine Signal.metered_polled.bind (fun _ => Signal.metered_const (.error f)) hinterrupted ?_
        intro signal u later hpolled
        rw [execute, Signal.polled_eq_ok_iff.mp hpolled]
        dsimp only
        rw [htake]
        dsimp only
        rw [hshapes]
      | ok shapes =>
        refine Signal.metered_polled.bind (fun _ => e.computed_metered shapes buffers)
          hinterrupted ?_
        intro signal u later hpolled
        rw [execute, Signal.polled_eq_ok_iff.mp hpolled, computed]
        dsimp only
        rw [htake]
        dsimp only
        rw [hshapes]
        dsimp only
        generalize e.layerValues shapes buffers later e.network.layers = run
        obtain ⟨f | values, grown, after⟩ := run
        · rfl
        · rfl

end PlanEngine

/-! ### Executors -/

/-- A context whose executions are metered. -/
def Context.IsMetered (c : Context) : Prop :=
  ∀ bound feed, Signal.Metered fun signal =>
    ((c.execute bound signal feed).result, (c.execute bound signal feed).signal)

/-- Runtimes whose engines give metered contexts. -/
def Runtime.AllMetered (runtimes : List Runtime) : Prop :=
  ∀ r ∈ runtimes, ∀ payload options e, r.load payload options = .ok e →
    ∀ c, e.context = .ok c → c.IsMetered

/-- **The contexts of plans are metered.** -/
theorem PlanEngine.context_metered (e : PlanEngine) : e.context.IsMetered :=
  fun bound _ => e.execute_metered bound _

/-- A library whose sessions are metered. -/
def OnnxLibrary.IsMetered (lib : OnnxLibrary) : Prop :=
  ∀ payload session, lib.session payload = .ok session →
    ∀ given, Signal.Metered fun signal => session.run signal given

/-- A library that is not there opens no session. -/
theorem OnnxLibrary.absent_isMetered : OnnxLibrary.absent.IsMetered := by
  rintro payload session ⟨⟩

/-- A session is opened by the library. -/
theorem OnnxRuntime.session_of_openSession {lib : OnnxLibrary} {host : HostConfig}
    {payload : Bytes} {platform : String} {session : OnnxSession}
    (hopen : openSession lib host payload platform = .ok session) :
    lib.session payload = .ok session := by
  unfold openSession at hopen
  split at hopen
  next => cases hopen
  next =>
  obtain ⟨⟨⟩, -, hopen⟩ := bind_eq_ok_iff.mp hopen
  obtain ⟨⟨⟩, -, hopen⟩ := bind_eq_ok_iff.mp hopen
  exact mapError_eq_ok_iff.mp hopen

/-- Values go in and come out of a session without a poll. -/
theorem OnnxRuntime.context_metered (lib : OnnxLibrary) (engine : String) {session : OnnxSession}
    (hsession : ∀ given, Signal.Metered fun signal => session.run signal given) :
    (context lib engine session).IsMetered := by
  intro bound feed
  change Signal.Metered fun signal =>
    ((execute lib engine session signal feed).result,
      (execute lib engine session signal feed).signal)
  unfold execute
  -- The values are converted first, and that looks at no signal.
  cases feed.mapM (giveInput lib) with
  | error f => exact Signal.metered_const _
  | ok given =>
    refine (hsession given).bind
      (fun outputs => Signal.metered_const (outputs.mapM takeOutput)) ?_ ?_
    · intro signal f later hrun
      dsimp only
      rw [hrun]
      exact ⟨_, rfl⟩
    · intro signal outputs later hrun
      dsimp only
      rw [hrun]

/-- The runtimes of the host are metered if the library for ONNX graphs is. -/
theorem Backends.allMetered {lib : OnnxLibrary} (hlib : lib.IsMetered) {host : HostConfig}
    {choice : String} {runtimes : List Runtime}
    (hopen : (Backends.all lib).openChoice host choice = .ok runtimes) :
    Runtime.AllMetered runtimes := by
  intro r hr payload options e hload c hcontext
  -- A runtime is one for ONNX graphs or one for plans.
  rcases Backends.of_mem_openChoice hopen hr with ⟨host, rfl⟩ | ⟨host, rfl⟩
  · obtain ⟨session, hsession, rfl⟩ := map_eq_ok_iff.mp hload
    cases hcontext
    have hopened := OnnxRuntime.session_of_openSession (mapError_eq_ok_iff.mp hsession)
    exact OnnxRuntime.context_metered lib _ (hlib payload session hopened)
  · obtain ⟨pe, -, rfl⟩ := map_eq_ok_iff.mp hload
    cases hcontext
    exact pe.context_metered

namespace Executor

/-- Running a context polls what its execution polls. -/
theorem runContext_metered {c : Context} (hc : c.IsMetered) (h : Handle) (inputs : List Tensor) :
    Signal.Metered fun signal => ((runContext c h signal inputs).1,
      (runContext c h signal inputs).2.2) := by
  -- Binding and asking for shapes come before the execution, and look at no signal.
  unfold runContext
  cases bindInputs c h [] (h.inputNames.zip inputs) with
  | error f => exact Signal.metered_const _
  | ok bound =>
    dsimp only
    cases outputShapes c h bound h.outputNames with
    | error f => exact Signal.metered_const _
    | ok promised =>
      dsimp only
      refine (hc bound ((h.inputNames.map Bytes.ofText).zip inputs)).bind
        (fun results =>
          Signal.metered_const (takeOutputs h results (h.outputNames.zip promised))) ?_ ?_
      · intro signal f later hrun
        obtain ⟨hfailed, -⟩ := Prod.mk.inj hrun
        rw [hfailed]
        exact ⟨_, rfl⟩
      · intro signal results later hrun
        obtain ⟨hresult, hlater⟩ := Prod.mk.inj hrun
        rw [hresult, hlater]

/-- Running an engine polls what its context polls. -/
theorem runEngine_metered {e : Engine} (he : ∀ c, e.context = .ok c → c.IsMetered) (h : Handle)
    (inputs : List Tensor) : Signal.Metered fun signal =>
      ((runEngine e h signal inputs).result, (runEngine e h signal inputs).signal) := by
  unfold runEngine
  cases checkNames e h with
  | error f => exact Signal.metered_const _
  | ok u =>
    dsimp only
    cases hcontext : e.context with
    | error f => exact Signal.metered_const _
    | ok c => exact runContext_metered (he c hcontext) h inputs

/-- A call on an engine of its own: its result and the signal afterwards. -/
def calledOn (runtimes : List Runtime) (h : Handle) (inputs : List (Option Tensor))
    (signal : Signal) : Except Failure (List Tensor) × Signal :=
  match checkInputs h inputs, load runtimes h with
  | .error f, _ => (.error f, signal)
  | .ok _, .error f => (.error f, signal)
  | .ok given, .ok e => ((runEngine e h signal given).result, (runEngine e h signal given).signal)

/-- Where no engines are kept, a call depends on the runtimes only. -/
theorem execute_eq_calledOn {x : Executor} (hcaching : x.isCaching = false) (signal : Signal)
    (inputs : List (Option Tensor)) (h : Handle) :
    ((x.execute signal inputs (some h)).1, (x.execute signal inputs (some h)).2.1) =
      calledOn x.runtimes h inputs signal := by
  unfold execute run calledOn
  dsimp only
  cases checkInputs h inputs with
  | error f => rfl
  | ok given =>
    dsimp only
    -- Without a cache the call loads an engine of its own.
    rw [if_neg (Bool.eq_false_iff.mp hcaching), runOnce]
    cases load x.runtimes h with
    | error f => rfl
    | ok e => rfl

/-- **A call is metered.** -/
theorem calledOn_metered {runtimes : List Runtime} (hruntimes : Runtime.AllMetered runtimes)
    (h : Handle) (inputs : List (Option Tensor)) :
    Signal.Metered (calledOn runtimes h inputs) := by
  unfold calledOn
  cases checkInputs h inputs with
  | error f => exact Signal.metered_const _
  | ok given =>
    cases hload : load runtimes h with
    | error f => exact Signal.metered_const _
    | ok e =>
      refine runEngine_metered (fun c hcontext => ?_) h given
      -- The engine comes from one of the runtimes.
      obtain ⟨r, hr, -, he⟩ := exists_runtime_of_load hload
      exact hruntimes r hr _ _ _ he c hcontext

end Executor

/-! ### Stations -/

/-- A station over runtimes that keeps no engines and makes no probes. -/
structure Station.Plain (runtimes : List Runtime) (s : Station) : Prop where
  runtimes : s.executor.runtimes = runtimes
  isCaching : s.executor.isCaching = false
  allowsProbes : s.tracer.allowsProbes = false

/-- **A computation at a station yields a value for polls**: it ends with the value at every station
that is plain, if the signal there is silent for so many. -/
def Yields {α : Type} (runtimes : List Runtime) (run : Station → Except Failure α × Station) (a : α)
    (polls : Nat) : Prop :=
  ∀ ⦃s : Station⦄, s.Plain runtimes → ∀ ⦃rest : Signal⦄, s.signal.after polls = some rest →
    ∃ s', run s = (.ok a, s') ∧ s'.Plain runtimes ∧ s'.signal = rest

/-- **A steady computation**: where it ends well, it yields what it ended with, for the polls it has
made. -/
def Steady {α : Type} (runtimes : List Runtime) (run : Station → Except Failure α × Station) :
    Prop :=
  ∀ ⦃s : Station⦄, s.Plain runtimes → ∀ ⦃a : α⦄ ⦃s' : Station⦄, run s = (.ok a, s') →
    s'.Plain runtimes ∧ ∃ polls, s.signal.after polls = some s'.signal ∧ Yields runtimes run a polls

section Steady

variable {α β : Type} {runtimes : List Runtime}

/-- A result that does not look at the station. -/
theorem steady_of_eq {run : Station → Except Failure α × Station} (result : Except Failure α)
    (heq : ∀ s : Station, s.Plain runtimes → run s = (result, s)) : Steady runtimes run := by
  intro s hs a s' hok
  rw [heq s hs] at hok
  obtain ⟨rfl, rfl⟩ := Prod.mk.inj hok
  refine ⟨hs, 0, s.signal.after_zero, fun t ht rest hafter => ⟨t, heq t ht, ht, ?_⟩⟩
  rw [Signal.after_zero] at hafter
  exact Option.some.inj hafter

/-- **A metered computation is steady** at a station, if it leaves the station plain and is settled
by the signal there. -/
theorem steady_of_metered {run : Station → Except Failure α × Station}
    {settled : Signal → Except Failure α × Signal} (hmetered : Signal.Metered settled)
    (hplain : ∀ {s : Station}, s.Plain runtimes → (run s).2.Plain runtimes)
    (hsettled : ∀ {s : Station}, s.Plain runtimes →
      ((run s).1, (run s).2.signal) = settled s.signal) :
    Steady runtimes run := by
  intro s hs a s' hok
  have hrun := hsettled hs
  rw [hok] at hrun
  obtain ⟨polls, hpolls, hagain⟩ := hmetered hrun.symm
  have hs' := hplain hs
  rw [hok] at hs'
  refine ⟨hs', polls, hpolls, fun t ht rest hafter => ?_⟩
  obtain ⟨hresult, hsignal⟩ := Prod.mk.inj ((hsettled ht).trans (hagain hafter))
  exact ⟨_, Prod.ext hresult rfl, hplain ht, hsignal⟩

/-- What is made of its result afterwards leaves a computation steady. -/
theorem Steady.map {run : Station → Except Failure α × Station} (hrun : Steady runtimes run)
    (f : α → β) : Steady runtimes fun s => ((run s).1.map f, (run s).2) := by
  intro s hs b s' hok
  obtain ⟨hresult, rfl⟩ := Prod.mk.inj hok
  obtain ⟨a, ha, rfl⟩ := map_eq_ok_iff.mp hresult
  obtain ⟨hplain, polls, hpolls, hyields⟩ := hrun hs (Prod.ext ha rfl)
  refine ⟨hplain, polls, hpolls, fun t ht rest hafter => ?_⟩
  obtain ⟨t', heq, ht', hsignal⟩ := hyields ht hafter
  refine ⟨t', ?_, ht', hsignal⟩
  dsimp only
  rw [heq]
  rfl

/-- The engine operator on tensors. -/
theorem EngineOp.concrete_steady (hruntimes : Runtime.AllMetered runtimes) (inputs : List Tensor)
    (objects : List Object) : Steady runtimes (EngineOp.concrete inputs objects) := by
  cases hhandle : handleOf objects with
  | error f =>
    refine steady_of_eq (.error f) fun s _ => ?_
    rw [EngineOp.concrete, hhandle]
  | ok h =>
    -- What the executor does, and what the operator makes of it.
    let executed : Station → Except Failure (List Tensor) × Station := fun s =>
      ((s.executor.execute s.signal (inputs.map some) (some h)).1,
        { s with
          executor := (s.executor.execute s.signal (inputs.map some) (some h)).2.2
          signal := (s.executor.execute s.signal (inputs.map some) (some h)).2.1 })
    have hexecuted : Steady runtimes executed := by
      refine steady_of_metered (Executor.calledOn_metered hruntimes h (inputs.map some)) ?_ ?_
      · intro s hs
        obtain ⟨hsame, huncached⟩ :=
          Executor.execute_keeps hs.isCaching s.signal (inputs.map some) (some h)
        exact ⟨hsame.trans hs.runtimes, huncached, hs.allowsProbes⟩
      · intro s hs
        rw [← hs.runtimes]
        exact Executor.execute_eq_calledOn hs.isCaching s.signal (inputs.map some) h
    have hcalls : EngineOp.concrete inputs objects = fun s =>
        ((executed s).1.map Value.tensors, (executed s).2) := by
      funext s
      rw [EngineOp.concrete, hhandle]
    rw [hcalls]
    exact hexecuted.map Value.tensors

/-- What a trace finds without probes. -/
def Tracer.described (inputs : List Descriptor) (h : Handle) : Except Failure (List Descriptor) :=
  checkInputs h inputs >>= fun _ =>
    if h.metadata.outputs.isEmpty then .error (untraceable h "")
    else resolveOutputs h inputs h.metadata.outputs

/-- A trace without probes leaves everything as it was. -/
theorem Tracer.trace_without_probes {σ : Type} {t : Tracer} (hprobes : t.allowsProbes = false)
    (prober : Prober σ) (inputs : List Descriptor) (h : Handle) (s : σ) :
    t.trace (some prober) inputs (some h) s = (described inputs h, t, s) := by
  unfold trace described
  dsimp only
  cases checkInputs h inputs with
  | error f => rfl
  | ok u =>
    -- A probe that is not allowed is the failure that there is without one.
    have hprobe : t.probe (some prober) inputs h s = (.error (untraceable h ""), t, s) := by
      unfold probe
      split
      next htrue _ => rw [hprobes] at htrue; cases htrue
      next => rfl
    dsimp only
    rw [hprobe]
    change _ = (if h.metadata.outputs.isEmpty then _ else _, t, s)
    split <;> rfl

/-- The engine operator on descriptors. -/
theorem EngineOp.symbolic_steady (inputs : List Descriptor) (objects : List Object) :
    Steady runtimes (EngineOp.symbolic inputs objects) := by
  cases hhandle : handleOf objects with
  | error f =>
    refine steady_of_eq (.error f) fun s _ => ?_
    rw [EngineOp.symbolic, hhandle]
  | ok h =>
    refine steady_of_eq ((Tracer.described inputs h).map Value.symbols) fun s hs => ?_
    rw [EngineOp.symbolic, hhandle]
    dsimp only
    rw [Tracer.trace_without_probes hs.allowsProbes]

end Steady

/-! ### Registries -/

/-- **A functional kernel**: what it returns is settled by its inputs, its objects and the polls
that it makes, and it leaves the rest of the station alone. -/
def OperatorKernel.Functional {α : Type} (kernel : OperatorKernel α) : Prop :=
  ∃ settled : List α → List Object → Signal → Except Failure (List (Option Value)) × Signal,
    (∀ inputs objects, Signal.Metered (settled inputs objects)) ∧
      ∀ inputs objects s, kernel inputs objects s = ((settled inputs objects s.signal).1,
        { s with signal := (settled inputs objects s.signal).2 })

/-- **A functional registry**: every operator is the engine operator, or both its kernels are
functional. -/
def Registry.Functional (r : Registry) : Prop :=
  ∀ entry ∈ r.operators, entry.2 = EngineOp.operator ∨
    OperatorKernel.Functional entry.2.symbolic ∧ OperatorKernel.Functional entry.2.concrete

/-- **A functional kernel is steady.** -/
theorem OperatorKernel.Functional.steady {α : Type} {kernel : OperatorKernel α}
    (h : Functional kernel) (runtimes : List Runtime) (inputs : List α) (objects : List Object) :
    Steady runtimes (kernel inputs objects) := by
  obtain ⟨settled, hmetered, hkernel⟩ := h
  refine steady_of_metered (hmetered inputs objects) (fun {s} hs => ?_) (fun {s} hs => ?_)
  · rw [hkernel]
    exact ⟨hs.runtimes, hs.isCaching, hs.allowsProbes⟩
  · rw [hkernel]

/-- A kernel that computes from its inputs is functional, for it makes no polls. -/
theorem Native.pureKernel_functional {α : Type} (give : List α → List (Option Value))
    (f : List α → Except Failure (List α)) : OperatorKernel.Functional (pureKernel give f) :=
  ⟨fun inputs _ signal => ((f inputs).map give, signal), fun _ _ => Signal.metered_const _,
    fun _ _ _ => rfl⟩

/-- The registry of the host is functional. -/
theorem hostRegistry_functional : hostRegistry.Functional := by
  simp only [Registry.Functional, hostRegistry, List.forall_mem_cons]
  have hpure {f : List Descriptor → Except Failure (List Descriptor)}
      {g : List Tensor → Except Failure (List Tensor)} :=
    And.intro (Native.pureKernel_functional Value.symbols f)
      (Native.pureKernel_functional Value.tensors g)
  exact ⟨.inr hpure, .inr hpure, .inr hpure, .inl rfl, List.forall_mem_nil _⟩

namespace Registry

variable {r : Registry} {runtimes : List Runtime}

/-- The kernels of a functional registry are steady. -/
theorem Functional.steady (h : r.Functional) (hruntimes : Runtime.AllMetered runtimes)
    {name : String} {op : Operator} (hop : r.operator? name = some op) (objects : List Object) :
    (∀ inputs, Steady runtimes (op.symbolic inputs objects)) ∧
      ∀ inputs, Steady runtimes (op.concrete inputs objects) := by
  -- The engine operator, or an operator with functional kernels.
  rcases h _ (mem_of_lookup hop) with heq | ⟨hsymbolic, hconcrete⟩
  · change op = EngineOp.operator at heq
    rw [heq]
    exact ⟨fun inputs => EngineOp.symbolic_steady inputs objects,
      fun inputs => EngineOp.concrete_steady hruntimes inputs objects⟩
  · exact ⟨fun inputs => hsymbolic.steady runtimes inputs objects,
      fun inputs => hconcrete.steady runtimes inputs objects⟩

/-- **A call of an operator is steady**, in whatever mode. -/
theorem Functional.invoke_steady (h : r.Functional) (hruntimes : Runtime.AllMetered runtimes)
    (mode : Mode) (name : String) (inputs : List (Option Value)) (objects : List Object) :
    Steady runtimes (r.invoke mode name inputs objects) := by
  cases hop : r.operator? name with
  | none =>
    refine steady_of_eq (.error (.within (Text.quote name) .unknownOperator)) fun s _ => ?_
    rw [invoke, hop]
  | some op =>
    obtain ⟨hsymbolic, hconcrete⟩ := h.steady hruntimes hop objects
    -- Each mode takes its own kind of values; what is not of that kind fails at once.
    cases mode with
    | symbolic =>
      cases hinputs : descriptors name 0 inputs with
      | error f =>
        refine steady_of_eq (.error f) fun s _ => ?_
        rw [invoke, hop]
        dsimp only
        rw [hinputs]
      | ok given =>
        have hinvoke : r.invoke .symbolic name inputs objects = op.symbolic given objects := by
          funext s
          rw [invoke, hop]
          dsimp only
          rw [hinputs]
        rw [hinvoke]
        exact hsymbolic given
    | concrete =>
      cases hinputs : tensors name 0 inputs with
      | error f =>
        refine steady_of_eq (.error f) fun s _ => ?_
        rw [invoke, hop]
        dsimp only
        rw [hinputs]
      | ok given =>
        have hinvoke : r.invoke .concrete name inputs objects = op.concrete given objects := by
          funext s
          rw [invoke, hop]
          dsimp only
          rw [hinputs]
        rw [hinvoke]
        exact hconcrete given
    | other n =>
      refine steady_of_eq (.error (.plain (name ++ ": invalid mode " ++ Text.ofInt64 n)))
        fun s _ => ?_
      rw [invoke, hop]

end Registry

end EngineHost
