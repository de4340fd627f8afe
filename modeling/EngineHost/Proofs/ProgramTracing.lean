import EngineHost.Operator.Engine
import EngineHost.Proofs.ProgramCalls
import EngineHost.Proofs.Tracing

/-!
# Tracing programs

A program that ran on tensors can be traced on descriptors that abstract them, and what the trace
finds abstracts what came out (`BoundProgram.run_symbolic_abstracts`). Both runs make the same
calls, so they are compared call by call:

* `Operator.Follows` — one operator: where its kernel on tensors succeeds, its kernel on
  descriptions of these tensors succeeds with descriptions of the results, in whatever station. Each
  operator of the host has it (`hostRegistry_follows`), the engine operator for handles that were
  built;
* `Matches` — the values that are defined, name by name: a symbol in one run, a tensor that it
  describes in the other. A call keeps it (`BoundProgram.callNode_follows`), hence all calls do.

Running needs a station that keeps no engines, and leaves it so (`Station.Uncached`). Tracing needs
nothing.
-/

namespace EngineHost

/-- A symbol that describes a tensor. -/
def Value.Describes (vague : Prop) (w v : Value) : Prop :=
  ∃ d t, v = .symbol d ∧ w = .tensor t ∧ Descriptor.Describes vague d t

/-- Tensors can be told from the values they are. -/
theorem Value.tensors_injective : Function.Injective Value.tensors :=
  (List.map_injective_iff.mpr (Option.some_injective _)).comp
    (List.map_injective_iff.mpr fun _ _ heq => Value.tensor.inj heq)

/-- Descriptors can be told from the values they are. -/
theorem Value.symbols_injective : Function.Injective Value.symbols :=
  (List.map_injective_iff.mpr (Option.some_injective _)).comp
    (List.map_injective_iff.mpr fun _ _ heq => Value.symbol.inj heq)

/-! ### Stations and objects -/

/-- A station over the backends there are, with any library for ONNX graphs, that keeps no
engines. -/
structure Station.Uncached (s : Station) : Prop where
  isCaching : s.executor.isCaching = false
  runtimes : ∃ lib host choice,
    (Backends.all lib).openChoice host choice = .ok s.executor.runtimes

/-- An engine among objects is a handle that was built. -/
def Object.IsBuilt (o : Object) : Prop :=
  ∀ h, o.value = .engine (some h) → ∃ d, h.BuiltFrom d

/-- **An operator follows**: its kernel on descriptors does what its kernel on tensors did. -/
def Operator.Follows (vague : Prop) (op : Operator) : Prop :=
  ∀ ⦃descs : List Descriptor⦄ ⦃inputs : List Tensor⦄ ⦃objects : List Object⦄ ⦃s : Station⦄,
    List.Forall₂ (Descriptor.Describes vague) descs inputs → (∀ o ∈ objects, o.IsBuilt) →
    s.Uncached → (op.concrete inputs objects s).2.Uncached ∧
      ∀ results, (op.concrete inputs objects s).1 = .ok results →
        ∃ found outs, results = Value.tensors outs ∧
          List.Forall₂ (Descriptor.Describes vague) found outs ∧
          ∀ s', (op.symbolic descs objects s').1 = .ok (Value.symbols found)

/-! ### The operators of the host -/

/-- An element type that tensors have is that of its kind. -/
theorem DType.dtype_of_kind? {d : DType} {k : ElementKind} (h : d.kind? = some k) :
    k.dtype = d := by
  obtain ⟨name⟩ := d
  unfold kind? at h
  split_ifs at h with h32 h16 hi32 hi64
  all_goals
    cases h
    subst_vars
    rfl

/-- A tensor from single precision has the element type, shape and device it was asked for. -/
theorem Tensor.of_ofSingles_ok {dtype : DType} {values : Array Single} {shape : Shape}
    {device : Device} {t : Tensor} (h : Tensor.ofSingles dtype values shape device = .ok t) :
    t.dtype = dtype ∧ t.shape = shape ∧ t.device = device := by
  unfold Tensor.ofSingles at h
  split at h
  next => cases h
  next k hk =>
    obtain ⟨helements, hshape, hdevice⟩ := Tensor.of_make_ok h
    refine ⟨?_, hshape, hdevice⟩
    rw [Tensor.dtype, helements, ← DType.dtype_of_kind? hk]
    cases k <;> rfl

namespace Native

variable {vague : Prop}

/-- Kernels that leave the station alone follow if their functions do. -/
theorem follows_of_pure {f : List Descriptor → Except Failure (List Descriptor)}
    {g : List Tensor → Except Failure (List Tensor)}
    (hfg : ∀ {descs inputs outs}, List.Forall₂ (Descriptor.Describes vague) descs inputs →
      g inputs = .ok outs → ∃ found, f descs = .ok found ∧
        List.Forall₂ (Descriptor.Describes vague) found outs) :
    Operator.Follows vague ⟨pureKernel Value.symbols f, pureKernel Value.tensors g⟩ := by
  intro descs inputs objects s hdescs _ hs
  refine ⟨hs, fun results hresults => ?_⟩
  obtain ⟨outs, houts, rfl⟩ := map_eq_ok_iff.mp hresults
  obtain ⟨found, hfound, hdescribes⟩ := hfg hdescs houts
  exact ⟨found, outs, rfl, hdescribes, fun _ => map_eq_ok_iff.mpr ⟨found, hfound, rfl⟩⟩

/-- Copying follows. -/
theorem identity_follows (name : String) :
    Operator.Follows vague
      ⟨pureKernel Value.symbols (same name), pureKernel Value.tensors (same name)⟩ := by
  refine follows_of_pure fun {descs inputs outs} hdescs hok => ?_
  unfold same at hok
  split at hok
  next t =>
    cases hok
    obtain ⟨d, ds, hd, hds, rfl⟩ := List.forall₂_cons_right_iff.mp hdescs
    obtain rfl := List.forall₂_nil_right_iff.mp hds
    exact ⟨[d], rfl, .cons hd .nil⟩
  next => cases hok

/-- Rectifying follows: a tensor of the same type, shape and device comes out. -/
theorem relu_follows : Operator.Follows vague
    ⟨pureKernel Value.symbols (same reluName), pureKernel Value.tensors relu⟩ := by
  refine follows_of_pure fun {descs inputs outs} hdescs hok => ?_
  unfold relu at hok
  split at hok
  next x =>
    obtain ⟨t, ht, rfl⟩ := map_eq_ok_iff.mp hok
    obtain ⟨hdtype, hshape, hdevice⟩ := Tensor.of_ofSingles_ok (mapError_eq_ok_iff.mp ht)
    obtain ⟨d, ds, hd, hds, rfl⟩ := List.forall₂_cons_right_iff.mp hdescs
    obtain rfl := List.forall₂_nil_right_iff.mp hds
    exact ⟨[d], rfl, .cons ⟨hdtype ▸ hd.dtype, hdevice ▸ hd.device, hshape ▸ hd.shape⟩ .nil⟩
  next => cases hok

/-- Two descriptions of one shape have a common one. -/
theorem joinDims_ok {as bs sizes : Shape} (ha : List.Forall₂ (DimDescribes vague) as sizes)
    (hb : List.Forall₂ (DimDescribes vague) bs sizes) (i : Nat) :
    ∃ joined, joinDims i as bs = .ok joined ∧ List.Forall₂ (DimDescribes vague) joined sizes := by
  -- Axis by axis; the number of the axis stands in failures only.
  induction ha generalizing bs i with
  | nil =>
    cases hb
    exact ⟨[], rfl, .nil⟩
  | @cons a size _ _ hsize _ ih =>
    cases hb with
    | @cons b _ bs _ hsize' hrest =>
      obtain ⟨joined, hjoined, hdescribes⟩ := ih hrest (i + 1)
      rw [joinDims, hjoined]
      split
      next => exact ⟨b :: joined, rfl, .cons hsize' hdescribes⟩
      next hknown =>
        -- Two sizes that are both known are both the tensor's.
        have hagree : b < 0 ∨ a = b := by
          by_cases hopen : b < 0
          · exact .inl hopen
          · have hb := hsize'.eq_of_nonneg (Int64.not_lt.mp hopen)
            have ha := hsize.eq_of_nonneg (Int64.not_lt.mp hknown)
            exact .inr (ha.trans hb.symm)
        rw [if_pos hagree]
        exact ⟨a :: joined, rfl, .cons hsize hdescribes⟩

/-- Operands that may be added have descriptions that may be. -/
theorem checkSameKind_ok {a b : Tensor} {da db : Descriptor} (ha : da.Describes vague a)
    (hb : db.Describes vague b) (hok : checkSameKind a.descriptor b.descriptor = .ok ()) :
    checkSameKind da db = .ok () := by
  unfold checkSameKind at hok ⊢
  split at hok
  next => cases hok
  next hdtype =>
  split at hok
  next => cases hok
  next hdevice =>
  split at hok
  next => cases hok
  next hrank =>
  rw [not_not] at hdtype hrank
  rw [Bool.not_eq_true', Bool.not_eq_false] at hdevice
  -- The devices of descriptions are spelled differently at most.
  have hsame : da.device.same db.device = true :=
    Device.same_trans ha.device (Device.same_trans hdevice (Device.same_symm hb.device))
  rw [if_neg (not_not.mpr (ha.dtype.trans (hdtype.trans hb.dtype.symm))), if_neg (by simp [hsame]),
    if_neg (not_not.mpr (ha.shape.length_eq.trans (hrank.trans hb.shape.length_eq.symm)))]

/-- Adding follows. -/
theorem add_follows : Operator.Follows vague
    ⟨pureKernel Value.symbols addSymbolic, pureKernel Value.tensors add⟩ := by
  refine follows_of_pure fun {descs inputs outs} hdescs hok => ?_
  unfold add at hok
  split at hok
  next a b =>
    obtain ⟨⟨⟩, hkind, hok⟩ := bind_eq_ok_iff.mp hok
    split at hok
    next => cases hok
    next hshapes =>
    obtain ⟨t, ht, rfl⟩ := map_eq_ok_iff.mp hok
    obtain ⟨hdtype, hshape, hdevice⟩ := Tensor.of_ofSingles_ok (mapError_eq_ok_iff.mp ht)
    obtain ⟨da, ds, ha, hds, rfl⟩ := List.forall₂_cons_right_iff.mp hdescs
    obtain ⟨db, ds', hb, hds', rfl⟩ := List.forall₂_cons_right_iff.mp hds
    obtain rfl := List.forall₂_nil_right_iff.mp hds'
    rw [not_not] at hshapes
    -- The operands have one shape, which both descriptions describe.
    obtain ⟨joined, hjoined, hdescribes⟩ := joinDims_ok ha.shape (hshapes ▸ hb.shape) 0
    refine ⟨[⟨da.dtype, joined, da.device⟩], ?_,
      .cons ⟨hdtype ▸ ha.dtype, hdevice ▸ ha.device, hshape ▸ hdescribes⟩ .nil⟩
    rw [addSymbolic, checkSameKind_ok ha hb hkind, hjoined]
    rfl
  next => cases hok

end Native

/-- The handle of a call is one of its objects. -/
theorem EngineOp.handleOf_ok {objects : List Object} {h : Handle} (hok : handleOf objects = .ok h) :
    ∃ o ∈ objects, o.value = .engine (some h) := by
  unfold handleOf at hok
  split at hok
  next o =>
    split at hok
    next h' hvalue =>
      split at hok
      next =>
        cases hok
        exact ⟨o, by simp, hvalue⟩
      next => cases hok
    next => cases hok
  next => cases hok

/-- The engine operator follows on handles that were built. -/
theorem EngineOp.follows {vague : Prop} :
    Operator.Follows vague ⟨EngineOp.symbolic, EngineOp.concrete⟩ := by
  intro descs inputs objects s hdescs hobjects hs
  unfold EngineOp.symbolic EngineOp.concrete
  dsimp only
  cases hhandle : handleOf objects with
  | error f => exact ⟨hs, fun _ hok => by cases hok⟩
  | ok h =>
    dsimp only
    obtain ⟨lib, host, choice, hopen⟩ := hs.runtimes
    obtain ⟨hruntimes, hcaching⟩ :=
      Executor.execute_keeps hs.isCaching s.signal (inputs.map some) (some h)
    refine ⟨⟨hcaching, lib, host, choice, hruntimes ▸ hopen⟩, fun results hresults => ?_⟩
    obtain ⟨outs, hok, rfl⟩ := map_eq_ok_iff.mp hresults
    obtain ⟨o, ho, hvalue⟩ := handleOf_ok hhandle
    obtain ⟨d, hbuilt⟩ := hobjects o ho h hvalue
    -- The handle ran, so it can be traced on what describes its inputs.
    obtain ⟨found, hdescribes, htrace⟩ :=
      Tracer.trace_ran hbuilt (hbuilt.ran hs.isCaching hopen hok) hdescs
    exact ⟨found, outs, rfl, hdescribes, fun s' => by rw [htrace]; rfl⟩

/-! ### The registry of the host -/

/-- What the host registers. -/
def hostRegistry : Registry where
  operators := [
    (Native.identityName, ⟨Native.pureKernel Value.symbols (Native.same Native.identityName),
      Native.pureKernel Value.tensors (Native.same Native.identityName)⟩),
    (Native.addName, ⟨Native.pureKernel Value.symbols Native.addSymbolic,
      Native.pureKernel Value.tensors Native.add⟩),
    (Native.reluName, ⟨Native.pureKernel Value.symbols (Native.same Native.reluName),
      Native.pureKernel Value.tensors Native.relu⟩),
    (EngineOp.operatorName, ⟨EngineOp.symbolic, EngineOp.concrete⟩)]
  classes := [(EngineOp.className, ⟨EngineOp.flatten, EngineOp.unflatten⟩)]

/-- The registry of the host is the standard one. -/
theorem Registry.standard_eq : Registry.standard = .ok hostRegistry :=
  rfl

/-- Every operator of the host follows. -/
theorem hostRegistry_follows {vague : Prop} {name : String} {op : Operator}
    (h : hostRegistry.operator? name = some op) : op.Follows vague := by
  have hmem := mem_of_lookup h
  simp only [hostRegistry, List.mem_cons, Prod.mk.injEq, List.not_mem_nil, or_false] at hmem
  rcases hmem with ⟨-, rfl⟩ | ⟨-, rfl⟩ | ⟨-, rfl⟩ | ⟨-, rfl⟩
  · exact Native.identity_follows _
  · exact Native.add_follows
  · exact Native.relu_follows
  · exact EngineOp.follows

/-- An object in the exported form of a handle that was built. -/
def StoredObject.IsBuilt (o : StoredObject) : Prop :=
  ∃ (c : BuildConfig) (name : String) (d : NetworkDraft) (h : Handle),
    d.network.FitsWidths ∧ c.buildTextHandle name d = .ok h ∧ o.fields = some h.flatten

/-- The exported form of a handle becomes that handle, if it is read as it. -/
theorem hostRegistry_unflatten {h : Handle} (hread : Handle.deserialize h.flatten = .ok h) :
    hostRegistry.unflattenObject EngineOp.className h.flatten = .ok (EngineOp.object (some h)) := by
  have hclass : hostRegistry.class? EngineOp.className =
      some ⟨EngineOp.flatten, EngineOp.unflatten⟩ := rfl
  rw [Registry.unflattenObject, hclass]
  dsimp only
  rw [EngineOp.unflatten, hread]
  rfl

/-- Live objects of exported handles are these handles. -/
theorem hostRegistry_isBuilt {o : StoredObject} (ho : o.className = EngineOp.className → o.IsBuilt)
    {live : Object}
    (hlive : hostRegistry.unflattenObject o.className (o.fields.getD []) = .ok live) :
    live.IsBuilt := by
  -- There is only one class.
  have hclass : o.className = EngineOp.className := by
    unfold Registry.unflattenObject at hlive
    split at hlive
    next => cases hlive
    next c hc =>
    have hmem := mem_of_lookup hc
    rw [hostRegistry, List.mem_singleton] at hmem
    exact (Prod.mk.inj hmem).1
  obtain ⟨config, name, d, h, hwidths, hbuild, hfields⟩ := ho hclass
  have hbuilt := Handle.builtFrom_of_buildTextHandle hwidths hbuild
  rw [hclass, hfields, Option.getD_some,
    hostRegistry_unflatten hbuilt.deserialize_flatten] at hlive
  cases hlive
  intro h' heq
  cases heq
  exact ⟨d, hbuilt⟩

namespace BoundProgram

/-- Rebuilt engines were built. -/
theorem rebuild_isBuilt {program : String} {stored : List StoredObject}
    (hstored : ∀ o ∈ stored, o.className = EngineOp.className → o.IsBuilt)
    {objects : List (String × Object)}
    (hok : rebuild hostRegistry program stored = .ok objects) : ∀ x ∈ objects, x.2.IsBuilt := by
  induction stored generalizing objects with
  | nil =>
    cases hok
    simp
  | cons o more ih =>
    rw [rebuild] at hok
    split at hok
    next => cases hok
    next live hlive =>
    obtain ⟨rest, hrest, rfl⟩ := map_eq_ok_iff.mp hok
    rw [List.forall_mem_cons] at hstored ⊢
    exact ⟨hostRegistry_isBuilt hstored.1 hlive, ih hstored.2 hrest⟩

/-- What binding a program to the registry of the host gives. -/
theorem bind_ok {p : Program} {b : BoundProgram} (hok : bind hostRegistry p = .ok b)
    (hstored : ∀ o ∈ p.objects, o.className = EngineOp.className → o.IsBuilt) :
    b.program.validate = .ok () ∧ b.registry = hostRegistry ∧ ∀ x ∈ b.objects, x.2.IsBuilt := by
  obtain ⟨hvalid, ⟨objects, hobjects, rfl⟩, -⟩ := bind_ok_iff.mp hok
  exact ⟨hvalid, rfl, rebuild_isBuilt hstored hobjects⟩

/-! ### Calls -/

/-- The values that are defined in both runs: in one they describe those in the other. -/
abbrev EnvDescribes (vague : Prop) (env env' : Env) : Prop :=
  Matches (Value.Both (Value.Describes vague)) env env'

variable {vague : Prop} {b : BoundProgram} {env env' : Env}

/-- The arguments of a call. -/
theorem tensors_describes (henv : EnvDescribes vague env env') {name : String} {i : Nat}
    {args : List String} {inputs : List Tensor}
    (hok : Registry.tensors name i (args.map fun a => (env.lookup a).join) = .ok inputs) :
    ∃ descs, Registry.descriptors name i (args.map fun a => (env'.lookup a).join) = .ok descs ∧
      List.Forall₂ (Descriptor.Describes vague) descs inputs := by
  -- The arguments are looked up one by one, in both tables.
  induction args generalizing i inputs with
  | nil =>
    cases hok
    exact ⟨[], rfl, .nil⟩
  | cons a more ih =>
    rw [List.map_cons] at hok ⊢
    unfold Registry.tensors at hok
    split at hok
    next heq => cases heq
    next t rest heq =>
      obtain ⟨ha, rfl⟩ := List.cons.inj heq
      obtain ⟨inputs, hinputs, rfl⟩ := map_eq_ok_iff.mp hok
      obtain ⟨descs, hdescs, hdescribes⟩ := ih hinputs
      obtain ⟨_, hv, _, _, hw, rfl, d, t', rfl, rfl, hd⟩ :=
        henv.lookup (Option.join_eq_some_iff.mp ha)
      cases hw
      refine ⟨d :: descs, ?_, .cons hd hdescribes⟩
      rw [hv, Option.join_some, Registry.descriptors, hdescs]
      rfl
    next => cases hok

/-- The values of a call. -/
theorem bindOutputs_describes (henv : EnvDescribes vague env env') (names : List String)
    {found : List Descriptor} {outs : List Tensor}
    (hfound : List.Forall₂ (Descriptor.Describes vague) found outs) :
    EnvDescribes vague (bindOutputs env names (Value.tensors outs))
      (bindOutputs env' names (Value.symbols found)) := by
  have hvalues : List.Forall₂ (Value.Describes vague) (outs.map .tensor) (found.map .symbol) := by
    rw [List.forall₂_map_left_iff, List.forall₂_map_right_iff]
    exact (hfound.imp fun d t hd => ⟨d, t, rfl, rfl, hd⟩).flip
  exact bindOutputs_both henv names hvalues

/-- An operator that is called in both runs follows. -/
theorem invoke_follows (henv : EnvDescribes vague env env') {name : String} {args : List String}
    {objects : List Object} (hobjects : ∀ o ∈ objects, o.IsBuilt) {s s₁ : Station} (hs : s.Uncached)
    {values : List (Option Value)}
    (hok : hostRegistry.invoke .concrete name (args.map fun a => (env.lookup a).join) objects s =
      (.ok values, s₁)) :
    s₁.Uncached ∧ ∃ found outs, values = Value.tensors outs ∧
      List.Forall₂ (Descriptor.Describes vague) found outs ∧
      ∀ s', (hostRegistry.invoke .symbolic name (args.map fun a => (env'.lookup a).join) objects
        s').1 = .ok (Value.symbols found) := by
  unfold Registry.invoke at hok ⊢
  cases hop : hostRegistry.operator? name with
  | none =>
    rw [hop] at hok
    cases hok
  | some op =>
    rw [hop] at hok
    cases hinputs : Registry.tensors name 0 (args.map fun a => (env.lookup a).join) with
    | error f =>
      dsimp only at hok
      rw [hinputs] at hok
      cases hok
    | ok inputs =>
      dsimp only at hok ⊢
      obtain ⟨descs, hdescs, hdescribes⟩ := tensors_describes henv hinputs
      rw [hinputs] at hok
      rw [hdescs]
      dsimp only at hok ⊢
      -- Looking up the operator and the arguments is the same in both runs; the kernels follow.
      obtain ⟨hkeeps, hfollows⟩ := hostRegistry_follows hop hdescribes hobjects hs
      rw [hok] at hkeeps hfollows
      exact ⟨hkeeps, hfollows values rfl⟩

/-- **One call**: where it succeeds on tensors it does on symbols, and defines the same names. -/
theorem callNode_follows (hregistry : b.registry = hostRegistry)
    (hobjects : ∀ x ∈ b.objects, x.2.IsBuilt) (henv : EnvDescribes vague env env')
    {n : ProgramNode} {s s₁ : Station} (hs : s.Uncached) {next : Env}
    (hok : b.callNode .concrete env n s = (.ok next, s₁)) :
    s₁.Uncached ∧ ∃ next', EnvDescribes vague next next' ∧
      ∀ s', (b.callNode .symbolic env' n s').1 = .ok next' := by
  -- Only objects of the program are handed over.
  have hlive : ∀ o ∈ n.objects.filterMap fun o => b.objects.lookup o, o.IsBuilt := by
    intro o ho
    obtain ⟨name, -, hname⟩ := List.mem_filterMap.mp ho
    exact hobjects _ (mem_of_lookup hname)
  unfold callNode at hok ⊢
  rw [hregistry] at hok ⊢
  dsimp only at hok ⊢
  split at hok
  next => cases hok
  next values s₂ hinvoke =>
  split at hok
  next => cases hok
  next hcount =>
  cases hok
  obtain ⟨hkeeps, found, outs, rfl, hfound, hsymbolic⟩ := invoke_follows henv hlive hs hinvoke
  refine ⟨hkeeps, _, bindOutputs_describes henv n.outputList hfound, fun s' => ?_⟩
  -- The trace passes the count of values because the run did.
  have hlen : (Value.symbols found).length = n.outputList.length := by
    rw [← not_not.mp hcount, Value.length_symbols, Value.length_tensors, hfound.length_eq]
  rcases hrun : hostRegistry.invoke .symbolic n.op (n.argList.map fun a => (env'.lookup a).join)
    (n.objects.filterMap fun o => b.objects.lookup o) s' with ⟨out, s₂'⟩
  obtain rfl : out = .ok (Value.symbols found) := by rw [← hsymbolic s', hrun]
  dsimp only
  rw [if_neg (not_not.mpr hlen)]

/-- **All calls.** -/
theorem callNodes_follows (hregistry : b.registry = hostRegistry)
    (hobjects : ∀ x ∈ b.objects, x.2.IsBuilt) (henv : EnvDescribes vague env env')
    {nodes : List ProgramNode} {s s₁ : Station} (hs : s.Uncached) {final : Env}
    (hok : b.callNodes .concrete env nodes s = (.ok final, s₁)) :
    ∃ final', EnvDescribes vague final final' ∧
      ∀ s', (b.callNodes .symbolic env' nodes s').1 = .ok final' := by
  -- Tables and stations change from call to call; the trace may be in any station.
  induction nodes generalizing env env' s with
  | nil =>
    cases hok
    exact ⟨env', henv, fun _ => rfl⟩
  | cons n more ih =>
    rw [callNodes] at hok
    split at hok
    next => cases hok
    next next s₂ hcall =>
    obtain ⟨hkeeps, next', hnext, hsymbolic⟩ := callNode_follows hregistry hobjects henv hs hcall
    obtain ⟨final', hfinal, hrest⟩ := ih hnext hkeeps hok
    refine ⟨final', hfinal, fun s' => ?_⟩
    rw [callNodes]
    rcases hrun : b.callNode .symbolic env' n s' with ⟨out, s₂'⟩
    obtain rfl : out = .ok next' := by rw [← hsymbolic s', hrun]
    exact hrest s₂'

/-! ### Runs -/

/-- Tensors by name, as a run is given them. -/
def tensorInputs (tensors : List (String × Tensor)) : List (String × Option Value) :=
  tensors.map fun x => (x.1, some (.tensor x.2))

/-- Descriptors by name, as a trace is given them. -/
def symbolInputs (descs : List (String × Descriptor)) : List (String × Option Value) :=
  descs.map fun x => (x.1, some (.symbol x.2))

/-- Descriptors by name for tensors by name, each in the relation `R` to its tensor. -/
structure InputsRelate (R : Descriptor → Tensor → Prop) (descs : List (String × Descriptor))
    (tensors : List (String × Tensor)) : Prop where
  length_eq : descs.length = tensors.length
  lookup : ∀ name t, tensors.lookup name = some t → ∃ d, descs.lookup name = some d ∧ R d t

/-- A relation may be replaced by another one that holds wherever it does. -/
theorem InputsRelate.imp {R R' : Descriptor → Tensor → Prop} {descs : List (String × Descriptor)}
    {tensors : List (String × Tensor)} (h : InputsRelate R descs tensors)
    (himp : ∀ name d t, (name, d) ∈ descs → R d t → R' d t) : InputsRelate R' descs tensors := by
  refine ⟨h.length_eq, fun name t ht => ?_⟩
  obtain ⟨d, hd, hR⟩ := h.lookup name t ht
  exact ⟨d, hd, himp name d t (mem_of_lookup hd) hR⟩

/-- Values may be changed before or after they are looked up. -/
theorem lookup_map_snd (table : List (String × α)) (f : α → β) (name : String) :
    (table.map fun x => (x.1, f x.2)).lookup name = (table.lookup name).map f := by
  induction table with
  | nil => rfl
  | cons x more ih =>
    rw [List.map_cons, List.lookup_cons, List.lookup_cons, ih]
    split <;> rfl

/-- A known size that differs from a declared one is the tensor's. -/
theorem differs_of_describes {dims sizes : Shape}
    (hdims : List.Forall₂ (DimDescribes vague) dims sizes) {declared : Shape}
    (h : ((declared.zip dims).any fun (want, got) => 0 ≤ want && 0 ≤ got && got ≠ want) = true) :
    ((declared.zip sizes).any fun (want, got) => 0 ≤ want && 0 ≤ got && got ≠ want) = true := by
  induction hdims generalizing declared with
  | nil => exact h
  | @cons dim size _ _ hdim _ ih =>
    cases declared with
    | nil => exact h
    | cons want declared =>
      rw [List.zip_cons_cons, List.any_cons, Bool.or_eq_true] at h ⊢
      refine h.imp (fun hhead => ?_) ih
      have hknown : 0 ≤ dim := by
        simp only [Bool.and_eq_true, decide_eq_true_eq] at hhead
        exact hhead.1.2
      rwa [← hdim.eq_of_nonneg hknown]

/-- A declaration that admits a tensor admits what describes it. -/
theorem checkInput_describes {spec : ProgramInput} {d : Descriptor} {t : Tensor}
    (hd : d.Describes vague t) (hok : checkInput spec t.descriptor = .ok ()) :
    checkInput spec d = .ok () := by
  unfold checkInput at hok ⊢
  dsimp only at hok ⊢
  split at hok
  next => cases hok
  next hdtype =>
  split at hok
  next => cases hok
  next hrank =>
  split at hok
  next => cases hok
  next hsizes =>
  rw [if_neg (not_not.mpr (hd.dtype.trans (not_not.mp hdtype))),
    if_neg (not_not.mpr (hd.shape.length_eq.trans (not_not.mp hrank))),
    if_neg fun hdiffers => hsizes (differs_of_describes hd.shape hdiffers)]

/-- The inputs of a run. -/
theorem takeInputs_describes {descs : List (String × Descriptor)} {tensors : List (String × Tensor)}
    (hinputs : InputsRelate (Descriptor.Describes vague) descs tensors) {program : String}
    (henv : EnvDescribes vague env env') {specs : List ProgramInput} {final : Env}
    (hok : takeInputs program (tensorInputs tensors) env specs = .ok final) :
    ∃ final', takeInputs program (symbolInputs descs) env' specs = .ok final' ∧
      EnvDescribes vague final final' := by
  -- Both tables grow by the input that is taken.
  induction specs generalizing env env' with
  | nil =>
    cases hok
    exact ⟨env', rfl, henv⟩
  | cons spec more ih =>
    rw [takeInputs, tensorInputs, lookup_map_snd tensors fun t => some (Value.tensor t)] at hok
    cases ht : tensors.lookup spec.name with
    | none =>
      rw [ht] at hok
      cases hok
    | some t =>
      obtain ⟨d, hd, hdescribes⟩ := hinputs.lookup spec.name t ht
      rw [ht] at hok
      dsimp only [Option.map_some, Option.join_some] at hok
      split at hok
      next => cases hok
      next hcheck =>
      have hnext : EnvDescribes vague ((spec.name, some (.tensor t)) :: env)
          ((spec.name, some (.symbol d)) :: env') :=
            .cons ⟨rfl, _, _, rfl, rfl, d, t, rfl, rfl, hdescribes⟩ henv
      obtain ⟨final', hfinal, hrest⟩ := ih hnext hok
      refine ⟨final', ?_, hrest⟩
      rw [takeInputs, symbolInputs, lookup_map_snd descs fun d => some (Value.symbol d), hd]
      dsimp only [Option.map_some, Option.join_some]
      rw [show (Value.symbol d).descriptor = d from rfl, checkInput_describes hdescribes hcheck]
      exact hfinal

/-- The outputs of a run. -/
theorem outputs_describes (henv : EnvDescribes vague env env') {names : List String}
    (hnames : ∀ o ∈ names, o ∈ Env.names env) :
    ∃ found outs, names.map (fun o => (env.lookup o).join) = Value.tensors outs ∧
      names.map (fun o => (env'.lookup o).join) = Value.symbols found ∧
      List.Forall₂ (Descriptor.Describes vague) found outs := by
  obtain ⟨ws, vs, hws, hvs, hvalues⟩ := outputs_both henv hnames
  rw [hws, hvs]
  -- From here on only the two lists of values matter.
  clear hws hvs hnames
  induction hvalues with
  | nil => exact ⟨[], [], rfl, rfl, .nil⟩
  | cons hvalue _ ih =>
    obtain ⟨d, t, rfl, rfl, hd⟩ := hvalue
    obtain ⟨found, outs, houts, hfound, hrest⟩ := ih
    refine ⟨d :: found, t :: outs, ?_, ?_, .cons hd hrest⟩
    · exact congrArg (some (Value.tensor t) :: ·) houts
    · exact congrArg (some (Value.symbol d) :: ·) hfound

/-- **Runs**: a trace on descriptions of the inputs finds descriptions of the outputs. -/
theorem run_follows (hregistry : b.registry = hostRegistry)
    (hvalid : b.program.validate = .ok ()) (hobjects : ∀ x ∈ b.objects, x.2.IsBuilt) {s : Station}
    (hs : s.Uncached) {tensors : List (String × Tensor)} {out : List (Option Value)}
    (hok : (b.run .concrete (tensorInputs tensors) s).1 = .ok out)
    {descs : List (String × Descriptor)}
    (hinputs : InputsRelate (Descriptor.Describes vague) descs tensors) :
    ∃ found outs, out = Value.tensors outs ∧
      List.Forall₂ (Descriptor.Describes vague) found outs ∧
      ∀ s', (b.run .symbolic (symbolInputs descs) s').1 = .ok (Value.symbols found) := by
  obtain ⟨hcount, env, final, s₁, htake, hcalls, rfl⟩ := run_eq_ok_iff.mp hok
  -- The three stages in order: inputs, calls, outputs.
  obtain ⟨env', htake', henv⟩ := takeInputs_describes hinputs (.nil) htake
  obtain ⟨final', hfinal, hsymbolic⟩ := callNodes_follows hregistry hobjects henv hs hcalls
  obtain ⟨found, outs, houts, hfound, hdescribes⟩ :=
    outputs_describes hfinal fun o ho => mem_names_of_output hvalid htake hcalls ho
  refine ⟨found, outs, houts, hdescribes, fun s' => ?_⟩
  have hlen : (symbolInputs descs).length = b.program.inputList.length := by
    rw [← hcount, symbolInputs, tensorInputs, List.length_map, List.length_map, hinputs.length_eq]
  exact run_eq_ok_iff.mpr ⟨hlen, env', final', _, htake', Prod.ext (hsymbolic s') rfl, hfound.symm⟩

/-- Tensors are described by their own descriptors. -/
theorem descriptors_describe (tensors : List (String × Tensor)) :
    InputsRelate (Descriptor.Describes False) (tensors.map fun x => (x.1, x.2.descriptor))
      tensors := by
  refine ⟨List.length_map _, fun name t ht => ⟨t.descriptor, ?_, rfl, ?_, ?_⟩⟩
  · rw [lookup_map_snd tensors Tensor.descriptor, ht]
    rfl
  · exact Device.same_iff.mpr rfl
  · exact List.forall₂_same.mpr fun _ _ => .inl rfl

/-- **Tracing abstracts running.** Let a program be bound to the registry of the host, its engines
being the exported forms of handles that were built, and let it run on tensors in a station that
keeps no engines. Then it can be traced, in any station, on all descriptors that abstract these
tensors, and what is found abstracts what came out, one by one; and is equal to it, if every size
was known. -/
theorem run_symbolic_abstracts {r : Registry} (hr : Registry.standard = .ok r) {p : Program}
    (hbind : bind r p = .ok b)
    (hstored : ∀ o ∈ p.objects, o.className = EngineOp.className → o.IsBuilt) {s : Station}
    (hs : s.Uncached) {tensors : List (String × Tensor)} {out : List (Option Value)}
    (hok : (b.run .concrete (tensorInputs tensors) s).1 = .ok out) :
    ∃ outs : List Tensor, out = Value.tensors outs ∧
      ∀ descs, InputsRelate Descriptor.Abstracts descs tensors → ∀ s' : Station,
        ∃ found, (b.run .symbolic (symbolInputs descs) s').1 = .ok (Value.symbols found) ∧
          List.Forall₂ Descriptor.Abstracts found outs ∧
          ((∀ x ∈ descs, x.2.shape.isStatic = true) →
            List.Forall₂ (fun d t => d.same t.descriptor = true) found outs) := by
  obtain rfl := Except.ok.inj (Registry.standard_eq.symm.trans hr)
  obtain ⟨hvalid, hregistry, hobjects⟩ := bind_ok hbind hstored
  -- What came out is a list of tensors, as the trace on their own descriptors shows.
  obtain ⟨-, outs, rfl, -, -⟩ :=
    run_follows hregistry hvalid hobjects hs hok (descriptors_describe tensors)
  refine ⟨outs, rfl, fun descs hinputs s' => ?_⟩
  obtain ⟨found, outs', heq, hdescribes, hrun⟩ := run_follows hregistry hvalid hobjects hs hok
    (hinputs.imp fun _ _ _ _ hd => hd.describes)
  obtain rfl := Value.tensors_injective heq
  refine ⟨found, hrun s', hdescribes.imp fun _ _ hd => hd.abstracts, fun hstatic => ?_⟩
  -- With every size known the same trace also leaves nothing open.
  obtain ⟨found', outs', heq', hexact, hrun'⟩ := run_follows hregistry hvalid hobjects hs hok
    (hinputs.imp fun name d _ hmem hd => hd.describes_static (hstatic (name, d) hmem))
  obtain rfl := Value.tensors_injective heq'
  obtain rfl := Value.symbols_injective (Except.ok.inj ((hrun s').symm.trans (hrun' s')))
  exact hexact.imp fun _ _ hd => hd.same

/-- Copies its input and runs an engine on the copy. -/
def copyAndRun (h : Handle) : Program where
  name := "run"
  inputs := some [{ name := "x", dtype := .float32, shape := some [2, -1], device := .cpu }]
  objects := [⟨"engine", EngineOp.className, some h.flatten⟩]
  nodes := some [
    { name := "copy", op := Native.identityName, args := some ["x"], outputs := some ["y"] },
    { name := "run", op := EngineOp.operatorName, args := some ["y"], objects := ["engine"],
      outputs := some ["z"] }]
  outputs := some ["z"]

/-- The program with its engine. -/
def copyAndRunBound (h : Handle) : BoundProgram :=
  ⟨copyAndRun h, hostRegistry, [("engine", EngineOp.object (some h))]⟩

/-- The program is bound with the engine that it holds. -/
theorem bind_copyAndRun {h : Handle} {d : NetworkDraft} (hbuilt : h.BuiltFrom d) :
    bind hostRegistry (copyAndRun h) = .ok (copyAndRunBound h) := by
  have hrebuild : rebuild hostRegistry "run" (copyAndRun h).objects =
      .ok [("engine", EngineOp.object (some h))] := by
    rw [copyAndRun, rebuild, Option.getD_some, hostRegistry_unflatten hbuilt.deserialize_flatten]
    rfl
  exact bind_eq_ok_iff.mpr ⟨(), rfl, bind_eq_ok_iff.mpr ⟨_, hrebuild, rfl⟩⟩

/-- Exchanges the axes of two rows of any length. -/
def turning : NetworkDraft where
  inputs := [{ name := [120], min := some [2, 0], max := some [2, -1] }]
  layers := [{ label := Bytes.ofText "transpose", operands := [[120]], output := [121] }]
  outputs := [[121]]

/-- The network fits the widths. -/
theorem turning_fitsWidths : turning.network.FitsWidths :=
  ⟨by decide, by decide, by decide, by decide, by decide⟩

/-- The handle of the network. -/
def turningHandle : Handle :=
  (BuildConfig.buildTextHandle {} "turn" turning).toOption.get (by decide +kernel)

/-- The handle is what is built. -/
theorem turningHandle_eq : BuildConfig.buildTextHandle {} "turn" turning = .ok turningHandle :=
  eq_ok_get _

/-- A station that keeps no engines. -/
def plainStation : Station where
  executor :=
    { runtimes := [OnnxRuntime.runtime .absent {}, PlanRuntime.runtime {}], isCaching := false }

/-- Two rows of one. -/
def column : Tensor where
  elements := .float32 #[⟨0x3F800000⟩, ⟨0x40000000⟩]
  shape := [2, 1]
  device := .cpu
  isStatic := by decide
  count_eq := by decide

set_option maxRecDepth 20000 in
/-- The program runs on two rows of one. -/
theorem turning_runs : ((copyAndRunBound turningHandle).run .concrete
    (tensorInputs [("x", column)]) plainStation).1.toOption.isSome = true := by
  decide +kernel

/-- The number of columns is left open and the number of rows is known; after the exchange it is the
other way round. -/
theorem run_symbolic_abstracts_turning :
    ∃ outs : List Tensor,
      ((copyAndRunBound turningHandle).run .concrete (tensorInputs [("x", column)])
        plainStation).1 = .ok (Value.tensors outs) ∧
      ((copyAndRunBound turningHandle).run .symbolic
        (symbolInputs [("x", ⟨.float32, [2, -1], ⟨"", 0⟩⟩)]) {}).1 =
        .ok [some (.symbol ⟨.float32, [-1, 2], .cpu⟩)] ∧
      List.Forall₂ Descriptor.Abstracts [⟨.float32, [-1, 2], .cpu⟩] outs := by
  have hbuilt := Handle.builtFrom_of_buildTextHandle turning_fitsWidths turningHandle_eq
  have hstored : ∀ o ∈ (copyAndRun turningHandle).objects, o.className = EngineOp.className →
      o.IsBuilt := by
    intro o ho _
    obtain rfl := List.mem_singleton.mp ho
    exact ⟨{}, "turn", turning, turningHandle, turning_fitsWidths, turningHandle_eq, rfl⟩
  have hrun := eq_ok_get turning_runs
  obtain ⟨outs, hout, htrace⟩ := run_symbolic_abstracts Registry.standard_eq
    (bind_copyAndRun hbuilt) hstored ⟨rfl, .absent, {}, "", rfl⟩ hrun
  have hinputs : InputsRelate Descriptor.Abstracts [("x", ⟨.float32, [2, -1], ⟨"", 0⟩⟩)]
      [("x", column)] := by
    refine ⟨rfl, fun name t ht => ?_⟩
    obtain ⟨rfl, rfl⟩ := Prod.mk.inj (List.mem_singleton.mp (mem_of_lookup ht))
    exact ⟨_, rfl, rfl, rfl, .cons (.inr rfl) (.cons (.inl (by decide)) .nil)⟩
  obtain ⟨found, hfound, habstracts, -⟩ := htrace _ hinputs {}
  have hsymbols : ((copyAndRunBound turningHandle).run .symbolic
      (symbolInputs [("x", ⟨.float32, [2, -1], ⟨"", 0⟩⟩)]) {}).1 =
      .ok (Value.symbols [⟨.float32, [-1, 2], .cpu⟩]) := by
    rfl
  obtain rfl := Value.symbols_injective (Except.ok.inj (hfound.symm.trans hsymbols))
  exact ⟨outs, hout ▸ hrun, hsymbols, habstracts⟩

end BoundProgram

end EngineHost
