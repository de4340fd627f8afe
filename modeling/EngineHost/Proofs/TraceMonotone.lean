import EngineHost.Proofs.ProgramTracing

/-!
# Tracing with less to go by

A descriptor loosens to another if the other differs only in sizes that it leaves open
(`Descriptor.LoosensTo`). If a program can be traced on some inputs, it can be traced on whatever
these loosen to, and what it finds there is what the first trace loosens to
(`BoundProgram.run_symbolic_monotone`): leaving sizes open can cost knowledge of the outputs, never
the trace.

The two traces are compared as `ProgramTracing` compares a trace with a run:

* `Operator.Monotone` — one operator, from a trace of it that succeeded to every looser one. A sum
  takes the known one of two sizes (`Native.joinDims_loosens`), so it has to be shown that loosening
  one of them never brings out another; an engine copies sizes or has its own
  (`Tracer.resolveDim_loosens`). The engine operator needs handles that say what their outputs look
  like (`Object.SaysOutputs`): where one is probed instead, every size has to be known;
* `EnvLoosens` — the values that are defined, kept by a call and hence by all calls
  (`BoundProgram.callNodes_loosens`).

What either trace is made in does not matter: handles with metadata are traced without the station.
-/

namespace EngineHost

/-! ### Loosening -/

/-- A size that is kept or left open. -/
def DimLoosensTo (size dim : Int64) : Prop :=
  dim < 0 ∨ dim = size

/-- A size that is known after loosening was there before. -/
theorem DimLoosensTo.eq_of_nonneg {size dim : Int64} (h : DimLoosensTo size dim) (hdim : 0 ≤ dim) :
    dim = size :=
  h.resolve_left (Int64.not_lt.mpr hdim)

/-- What is left open stays so. -/
theorem DimLoosensTo.neg {size dim : Int64} (h : DimLoosensTo size dim) (hsize : size < 0) :
    dim < 0 :=
  h.elim id fun heq => heq ▸ hsize

/-- **A descriptor loosens to another**: the other leaves some of its sizes open. -/
structure Descriptor.LoosensTo (d e : Descriptor) : Prop where
  dtype : e.dtype = d.dtype
  device : e.device = d.device
  shape : List.Forall₂ DimLoosensTo d.shape e.shape

/-- Loosening keeps the rank. -/
theorem Descriptor.LoosensTo.rank {d e : Descriptor} (h : d.LoosensTo e) :
    e.shape.length = d.shape.length :=
  h.shape.length_eq.symm

/-- Values loosen as their descriptors do. -/
def Value.LoosensTo (v w : Value) : Prop :=
  v.descriptor.LoosensTo w.descriptor

/-- An engine among objects says what its outputs look like. -/
def Object.SaysOutputs (o : Object) : Prop :=
  ∀ h, o.value = .engine (some h) → h.metadata.outputs ≠ []

/-- **An operator is monotone**: if it can be traced, it can be traced on whatever its inputs loosen
to, in any station, and finds what it found or less. -/
def Operator.Monotone (op : Operator) : Prop :=
  ∀ ⦃descs looser : List Descriptor⦄ ⦃objects : List Object⦄ ⦃s : Station⦄,
    List.Forall₂ Descriptor.LoosensTo descs looser → (∀ o ∈ objects, o.SaysOutputs) →
    ∀ results, (op.symbolic descs objects s).1 = .ok results →
      ∃ found found', results = Value.symbols found ∧
        List.Forall₂ Descriptor.LoosensTo found found' ∧
        ∀ s', (op.symbolic looser objects s').1 = .ok (Value.symbols found')

/-! ### The operators of the host -/

namespace Native

/-- An operator that reads descriptors only is monotone if its function is. -/
theorem monotone_of_pure {f : List Descriptor → Except Failure (List Descriptor)}
    {concrete : OperatorKernel Tensor}
    (hf : ∀ {descs looser found}, List.Forall₂ Descriptor.LoosensTo descs looser →
      f descs = .ok found → ∃ found', f looser = .ok found' ∧
        List.Forall₂ Descriptor.LoosensTo found found') :
    Operator.Monotone ⟨pureKernel Value.symbols f, concrete⟩ := by
  intro descs looser objects s hdescs _ results hresults
  obtain ⟨found, hfound, rfl⟩ := map_eq_ok_iff.mp hresults
  obtain ⟨found', hlooser, hloosens⟩ := hf hdescs hfound
  exact ⟨found, found', rfl, hloosens, fun _ => map_eq_ok_iff.mpr ⟨found', hlooser, rfl⟩⟩

/-- An operator that hands its input on hands on what it loosens to. -/
theorem same_monotone (name : String) (concrete : OperatorKernel Tensor) :
    Operator.Monotone ⟨pureKernel Value.symbols (same name), concrete⟩ := by
  refine monotone_of_pure fun {descs looser found} hdescs hok => ?_
  unfold same at hok
  split at hok
  next d =>
    cases hok
    obtain ⟨e, es, hd, hes, rfl⟩ := List.forall₂_cons_left_iff.mp hdescs
    obtain rfl := List.forall₂_nil_left_iff.mp hes
    exact ⟨[e], rfl, hdescs⟩
  next => cases hok

/-- One axis of a sum. `a` and `b` were joined; `c` and `d` are what is left of them. -/
theorem join_loosens {a b c d : Int64} (hac : DimLoosensTo a c) (hbd : DimLoosensTo b d) :
    (a < 0 → DimLoosensTo b (if c < 0 then d else c)) ∧
      (¬a < 0 → b < 0 ∨ a = b → DimLoosensTo a (if c < 0 then d else c)) := by
  constructor
  · intro ha
    rw [if_pos (hac.neg ha)]
    exact hbd
  · intro ha hagree
    by_cases hc : c < 0
    · rw [if_pos hc]
      -- Only the other size is left; it was open already, or it was the same.
      rcases hagree with hb | rfl
      · exact .inl (hbd.neg hb)
      · exact hbd
    · rw [if_neg hc]
      exact hac

/-- All axes of a sum. -/
theorem joinDims_loosens {as bs cs ds : Shape} (hac : List.Forall₂ DimLoosensTo as cs)
    (hbd : List.Forall₂ DimLoosensTo bs ds) {i : Nat} {joined : Shape}
    (hok : joinDims i as bs = .ok joined) :
    ∃ joined', joinDims i cs ds = .ok joined' ∧ List.Forall₂ DimLoosensTo joined joined' := by
  induction hac generalizing bs ds i joined with
  | nil =>
    cases hok
    exact ⟨[], rfl, .nil⟩
  | @cons a c as cs hac _ ih =>
    cases hbd with
    | nil =>
      cases hok
      exact ⟨[], rfl, .nil⟩
    | @cons b d bs ds hbd hrest =>
      obtain ⟨hopen, hknown⟩ := join_loosens hac hbd
      -- The looser sizes never clash: two that are both known were so before.
      have hagree : ¬a < 0 → b < 0 ∨ a = b → ¬c < 0 → d < 0 ∨ c = d := by
        intro ha hab hc
        have hca : c = a := hac.eq_of_nonneg (Int64.not_lt.mp hc)
        by_cases hd : d < 0
        · exact .inl hd
        · have hdb : d = b := hbd.eq_of_nonneg (Int64.not_lt.mp hd)
          rcases hab with hb | rfl
          · exact absurd (hdb ▸ hb) hd
          · exact .inr (hca.trans hdb.symm)
      -- The join of the looser sizes, once it is known that they do not clash.
      have hjoin : ∀ {rest}, joinDims (i + 1) cs ds = .ok rest →
          (¬c < 0 → d < 0 ∨ c = d) →
          joinDims i (c :: cs) (d :: ds) = .ok ((if c < 0 then d else c) :: rest) := by
        intro rest hjoined hcd
        rw [joinDims, hjoined]
        by_cases hc : c < 0
        · rw [if_pos hc, if_pos hc]
          rfl
        · rw [if_neg hc, if_pos (hcd hc), if_neg hc]
          rfl
      -- The size that was taken is the second one where the first was open, and the first one else.
      rw [joinDims] at hok
      split at hok
      next ha =>
        obtain ⟨rest, hjoined, rfl⟩ := map_eq_ok_iff.mp hok
        obtain ⟨rest', hjoined', hloosens⟩ := ih hrest hjoined
        exact ⟨_, hjoin hjoined' fun hc => absurd (hac.neg ha) hc, .cons (hopen ha) hloosens⟩
      next ha =>
      split at hok
      next hab =>
        obtain ⟨rest, hjoined, rfl⟩ := map_eq_ok_iff.mp hok
        obtain ⟨rest', hjoined', hloosens⟩ := ih hrest hjoined
        exact ⟨_, hjoin hjoined' (hagree ha hab), .cons (hknown ha hab) hloosens⟩
      next => cases hok

/-- Kinds are compared without the sizes. -/
theorem checkSameKind_loosens {a b c d : Descriptor} (hac : a.LoosensTo c) (hbd : b.LoosensTo d)
    (hok : checkSameKind a b = .ok ()) : checkSameKind c d = .ok () := by
  unfold checkSameKind at hok ⊢
  rw [hac.dtype, hbd.dtype, hac.device, hbd.device, hac.rank, hbd.rank]
  split at hok
  next => cases hok
  next hdtype =>
  split at hok
  next => cases hok
  next hdevice =>
  split at hok
  next => cases hok
  next hrank => rw [if_neg hdtype, if_neg hdevice, if_neg hrank]

/-- Adding is monotone. -/
theorem addSymbolic_monotone (concrete : OperatorKernel Tensor) :
    Operator.Monotone ⟨pureKernel Value.symbols addSymbolic, concrete⟩ := by
  refine monotone_of_pure fun {descs looser found} hdescs hok => ?_
  unfold addSymbolic at hok
  split at hok
  next a b =>
    obtain ⟨⟨⟩, hkind, hok⟩ := bind_eq_ok_iff.mp hok
    split at hok
    next joined hjoined =>
      cases hok
      obtain ⟨c, cs, hac, hcs, rfl⟩ := List.forall₂_cons_left_iff.mp hdescs
      obtain ⟨d, ds, hbd, hds, rfl⟩ := List.forall₂_cons_left_iff.mp hcs
      obtain rfl := List.forall₂_nil_left_iff.mp hds
      obtain ⟨joined', hjoined', hloosens⟩ := joinDims_loosens hac.shape hbd.shape hjoined
      refine ⟨[⟨c.dtype, joined', c.device⟩], ?_, .cons ⟨hac.dtype, hac.device, hloosens⟩ .nil⟩
      rw [addSymbolic, checkSameKind_loosens hac hbd hkind, hjoined']
      rfl
    next => cases hok
  next => cases hok

end Native

/-! ### Handles with metadata -/

namespace Tracer

variable {h : Handle} {descs looser : List Descriptor}

/-- Devices are checked without the sizes. -/
theorem checkDevices_loosens (hdescs : List.Forall₂ Descriptor.LoosensTo descs looser)
    (names : List String) (hok : checkDevices h names descs = .ok ()) :
    checkDevices h names looser = .ok () := by
  induction hdescs generalizing names with
  | nil => exact hok
  | @cons d e _ _ hd _ ih =>
    cases names with
    | nil => rfl
    | cons name more =>
      rw [checkDevices] at hok ⊢
      rw [hd.device]
      split at hok
      next hsame =>
        rw [if_pos hsame]
        exact ih more hok
      next => cases hok

/-- Only sizes that are known are held against a profile. -/
theorem outsideAxis_loosens {dims dims' : Shape} (hdims : List.Forall₂ DimLoosensTo dims dims')
    {lows highs : Shape} {axis : Nat} (hinside : outsideAxis axis dims lows highs = none) :
    outsideAxis axis dims' lows highs = none := by
  induction hdims generalizing lows highs axis with
  | nil => rfl
  | @cons size dim _ _ hdim _ ih =>
    cases lows with
    | nil => rfl
    | cons low lows =>
      cases highs with
      | nil => rfl
      | cons high highs =>
        rw [outsideAxis] at hinside ⊢
        split at hinside
        next => cases hinside
        next hin =>
          -- A size that is known after loosening was held against the profile before.
          have hin' : ¬(0 ≤ dim ∧ (!inProfile low high dim) = true) := by
            rintro ⟨hknown, hout⟩
            have hsame : dim = size := hdim.eq_of_nonneg hknown
            rw [hsame] at hknown hout
            exact hin ⟨hknown, hout⟩
          rw [if_neg hin']
          exact ih hinside

/-- What fits a spec fits it after loosening. -/
theorem inputProblem?_loosens {spec : InputSpec} {d e : Descriptor} (hd : d.LoosensTo e)
    (hfits : inputProblem? spec d = none) : inputProblem? spec e = none := by
  unfold inputProblem? at hfits ⊢
  rw [hd.dtype, hd.rank]
  split at hfits
  next => cases hfits
  next hdtype =>
  split at hfits
  next => cases hfits
  next hrank =>
    rw [if_neg hdtype, if_neg hrank]
    rw [Option.map_eq_none_iff] at hfits ⊢
    exact outsideAxis_loosens hd.shape hfits

/-- All specs. -/
theorem checkSpecs_loosens (hdescs : List.Forall₂ Descriptor.LoosensTo descs looser)
    (names : List String) (specs : List InputSpec) (hok : checkSpecs h names specs descs = .ok ()) :
    checkSpecs h names specs looser = .ok () := by
  induction hdescs generalizing names specs with
  | nil => exact hok
  | @cons d e _ _ hd _ ih =>
    cases names with
    | nil => rfl
    | cons name names =>
      cases specs with
      | nil => rfl
      | cons spec specs =>
        rw [checkSpecs] at hok ⊢
        split at hok
        next => cases hok
        next hfits =>
          rw [inputProblem?_loosens hd hfits]
          exact ih names specs hok

/-- Inputs that pass the checks pass them after loosening. -/
theorem checkInputs_loosens (hdescs : List.Forall₂ Descriptor.LoosensTo descs looser)
    (hok : checkInputs h descs = .ok ()) : checkInputs h looser = .ok () := by
  unfold checkInputs at hok ⊢
  rw [← hdescs.length_eq]
  split at hok
  next => cases hok
  next hcount =>
    obtain ⟨⟨⟩, hdevices, hspecs⟩ := bind_eq_ok_iff.mp hok
    rw [if_neg hcount, checkDevices_loosens hdescs h.inputNames hdevices]
    exact checkSpecs_loosens hdescs h.inputNames h.metadata.inputs hspecs

/-- **One axis of an output**: a size of its own, or a copy of a size that loosened. -/
theorem resolveDim_loosens (hdescs : List.Forall₂ Descriptor.LoosensTo descs looser)
    {output : String} {axis : Nat} {dim : DimSpec} {size : Int64}
    (hok : resolveDim h descs output axis dim = .ok size) :
    ∃ size', resolveDim h looser output axis dim = .ok size' ∧ DimLoosensTo size size' := by
  unfold resolveDim at hok ⊢
  split at hok
  next hstatic =>
    cases hok
    rw [if_pos hstatic]
    exact ⟨_, rfl, .inr rfl⟩
  next hstatic =>
  split at hok
  next => cases hok
  next haxis =>
  rw [if_neg hstatic, if_neg haxis]
  dsimp only at hok ⊢
  split at hok
  next found hfound =>
    cases hok
    -- The input that is copied from is there, and so is the axis.
    cases hinput : descs[h.inputNames.idxOf dim.input]? with
    | none =>
      rw [hinput] at hfound
      cases hfound
    | some d =>
      obtain ⟨e, he, hde⟩ := forall₂_getElem? hdescs hinput
      rw [hinput] at hfound
      obtain ⟨size', hsize', hloosens⟩ := forall₂_getElem? hde.shape hfound
      rw [he, Option.map_some, Option.getD_some, hsize']
      exact ⟨size', rfl, hloosens⟩
  next =>
    split at hok <;> cases hok

/-- All axes of an output. -/
theorem resolveDims_loosens (hdescs : List.Forall₂ Descriptor.LoosensTo descs looser)
    {output : String} {dims : List DimSpec} {axis : Nat} {sizes : Shape}
    (hok : resolveDims h descs output axis dims = .ok sizes) :
    ∃ sizes', resolveDims h looser output axis dims = .ok sizes' ∧
      List.Forall₂ DimLoosensTo sizes sizes' := by
  induction dims generalizing axis sizes with
  | nil =>
    cases hok
    exact ⟨[], rfl, .nil⟩
  | cons dim more ih =>
    obtain ⟨size, hsize, hok⟩ := bind_eq_ok_iff.mp hok
    obtain ⟨rest, hrest, hok⟩ := bind_eq_ok_iff.mp hok
    cases hok
    obtain ⟨size', hsize', hloosens⟩ := resolveDim_loosens hdescs hsize
    obtain ⟨rest', hrest', hmore⟩ := ih hrest
    refine ⟨size' :: rest', ?_, .cons hloosens hmore⟩
    exact bind_eq_ok_iff.mpr ⟨size', hsize', bind_eq_ok_iff.mpr ⟨rest', hrest', rfl⟩⟩

/-- All outputs. -/
theorem resolveOutputs_loosens (hdescs : List.Forall₂ Descriptor.LoosensTo descs looser)
    {specs : List OutputSpec} {found : List Descriptor}
    (hok : resolveOutputs h descs specs = .ok found) :
    ∃ found', resolveOutputs h looser specs = .ok found' ∧
      List.Forall₂ Descriptor.LoosensTo found found' := by
  induction specs generalizing found with
  | nil =>
    cases hok
    exact ⟨[], rfl, .nil⟩
  | cons spec more ih =>
    obtain ⟨shape, hshape, hok⟩ := bind_eq_ok_iff.mp hok
    obtain ⟨rest, hrest, hok⟩ := bind_eq_ok_iff.mp hok
    cases hok
    obtain ⟨shape', hshape', hloosens⟩ := resolveDims_loosens hdescs hshape
    obtain ⟨rest', hrest', hmore⟩ := ih hrest
    refine ⟨⟨spec.dtype, shape', h.device.device⟩ :: rest', ?_, .cons ⟨rfl, rfl, hloosens⟩ hmore⟩
    exact bind_eq_ok_iff.mpr ⟨shape', hshape', bind_eq_ok_iff.mpr ⟨rest', hrest', rfl⟩⟩

/-- **Tracing a handle that says what its outputs look like.** -/
theorem trace_loosens (hdescs : List.Forall₂ Descriptor.LoosensTo descs looser)
    (hsaid : h.metadata.outputs ≠ []) {t : Tracer} {σ : Type} {prober : Option (Prober σ)} {s : σ}
    {found : List Descriptor} (hok : (t.trace prober descs (some h) s).1 = .ok found) :
    ∃ found', List.Forall₂ Descriptor.LoosensTo found found' ∧
      ∀ (t' : Tracer) (s' : σ), t'.trace prober looser (some h) s' = (.ok found', t', s') := by
  have hmetadata : ¬h.metadata.outputs.isEmpty = true := by
    rw [List.isEmpty_iff]
    exact hsaid
  unfold trace at hok
  dsimp only at hok
  split at hok
  next => cases hok
  next hinputs =>
  rw [if_neg hmetadata] at hok
  obtain ⟨found', hfound', hloosens⟩ := resolveOutputs_loosens hdescs hok
  -- With metadata nothing is probed, so neither the tracer nor the state has a part in it.
  refine ⟨found', hloosens, fun t' s' => ?_⟩
  rw [trace, checkInputs_loosens hdescs hinputs]
  dsimp only
  rw [if_neg hmetadata, hfound']

end Tracer

/-- The engine operator is monotone. -/
theorem EngineOp.symbolic_monotone (concrete : OperatorKernel Tensor) :
    Operator.Monotone ⟨EngineOp.symbolic, concrete⟩ := by
  intro descs looser objects s hdescs hobjects results hok
  unfold EngineOp.symbolic at hok ⊢
  dsimp only at hok ⊢
  cases hhandle : handleOf objects with
  | error f =>
    rw [hhandle] at hok
    cases hok
  | ok h =>
    rw [hhandle] at hok
    -- The handle is that of an object, so it says what its outputs look like.
    obtain ⟨o, ho, hvalue⟩ := handleOf_ok hhandle
    obtain ⟨found, hfound, rfl⟩ := map_eq_ok_iff.mp hok
    obtain ⟨found', hloosens, htrace⟩ :=
      Tracer.trace_loosens hdescs (hobjects o ho h hvalue) hfound
    refine ⟨found, found', rfl, hloosens, fun s' => ?_⟩
    dsimp only
    rw [htrace]
    rfl

/-- Every operator of the host is monotone. -/
theorem hostRegistry_monotone {name : String} {op : Operator}
    (h : hostRegistry.operator? name = some op) : op.Monotone := by
  have hmem := mem_of_lookup h
  simp only [hostRegistry, List.mem_cons, Prod.mk.injEq, List.not_mem_nil, or_false] at hmem
  -- Of sizes, rectifying knows no more than handing on: both are traced by `same`.
  rcases hmem with ⟨-, rfl⟩ | ⟨-, rfl⟩ | ⟨-, rfl⟩ | ⟨-, rfl⟩
  · exact Native.same_monotone _ _
  · exact Native.addSymbolic_monotone _
  · exact Native.same_monotone _ _
  · exact EngineOp.symbolic_monotone _

namespace BoundProgram

/-! ### Calls -/

/-- The values that are defined in both traces: in one they loosen to those in the other. -/
abbrev EnvLoosens (env looser : Env) : Prop :=
  Matches (Value.Both Value.LoosensTo) env looser

variable {b : BoundProgram} {env looser : Env}

/-- The arguments of a call. -/
theorem descriptors_loosens (henv : EnvLoosens env looser) {name : String} {i : Nat}
    {args : List String} {descs : List Descriptor}
    (hok : Registry.descriptors name i (args.map fun a => (env.lookup a).join) = .ok descs) :
    ∃ descs', Registry.descriptors name i (args.map fun a => (looser.lookup a).join) = .ok descs' ∧
      List.Forall₂ Descriptor.LoosensTo descs descs' := by
  induction args generalizing i descs with
  | nil =>
    cases hok
    exact ⟨[], rfl, .nil⟩
  | cons a more ih =>
    rw [List.map_cons] at hok ⊢
    cases ha : (env.lookup a).join with
    | none =>
      rw [ha] at hok
      cases hok
    | some v =>
      rw [ha, Registry.descriptors] at hok
      obtain ⟨rest, hrest, rfl⟩ := map_eq_ok_iff.mp hok
      -- What is defined in one trace is defined in the other.
      obtain ⟨_, hw, _, w, heq, rfl, hvw⟩ := henv.lookup (Option.join_eq_some_iff.mp ha)
      cases heq
      obtain ⟨rest', hrest', hloosens⟩ := ih hrest
      refine ⟨w.descriptor :: rest', ?_, .cons hvw hloosens⟩
      rw [hw, Option.join_some, Registry.descriptors, hrest']
      rfl

/-- The values of a call. -/
theorem bindOutputs_loosens (henv : EnvLoosens env looser) (names : List String)
    {found found' : List Descriptor} (hfound : List.Forall₂ Descriptor.LoosensTo found found') :
    EnvLoosens (bindOutputs env names (Value.symbols found))
      (bindOutputs looser names (Value.symbols found')) := by
  have hvalues : List.Forall₂ Value.LoosensTo (found.map .symbol) (found'.map .symbol) := by
    rw [List.forall₂_map_left_iff, List.forall₂_map_right_iff]
    exact hfound
  exact bindOutputs_both henv names hvalues

/-- The call of an operator. -/
theorem invoke_loosens (henv : EnvLoosens env looser) {name : String}
    {args : List String} {objects : List Object} (hobjects : ∀ o ∈ objects, o.SaysOutputs)
    {s : Station} {values : List (Option Value)}
    (hok : (hostRegistry.invoke .symbolic name (args.map fun a => (env.lookup a).join) objects
      s).1 = .ok values) :
    ∃ found found', values = Value.symbols found ∧
      List.Forall₂ Descriptor.LoosensTo found found' ∧
      ∀ s', (hostRegistry.invoke .symbolic name (args.map fun a => (looser.lookup a).join) objects
        s').1 = .ok (Value.symbols found') := by
  unfold Registry.invoke at hok ⊢
  cases hop : hostRegistry.operator? name with
  | none =>
    rw [hop] at hok
    cases hok
  | some op =>
    rw [hop] at hok
    dsimp only at hok ⊢
    cases hdescs : Registry.descriptors name 0 (args.map fun a => (env.lookup a).join) with
    | error f =>
      rw [hdescs] at hok
      cases hok
    | ok descs =>
      obtain ⟨descs', hdescs', hloosens⟩ := descriptors_loosens henv hdescs
      rw [hdescs] at hok
      rw [hdescs']
      exact hostRegistry_monotone hop hloosens hobjects values hok

/-- **One call.** -/
theorem callNode_loosens (hregistry : b.registry = hostRegistry)
    (hobjects : ∀ x ∈ b.objects, x.2.SaysOutputs) (henv : EnvLoosens env looser)
    {n : ProgramNode} {s : Station} {next : Env}
    (hok : (b.callNode .symbolic env n s).1 = .ok next) :
    ∃ next', EnvLoosens next next' ∧
      ∀ s', (b.callNode .symbolic looser n s').1 = .ok next' := by
  -- Every engine that the call is given is one of the program's.
  have hlive : ∀ o ∈ n.objects.filterMap fun o => b.objects.lookup o, o.SaysOutputs := by
    intro o ho
    obtain ⟨name, -, hname⟩ := List.mem_filterMap.mp ho
    exact hobjects _ (mem_of_lookup hname)
  unfold callNode at hok ⊢
  rw [hregistry] at hok ⊢
  dsimp only at hok ⊢
  split at hok
  next => cases hok
  next values s₁ hinvoke =>
  split at hok
  next => cases hok
  next hcount =>
  cases hok
  obtain ⟨found, found', rfl, hless, hlooser⟩ :=
    invoke_loosens henv hlive (congrArg Prod.fst hinvoke)
  refine ⟨_, bindOutputs_loosens henv n.outputList hless, fun s' => ?_⟩
  -- As many values are found, so the looser call is not refused for their number.
  have hlen : (Value.symbols found').length = n.outputList.length := by
    rw [← not_not.mp hcount, Value.length_symbols, Value.length_symbols, hless.length_eq]
  rcases hrun : hostRegistry.invoke .symbolic n.op (n.argList.map fun a => (looser.lookup a).join)
    (n.objects.filterMap fun o => b.objects.lookup o) s' with ⟨out, s₂⟩
  obtain rfl : out = .ok (Value.symbols found') := by rw [← hlooser s', hrun]
  dsimp only
  rw [if_neg (not_not.mpr hlen)]

/-- **All calls.** -/
theorem callNodes_loosens (hregistry : b.registry = hostRegistry)
    (hobjects : ∀ x ∈ b.objects, x.2.SaysOutputs) (henv : EnvLoosens env looser)
    {nodes : List ProgramNode} {s : Station} {final : Env}
    (hok : (b.callNodes .symbolic env nodes s).1 = .ok final) :
    ∃ final', EnvLoosens final final' ∧
      ∀ s', (b.callNodes .symbolic looser nodes s').1 = .ok final' := by
  -- The looser values go along, and either trace is in whatever station the calls have left.
  induction nodes generalizing env looser s with
  | nil =>
    cases hok
    exact ⟨looser, henv, fun _ => rfl⟩
  | cons n more ih =>
    rw [callNodes] at hok
    split at hok
    next => cases hok
    next next s₁ hcall =>
    obtain ⟨next', hnext, hlooser⟩ :=
      callNode_loosens hregistry hobjects henv (congrArg Prod.fst hcall)
    obtain ⟨final', hfinal, hrest⟩ := ih hnext hok
    refine ⟨final', hfinal, fun s' => ?_⟩
    rw [callNodes]
    rcases hrun : b.callNode .symbolic looser n s' with ⟨out, s₂⟩
    obtain rfl : out = .ok next' := by rw [← hlooser s', hrun]
    exact hrest s₂

/-! ### Traces -/

/-- Inputs by name that loosen to others: for each that is given there is a looser one. -/
structure InputsLoosen (given looser : List (String × Option Value)) : Prop where
  length_eq : looser.length = given.length
  lookup : ∀ name v, (given.lookup name).join = some v →
    ∃ w, (looser.lookup name).join = some w ∧ v.LoosensTo w

/-- A known size that differs from a declared one was there before loosening. -/
theorem differs_of_loosens {dims dims' : Shape} (hdims : List.Forall₂ DimLoosensTo dims dims')
    {declared : Shape}
    (h : ((declared.zip dims').any fun (want, got) => 0 ≤ want && 0 ≤ got && got ≠ want) = true) :
    ((declared.zip dims).any fun (want, got) => 0 ≤ want && 0 ≤ got && got ≠ want) = true := by
  induction hdims generalizing declared with
  | nil => exact h
  | @cons size dim _ _ hdim _ ih =>
    cases declared with
    | nil => exact h
    | cons want declared =>
      rw [List.zip_cons_cons, List.any_cons, Bool.or_eq_true] at h ⊢
      refine h.imp (fun hhead => ?_) ih
      -- Only known sizes are told to differ, and a known size was not loosened.
      have hknown : 0 ≤ dim := by
        simp only [Bool.and_eq_true, decide_eq_true_eq] at hhead
        exact hhead.1.2
      rwa [← hdim.eq_of_nonneg hknown]

/-- An input that fits its declaration fits it after loosening. -/
theorem checkInput_loosens {spec : ProgramInput} {d e : Descriptor} (hd : d.LoosensTo e)
    (hok : checkInput spec d = .ok ()) : checkInput spec e = .ok () := by
  unfold checkInput at hok ⊢
  dsimp only at hok ⊢
  rw [hd.dtype, hd.rank]
  split at hok
  next => cases hok
  next hdtype =>
  split at hok
  next => cases hok
  next hrank =>
  split at hok
  next => cases hok
  next hsizes =>
  -- The test for sizes looks for a known one that differs, and loosening adds none.
  rw [if_neg hdtype, if_neg hrank,
    if_neg fun hdiffers => hsizes (differs_of_loosens hd.shape hdiffers)]

/-- All inputs. -/
theorem takeInputs_loosens {given given' : List (String × Option Value)}
    (hgiven : InputsLoosen given given') {program : String}
    (henv : EnvLoosens env looser) {specs : List ProgramInput} {final : Env}
    (hok : takeInputs program given env specs = .ok final) :
    ∃ final', takeInputs program given' looser specs = .ok final' ∧
      EnvLoosens final final' := by
  induction specs generalizing env looser with
  | nil =>
    cases hok
    exact ⟨looser, rfl, henv⟩
  | cons spec more ih =>
    rw [takeInputs] at hok ⊢
    split at hok
    next => cases hok
    next v hv =>
    obtain ⟨w, hw, hvw⟩ := hgiven.lookup spec.name v hv
    split at hok
    next => cases hok
    next hcheck =>
    rw [hw]
    dsimp only
    rw [checkInput_loosens hvw hcheck]
    have hnext : EnvLoosens ((spec.name, some v) :: env) ((spec.name, some w) :: looser) :=
      .cons ⟨rfl, v, w, rfl, rfl, hvw⟩ henv
    exact ih hnext hok

/-- **Tracing is monotone in what is known of sizes.** Let a program be bound to the registry of the
host, each of its engines saying what its outputs look like. If it can be traced on some inputs, it
can be traced on all that these loosen to, in any station: the results are as many, and each of them
leaves a size open or has it as before. -/
theorem run_symbolic_monotone {r : Registry} (hr : Registry.standard = .ok r) {p : Program}
    (hbind : bind r p = .ok b) (hobjects : ∀ x ∈ b.objects, x.2.SaysOutputs)
    {given given' : List (String × Option Value)} (hgiven : InputsLoosen given given') {s : Station}
    {out : List (Option Value)} (hok : (b.run .symbolic given s).1 = .ok out) (s' : Station) :
    ∃ values values', out = values.map some ∧
      (b.run .symbolic given' s').1 = .ok (values'.map some) ∧
      List.Forall₂ Value.LoosensTo values values' := by
  obtain rfl := Except.ok.inj (Registry.standard_eq.symm.trans hr)
  obtain ⟨hvalid, hregistry⟩ := valid_of_bind hbind
  obtain ⟨hcount, env, final, s₁, htake, hcalls, rfl⟩ := run_eq_ok_iff.mp hok
  obtain ⟨env', htake', henv⟩ := takeInputs_loosens hgiven .nil htake
  obtain ⟨final', hfinal, hlooser⟩ :=
    callNodes_loosens hregistry hobjects henv (congrArg Prod.fst hcalls)
  obtain ⟨values, values', hout, hout', hloosens⟩ :=
    outputs_both hfinal fun o ho => mem_names_of_output hvalid htake hcalls ho
  refine ⟨values, values', hout, ?_, hloosens⟩
  exact run_eq_ok_iff.mpr ⟨hgiven.length_eq.trans hcount, env', final', _, htake',
    Prod.ext (hlooser s') rfl, hout'.symm⟩

/-- With the number of columns left open, the exchange of axes has a number of rows left open. -/
theorem run_symbolic_monotone_turning :
    ((copyAndRunBound turningHandle).run .symbolic
      (symbolInputs [("x", ⟨.float32, [2, 5], .cpu⟩)]) {}).1 =
        .ok [some (.symbol ⟨.float32, [5, 2], .cpu⟩)] ∧
    ∃ values, ((copyAndRunBound turningHandle).run .symbolic
      (symbolInputs [("x", ⟨.float32, [2, -1], .cpu⟩)]) plainStation).1 = .ok (values.map some) ∧
      List.Forall₂ Value.LoosensTo [.symbol ⟨.float32, [5, 2], .cpu⟩] values := by
  have hbuilt := Handle.builtFrom_of_buildTextHandle turning_fitsWidths turningHandle_eq
  have hobjects : ∀ x ∈ (copyAndRunBound turningHandle).objects, x.2.SaysOutputs := by
    intro x hx h hvalue
    obtain rfl := List.mem_singleton.mp hx
    obtain rfl := Option.some.inj (ObjectValue.engine.inj hvalue)
    decide +kernel
  -- The first size is kept, the second left open.
  have hgiven : InputsLoosen (symbolInputs [("x", ⟨.float32, [2, 5], .cpu⟩)])
      (symbolInputs [("x", ⟨.float32, [2, -1], .cpu⟩)]) := by
    refine ⟨rfl, fun name v hv => ?_⟩
    have hmem := mem_of_lookup (Option.join_eq_some_iff.mp hv)
    obtain ⟨rfl, heq⟩ := Prod.mk.inj (List.mem_singleton.mp hmem)
    obtain rfl := Option.some.inj heq
    exact ⟨_, rfl, rfl, rfl, .cons (.inr rfl) (.cons (.inl (by decide)) .nil)⟩
  have hrun : ((copyAndRunBound turningHandle).run .symbolic
      (symbolInputs [("x", ⟨.float32, [2, 5], .cpu⟩)]) {}).1 =
        .ok [some (.symbol ⟨.float32, [5, 2], .cpu⟩)] := rfl
  obtain ⟨values, values', hout, hrun', hloosens⟩ := run_symbolic_monotone Registry.standard_eq
    (bind_copyAndRun hbuilt) hobjects hgiven hrun plainStation
  obtain rfl : [.symbol ⟨.float32, [5, 2], .cpu⟩] = values :=
    List.map_injective_iff.mpr (Option.some_injective _) hout
  exact ⟨hrun, values', hrun', hloosens⟩

end BoundProgram

end EngineHost
