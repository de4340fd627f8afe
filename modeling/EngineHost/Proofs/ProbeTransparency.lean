import EngineHost.Operator.Engine
import EngineHost.Proofs.ProbeRuns
import EngineHost.Proofs.ProgramTracing
import EngineHost.Proofs.ShapeText

/-!
# Recalled probes

A tracer keeps what its probes found, under a key made of the payload's digest, the device and the
inputs, and forgets the oldest first. It serves calls one after the other; each should find what it
would find with a new tracer.

* Whatever the handles are, an answer is either that, or the finding of another call with the same
  key (`Tracer.Backed.serve`). The invariant is `Tracer.Backed`; forgetting keeps it, so the number
  of results that are kept does not matter.
* A key has one reading (`Tracer.probeKey_separates`, `Descriptor.sameForm_of_keyPart`), as long as
  the texts of the handles keep clear of its marks: brackets are counted, since an element type that
  no tensor has may hold any text.
* But the key leaves out the flag and the binding names, on which a probe depends. If calls with one
  key agree in these, every answer is what the call would find by itself, and has a result for each
  output name (`Tracer.recalls_what_it_would_find`). If not, a handle that is refused can be
  answered with the outputs of another (`Tracer.probe_recalled_for_another`).
-/

namespace EngineHost

/-! ### What the key tells apart -/

namespace Shape

variable {a b : Shape}

/-- The form of a shape is free of brackets. -/
theorem not_mem_text {c : Char} (hc : c = '[' ∨ c = ']') (a : Shape) : c ∉ a.text.toList := by
  cases a with
  | nil => rcases hc with rfl | rfl <;> decide
  | cons d more =>
    rcases hc with rfl | rfl
    · exact not_mem_text_cons (by decide) (by decide) (by decide) (by decide) d more
    · exact not_mem_text_cons (by decide) (by decide) (by decide) (by decide) d more

/-- **Static shapes have different forms.** -/
theorem text_inj (ha : a.isStatic = true) (hb : b.isStatic = true) (heq : a.text = b.text) :
    a = b := by
  have hnormal {s : Shape} (hs : s.isStatic = true) : s.IsNormal := fun d hd hneg =>
    absurd hneg (Int64.not_lt.mpr ((isStatic_iff s).mp hs d hd))
  exact (hnormal ha).text_inj (hnormal hb) heq

end Shape

/-- The name of an element type that tensors have is free of brackets. -/
theorem DType.not_mem_name {d : DType} (hvalid : d.isValid = true) : '[' ∉ d.name.toList := by
  obtain ⟨k, hk⟩ := Option.isSome_iff_exists.mp hvalid
  rw [← dtype_of_kind? hk]
  cases k <;> decide

/-- A device that is spelled out has the same name. -/
theorem Device.typeName_normalized (d : Device) : d.normalized.typeName = d.typeName := by
  have hidem := congrArg Device.type (Device.normalized_idem d)
  exact hidem

namespace Descriptor

/-- The text of a descriptor: the element type, the shape in brackets, and the device. -/
theorem toList_text (d : Descriptor) : d.text.toList = d.dtype.name.toList ++ '[' ::
    (d.shape.text.toList ++ ']' :: '@' :: d.device.text.toList) := by
  have hopen : "[".toList = ['['] := by decide
  have hclose : "]@".toList = [']', '@'] := by decide
  simp only [text, String.toList_append, hopen, hclose, List.append_assoc, List.cons_append,
    List.nil_append]

/-- The part of a key that is about inputs. -/
def keyPart (inputs : List Descriptor) : List Char :=
  inputs.flatMap fun d => keyDelim :: d.text.toList

/-- A bracket for each input, and whatever brackets are in the names of the element types. -/
theorem count_keyPart {place : List Char} {inputs : List Descriptor}
    (hinputs : ∀ d ∈ inputs, d.shape.isStatic = true ∧ d.device.text.toList = place) :
    (keyPart inputs).count '[' = inputs.length * (1 + place.count '[') +
      (inputs.map fun d => d.dtype.name.toList.count '[').sum := by
  induction inputs with
  | nil => simp [keyPart]
  | cons d more ih =>
    rw [List.forall_mem_cons] at hinputs
    -- The form of a shape has no brackets of its own.
    have hshape : d.shape.text.toList.count '[' = 0 :=
      List.count_eq_zero.mpr (Shape.not_mem_text (.inl rfl) d.shape)
    have htext : (keyDelim :: d.text.toList).count '[' =
        d.dtype.name.toList.count '[' + (1 + place.count '[') := by
      rw [toList_text, hinputs.1.2, List.count_cons_of_ne (by decide), List.count_append,
        List.count_cons_self, List.count_append, hshape, List.count_cons_of_ne (by decide),
        List.count_cons_of_ne (by decide)]
      omega
    have hcons : keyPart (d :: more) = (keyDelim :: d.text.toList) ++ keyPart more := rfl
    rw [hcons, List.count_append, htext, ih hinputs.2, List.map_cons, List.sum_cons,
      List.length_cons, Nat.succ_mul]
    omega

/-- **The inputs can be read off a key**, up to how their device is spelled, if those of one side
are element types that tensors have. -/
theorem sameForm_of_keyPart {place : List Char} {inputs others : List Descriptor}
    (hlen : inputs.length = others.length)
    (hinputs : ∀ d ∈ inputs, d.shape.isStatic = true ∧ d.device.text.toList = place)
    (hothers : ∀ d ∈ others, d.shape.isStatic = true ∧ d.device.text.toList = place)
    (hvalid : ∀ d ∈ others, d.dtype.isValid = true) (heq : keyPart inputs = keyPart others) :
    List.Forall₂ SameForm inputs others := by
  -- Both sides have the same number of brackets, so the other side has none in its names either.
  have hnames : ∀ d ∈ inputs, '[' ∉ d.dtype.name.toList := by
    have hcount := congrArg (List.count '[') heq
    have hnone : (others.map fun d => d.dtype.name.toList.count '[').sum = 0 := by
      refine List.sum_eq_zero fun n hn => ?_
      obtain ⟨d, hd, rfl⟩ := List.mem_map.mp hn
      exact List.count_eq_zero.mpr (DType.not_mem_name (hvalid d hd))
    rw [count_keyPart hinputs, count_keyPart hothers, hlen, hnone] at hcount
    have hzero : (inputs.map fun d => d.dtype.name.toList.count '[').sum = 0 := by omega
    intro d hd
    have hmem := List.mem_map_of_mem (f := fun d : Descriptor => d.dtype.name.toList.count '[') hd
    exact List.count_eq_zero.mp (List.sum_eq_zero_iff.mp hzero _ hmem)
  -- Input by input, each is cut at its brackets; the devices are the same text.
  induction inputs generalizing others with
  | nil =>
    obtain rfl := List.length_eq_zero_iff.mp hlen.symm
    exact .nil
  | cons d more ih =>
    cases others with
    | nil => cases hlen
    | cons e rest =>
      rw [List.forall_mem_cons] at hinputs hothers hvalid hnames
      have hchars : d.text.toList ++ keyPart more = e.text.toList ++ keyPart rest :=
        List.tail_eq_of_cons_eq heq
      rw [toList_text, toList_text, hinputs.1.2, hothers.1.2, List.append_assoc, List.append_assoc,
        List.cons_append, List.cons_append] at hchars
      obtain ⟨hname, hchars⟩ := cut_unique hnames.1 (DType.not_mem_name hvalid.1) hchars
      rw [List.append_assoc, List.append_assoc, List.cons_append, List.cons_append] at hchars
      obtain ⟨hshape, hchars⟩ := cut_unique (Shape.not_mem_text (.inr rfl) d.shape)
        (Shape.not_mem_text (.inr rfl) e.shape) hchars
      have hmore : keyPart more = keyPart rest :=
        List.append_cancel_left (List.tail_eq_of_cons_eq hchars)
      have hdtype : d.dtype = e.dtype := congrArg DType.mk (String.toList_injective hname)
      have hsizes : d.shape = e.shape :=
        Shape.text_inj hinputs.1.1 hothers.1.1 (String.toList_injective hshape)
      exact .cons ⟨hdtype, hsizes⟩
        (ih (Nat.succ.inj hlen) hinputs.2 hothers.2 hvalid.2 hmore hnames.2)

end Descriptor

namespace Tracer

/-- The parts of a key, in order. -/
theorem toList_probeKey (h : Handle) (inputs : List Descriptor) : (probeKey h inputs).toList =
    h.digest.toList ++ keyDelim :: ((Text.ofInt64 h.device.device.index).toList ++ bindingDelim ::
      (h.device.device.typeName.toList ++ bindingDelim :: (h.device.signature.toList ++
        Descriptor.keyPart inputs))) := by
  have hbar : "|".toList = [keyDelim] := by decide
  have hpercent : "%".toList = [bindingDelim] := by decide
  have hparts : (String.join (inputs.map fun d => "|" ++ d.text)).toList =
      Descriptor.keyPart inputs := by
    rw [String.toList_join, List.flatMap_map, Descriptor.keyPart]
    refine congrArg (inputs.flatMap ·) (funext fun d => ?_)
    rw [String.toList_append, hbar]
    rfl
  simp only [probeKey, DeviceInfo.text, String.toList_append, hbar, hpercent, hparts,
    List.append_assoc, List.cons_append, List.nil_append]

/-- **What a key tells**: the digest, the device and the inputs, where the texts of the handles keep
clear of its marks and the inputs are as many. -/
theorem probeKey_separates {h g : Handle} (hh : h.isDelimited = true) (hg : g.isDelimited = true)
    {inputs others : List Descriptor} (hlen : inputs.length = others.length)
    (hkey : probeKey h inputs = probeKey g others) :
    h.digest = g.digest ∧ h.device.device.normalized = g.device.device.normalized ∧
      Descriptor.keyPart inputs = Descriptor.keyPart others := by
  simp only [Handle.isDelimited, Bool.and_eq_true, Bool.not_eq_true'] at hh hg
  have hchars := congrArg String.toList hkey
  rw [toList_probeKey, toList_probeKey] at hchars
  -- Part by part, each up to the mark behind it.
  obtain ⟨hdigest, hchars⟩ :=
    cut_unique (keyDelim_not_mem_digest h) (keyDelim_not_mem_digest g) hchars
  obtain ⟨hindex, hchars⟩ :=
    cut_unique (bindingDelim_not_mem_ofInt64 _) (bindingDelim_not_mem_ofInt64 _) hchars
  obtain ⟨htype, hchars⟩ :=
    cut_unique (not_mem_of_hasChar hh.1) (not_mem_of_hasChar hg.1) hchars
  have hdevice : h.device.device.normalized = g.device.device.normalized := by
    rw [Device.normalized, Device.normalized, String.toList_injective htype,
      Text.ofInt64_inj (String.toList_injective hindex)]
  refine ⟨String.toList_injective hdigest, hdevice, ?_⟩
  -- The signature ends at the mark before the first input, if there is one.
  cases inputs with
  | nil =>
    obtain rfl := List.length_eq_zero_iff.mp hlen.symm
    rfl
  | cons d more =>
    cases others with
    | nil => cases hlen
    | cons e rest =>
      obtain ⟨-, hparts⟩ :=
        cut_unique (not_mem_of_hasChar hh.2) (not_mem_of_hasChar hg.2) hchars
      exact congrArg (keyDelim :: ·) hparts

/-! ### Handles and inputs that are probed -/

/-- **Inputs that a handle is probed on**: they pass its checks, nothing is said of its outputs, and
every size is known. -/
structure Probeable (h : Handle) (inputs : List Descriptor) : Prop where
  accepted : checkInputs h inputs = .ok ()
  unsaid : h.metadata.outputs.isEmpty = true
  static : checkStatic h 0 inputs = .ok ()

variable {h g : Handle} {inputs others : List Descriptor}

/-- Inputs that pass the check are where the handle is. -/
theorem devices_of_checkDevices {names : List String} (hlen : inputs.length = names.length)
    (hok : checkDevices h names inputs = .ok ()) :
    ∀ d ∈ inputs, d.device.same h.device.device = true := by
  induction inputs generalizing names with
  | nil => exact List.forall_mem_nil _
  | cons d more ih =>
    cases names with
    | nil => cases hlen
    | cons name names =>
      rw [checkDevices] at hok
      split at hok
      next hsame => exact List.forall_mem_cons.mpr ⟨hsame, ih (Nat.succ.inj hlen) hok⟩
      next => cases hok

/-- Inputs that pass the check have every size known. -/
theorem static_of_checkStatic {i : Nat} (hok : checkStatic h i inputs = .ok ()) :
    ∀ d ∈ inputs, d.shape.isStatic = true := by
  induction inputs generalizing i with
  | nil => exact List.forall_mem_nil _
  | cons d more ih =>
    rw [checkStatic] at hok
    split at hok
    next hstatic => exact List.forall_mem_cons.mpr ⟨hstatic, ih hok⟩
    next => cases hok

/-- There are zeros only for element types that tensors have. -/
theorem valid_of_zeros {i : Nat} {tensors : List (Option Tensor)}
    (hok : zeros h i inputs = .ok tensors) : ∀ d ∈ inputs, d.dtype.isValid = true := by
  induction inputs generalizing i tensors with
  | nil => exact List.forall_mem_nil _
  | cons d more ih =>
    rw [zeros] at hok
    split at hok
    next => cases hok
    next => cases hok
    next t ht =>
    obtain ⟨rest, hrest, -⟩ := map_eq_ok_iff.mp hok
    refine List.forall_mem_cons.mpr ⟨?_, ih hrest⟩
    -- An element type that is none of these is refused before anything is made.
    unfold Tensor.zeros at ht
    split at ht
    next => cases ht
    next =>
    split at ht
    next => cases ht
    next k hk => exact Option.isSome_iff_exists.mpr ⟨k, hk⟩

namespace Probeable

variable (hp : Probeable h inputs)

include hp

/-- There are as many inputs as names. -/
theorem length_eq : inputs.length = h.inputNames.length := by
  have haccepted := hp.accepted
  unfold checkInputs at haccepted
  split at haccepted
  next => cases haccepted
  next hcount => exact not_not.mp hcount

/-- All inputs are where the handle is. -/
theorem devices : ∀ d ∈ inputs, d.device.same h.device.device = true := by
  have haccepted := hp.accepted
  rw [checkInputs, if_neg (not_not.mpr hp.length_eq)] at haccepted
  obtain ⟨⟨⟩, hdevices, -⟩ := bind_eq_ok_iff.mp haccepted
  exact devices_of_checkDevices hp.length_eq hdevices

/-- All inputs are written with the device of the handle. -/
theorem placed : ∀ d ∈ inputs, d.shape.isStatic = true ∧
    d.device.text.toList = h.device.device.normalized.text.toList := by
  intro d hd
  have hsame : d.device.normalized = h.device.device.normalized :=
    Device.same_iff.mp (hp.devices d hd)
  have htext : d.device.text = d.device.normalized.text := by
    unfold Device.text
    rw [Device.typeName_normalized]
    rfl
  exact ⟨static_of_checkStatic hp.static d hd, by rw [htext, hsame]⟩

end Probeable

/-- **A probe may be recalled for another call of the same key**, if the two handles agree in what
the key leaves out. -/
theorem probeOnce_of_key {x : Executor} (hcaching : x.isCaching = false) {hosts : List HostConfig}
    (hruntimes : x.runtimes = hosts.map PlanRuntime.runtime) (hh : h.isDelimited = true)
    (hg : g.isDelimited = true) (hnormal : h.device.device.normalized = h.device.device)
    (hnormal' : g.device.device.normalized = g.device.device)
    (hdigest : h.digest = g.digest → h.engine = g.engine)
    (hflag : h.hardwareCompatible = g.hardwareCompatible) (hinputs : h.inputNames = g.inputNames)
    (houtputs : h.outputNames = g.outputNames) (hp : Probeable h inputs)
    (hp' : Probeable g others) (hkey : probeKey h inputs = probeKey g others)
    {found : List Descriptor} (hok : probeOnce x g others = .ok found) :
    probeOnce x h inputs = .ok found := by
  have hlen : inputs.length = others.length := by
    rw [hp.length_eq, hp'.length_eq, hinputs]
  obtain ⟨hsame, hdevice, hparts⟩ := probeKey_separates hh hg hlen hkey
  have hlike : h.ProbesLike g :=
    ⟨hdigest hsame, by rw [← hnormal, hdevice, hnormal'], hflag, hinputs, houtputs⟩
  -- What was found for the other call was found on zeros, so its element types are valid.
  obtain ⟨tensors, hzeros, -⟩ := bind_eq_ok_iff.mp hok
  have hform := Descriptor.sameForm_of_keyPart hlen (hdevice ▸ hp.placed) hp'.placed
    (valid_of_zeros hzeros) hparts
  exact probeOnce_like hcaching hruntimes hlike hform hp.devices hok

end Tracer

/-! ### The cache -/

namespace ProbeCache

/-- Making room adds nothing. -/
theorem mem_makeRoom {limit : Nat} {entries : List (String × List Descriptor)}
    {order : List String} {kept : String × List Descriptor}
    (hkept : kept ∈ (makeRoom limit entries order).entries) : kept ∈ entries := by
  induction order generalizing entries with
  | nil => exact hkept
  | cons oldest more ih =>
    rw [makeRoom] at hkept
    split at hkept
    next => exact (List.mem_filter.mp (ih hkept)).1
    next => exact hkept

/-- What is kept was kept before, or is the new result. -/
theorem mem_store {c : ProbeCache} {limit : Nat} {key : String} {found : List Descriptor}
    {kept : String × List Descriptor} (hkept : kept ∈ (c.store limit key found).entries) :
    kept ∈ c.entries ∨ kept = (key, found) := by
  unfold store at hkept
  split at hkept
  next => exact .inl hkept
  next =>
    rcases List.mem_append.mp hkept with hold | hnew
    · exact .inl (mem_makeRoom hold)
    · exact .inr (List.mem_singleton.mp hnew)

end ProbeCache

namespace Tracer

variable {h : Handle} {inputs : List Descriptor} {t : Tracer}

/-- What is not probed is found in the handle, or refused, whatever is kept. -/
theorem trace_of_not_probeable (hnot : ¬Probeable h inputs) :
    ∃ answer, ∀ {t : Tracer} {σ : Type} (prober : Prober σ) (s : σ), t.allowsProbes = true →
      t.trace (some prober) inputs (some h) s = (answer, t, s) := by
  cases hinputs : checkInputs h inputs with
  | error f =>
    refine ⟨.error f, fun prober s _ => ?_⟩
    rw [trace, hinputs]
  | ok _ =>
    -- Where something is said of the outputs, that decides; where nothing is, the sizes do.
    by_cases hsaid : h.metadata.outputs.isEmpty = true
    · cases hstatic : checkStatic h 0 inputs with
      | error f =>
        refine ⟨.error f, fun {t} _ prober s hallows => ?_⟩
        rw [trace, hinputs]
        dsimp only
        rw [if_pos hsaid]
        unfold probe
        rw [hallows, hstatic]
      | ok _ => exact absurd ⟨hinputs, hsaid, hstatic⟩ hnot
    · refine ⟨resolveOutputs h inputs h.metadata.outputs, fun prober s _ => ?_⟩
      rw [trace, hinputs]
      dsimp only
      rw [if_neg hsaid]

/-- What is probed and kept is recalled. -/
theorem trace_hit (hp : Probeable h inputs) (hallows : t.allowsProbes = true)
    {found : List Descriptor} (hfind : t.probes.find? (probeKey h inputs) = some found)
    (prober : Prober σ) (s : σ) : t.trace (some prober) inputs (some h) s = (.ok found, t, s) := by
  rw [trace, hp.accepted]
  dsimp only
  rw [if_pos hp.unsaid]
  unfold probe
  rw [hallows, hp.static, hfind]

/-- What is probed and not kept is found out, and kept if it was found. -/
theorem trace_miss (hp : Probeable h inputs) (hallows : t.allowsProbes = true)
    (hfind : t.probes.find? (probeKey h inputs) = none) (x : Executor) :
    (t.trace (some EngineOp.prober) inputs (some h) (x, .never)).1 = probeOnce x h inputs ∧
      ((t.trace (some EngineOp.prober) inputs (some h) (x, .never)).2.1 = t ∨
        ∃ found, probeOnce x h inputs = .ok found ∧
          (t.trace (some EngineOp.prober) inputs (some h) (x, .never)).2.1 =
            { t with probes := t.probes.store t.limit (probeKey h inputs) found }) := by
  rw [trace, hp.accepted]
  dsimp only
  rw [if_pos hp.unsaid]
  unfold probe
  rw [hallows, hp.static, hfind]
  dsimp only
  cases hzeros : zeros h 0 inputs with
  | error f =>
    rw [probeOnce, hzeros]
    exact ⟨rfl, .inl rfl⟩
  | ok tensors =>
    -- What is found afresh is the same run, with its outputs described.
    have honce : probeOnce x h inputs = (x.execute .never tensors (some h)).1 >>= fun outs =>
        pure (outs.map (·.descriptor)) := by
      rw [probeOnce, hzeros]
      rfl
    rw [honce]
    dsimp only [EngineOp.prober]
    rcases x.execute .never tensors (some h) with ⟨out, signal, x'⟩
    cases out with
    | error f => exact ⟨rfl, .inl rfl⟩
    | ok outs => exact ⟨rfl, .inr ⟨_, rfl, rfl⟩⟩

/-- A trace leaves an executor that keeps no engines as it is, its journal apart. -/
theorem trace_keeps {x : Executor} (hcaching : x.isCaching = false) (inputs : List Descriptor)
    (h : Option Handle) (signal : Signal) :
    (t.trace (some EngineOp.prober) inputs h (x, signal)).2.2.1.runtimes = x.runtimes ∧
      (t.trace (some EngineOp.prober) inputs h (x, signal)).2.2.1.isCaching = false := by
  obtain hsame | ⟨zeros, h', hprobe⟩ := trace_state t EngineOp.prober inputs h (x, signal)
  · rw [hsame]
    exact ⟨rfl, hcaching⟩
  · rw [hprobe]
    exact Executor.execute_keeps hcaching signal zeros (some h')

/-! ### Calls in a row -/

/-- A call: descriptors for a handle, if there is one. -/
structure Call where
  handle : Option Handle
  inputs : List Descriptor

/-- What a call finds with a tracer that has nothing to recall. -/
def Call.fresh (c : Call) (limit : Int64) (x : Executor) : Except Failure (List Descriptor) :=
  ((Tracer.make true limit).trace (some EngineOp.prober) c.inputs c.handle (x, .never)).1

/-- What calls find that are made one after the other, none of them interrupted. -/
def serve (t : Tracer) (x : Executor) : List Call → List (Except Failure (List Descriptor))
  | [] => []
  | c :: more =>
    (t.trace (some EngineOp.prober) c.inputs c.handle (x, .never)).1 ::
      serve (t.trace (some EngineOp.prober) c.inputs c.handle (x, .never)).2.1
        (t.trace (some EngineOp.prober) c.inputs c.handle (x, .never)).2.2.1 more

/-- **The cache is backed** by calls: each result in it is what one of them with its key finds. -/
structure Backed (t : Tracer) (x : Executor) (calls : List Call) : Prop where
  allowsProbes : t.allowsProbes = true
  entries : ∀ kept ∈ t.probes.entries, ∃ c ∈ calls, ∃ h ∈ c.handle,
    probeKey h c.inputs = kept.1 ∧ Probeable h c.inputs ∧ probeOnce x h c.inputs = .ok kept.2

/-- An answer that is the finding of another call of the same key. -/
def Recalled (x : Executor) (calls : List Call) (c : Call)
    (answer : Except Failure (List Descriptor)) : Prop :=
  ∃ h ∈ c.handle, Probeable h c.inputs ∧ ∃ d ∈ calls, ∃ g ∈ d.handle, Probeable g d.inputs ∧
    probeKey h c.inputs = probeKey g d.inputs ∧
    ∃ found, probeOnce x g d.inputs = .ok found ∧ answer = .ok found

variable {x y : Executor} {calls : List Call}

/-- Probes depend on nothing but the runtimes, where no engines are kept. -/
theorem probeOnce_eq (hx : x.isCaching = false) (hy : y.isCaching = false)
    (hruntimes : y.runtimes = x.runtimes) (h : Handle) (inputs : List Descriptor) :
    probeOnce y h inputs = probeOnce x h inputs := by
  unfold probeOnce
  simp only [Executor.execute_eq hx, Executor.execute_eq hy, hruntimes]

/-- A call that is probed finds afresh what a single probe finds. -/
theorem Call.fresh_of_probeable {c : Call} (hhandle : c.handle = some h)
    (hp : Probeable h c.inputs) (limit : Int64) (x : Executor) :
    c.fresh limit x = probeOnce x h c.inputs := by
  rw [fresh, hhandle]
  exact (trace_miss hp rfl rfl x).1

/-- **One call.** It finds what it finds afresh, or recalls what another call of its key found; and
the cache stays backed. -/
theorem Backed.trace (hbacked : t.Backed x calls) (hx : x.isCaching = false)
    (hy : y.isCaching = false) (hruntimes : y.runtimes = x.runtimes) (limit : Int64) {c : Call}
    (hc : c ∈ calls) :
    ((t.trace (some EngineOp.prober) c.inputs c.handle (y, .never)).1 = c.fresh limit x ∨
      Recalled x calls c (t.trace (some EngineOp.prober) c.inputs c.handle (y, .never)).1) ∧
      (t.trace (some EngineOp.prober) c.inputs c.handle (y, .never)).2.1.Backed x calls := by
  cases hhandle : c.handle with
  | none =>
    refine ⟨.inl ?_, hbacked⟩
    rw [Call.fresh, hhandle]
    rfl
  | some h =>
    by_cases hp : Probeable h c.inputs
    · cases hfind : t.probes.find? (probeKey h c.inputs) with
      | some found =>
        -- A hit: the result was found for some call of the same key.
        rw [trace_hit hp hbacked.allowsProbes hfind]
        obtain ⟨d, hd, g, hg, hkey, hp', hfound⟩ := hbacked.entries _ (mem_of_lookup hfind)
        exact ⟨.inr ⟨h, hhandle, hp, d, hd, g, hg, hp', hkey.symm, found, hfound, rfl⟩, hbacked⟩
      | none =>
        -- A miss: the result is kept, backed by this very call.
        obtain ⟨hanswer, hkeeps⟩ := trace_miss hp hbacked.allowsProbes hfind y
        rw [probeOnce_eq hx hy hruntimes] at hanswer hkeeps
        refine ⟨.inl (hanswer.trans (Call.fresh_of_probeable hhandle hp limit x).symm), ?_⟩
        obtain hsame | ⟨found, hfound, hstore⟩ := hkeeps
        · rw [hsame]
          exact hbacked
        · rw [hstore]
          refine ⟨hbacked.allowsProbes, fun kept hkept => ?_⟩
          rcases ProbeCache.mem_store hkept with hold | rfl
          · exact hbacked.entries kept hold
          · exact ⟨c, hc, h, hhandle, rfl, hp, hfound⟩
    · obtain ⟨answer, hanswer⟩ := trace_of_not_probeable hp
      rw [hanswer _ _ hbacked.allowsProbes, Call.fresh, hhandle, hanswer _ _ rfl]
      exact ⟨.inl rfl, hbacked⟩

/-- **All calls.** -/
theorem Backed.serve (hbacked : t.Backed x calls) (hx : x.isCaching = false)
    (hy : y.isCaching = false) (hruntimes : y.runtimes = x.runtimes) (limit : Int64)
    {made : List Call} (hmade : ∀ c ∈ made, c ∈ calls) :
    List.Forall₂ (fun c answer => answer = c.fresh limit x ∨ Recalled x calls c answer) made
      (t.serve y made) := by
  -- The tracer and the executor change from call to call; what backs the cache does not.
  induction made generalizing t y with
  | nil => exact .nil
  | cons c more ih =>
    rw [List.forall_mem_cons] at hmade
    obtain ⟨hanswer, hbacked'⟩ := hbacked.trace hx hy hruntimes limit hmade.1
    obtain ⟨hruntimes', hy'⟩ := trace_keeps hy c.inputs c.handle .never
    exact .cons hanswer (ih hbacked' hy' (hruntimes'.trans hruntimes) hmade.2)

/-! ### As many results as outputs -/

/-- As many outputs are resolved as are said. -/
theorem length_of_resolveOutputs {specs : List OutputSpec} {found : List Descriptor}
    (hok : resolveOutputs h inputs specs = .ok found) : found.length = specs.length := by
  induction specs generalizing found with
  | nil =>
    cases hok
    rfl
  | cons spec more ih =>
    obtain ⟨shape, -, hok⟩ := bind_eq_ok_iff.mp hok
    obtain ⟨rest, hrest, hok⟩ := bind_eq_ok_iff.mp hok
    cases hok
    rw [List.length_cons, List.length_cons, ih hrest]

/-- A probe finds a descriptor for every output name. -/
theorem length_of_probeOnce (hx : x.isCaching = false) {found : List Descriptor}
    (hok : probeOnce x h inputs = .ok found) : found.length = h.outputNames.length := by
  obtain ⟨tensors, hzeros, hprobe⟩ := bind_eq_ok_iff.mp hok
  obtain ⟨outs, hexecute, hfound⟩ := bind_eq_ok_iff.mp hprobe
  cases hfound
  -- The zeros are tensors that are all there, as for any descriptors of this form.
  have hsame : List.Forall₂ Descriptor.SameForm inputs inputs :=
    List.forall₂_same.mpr fun _ _ => ⟨rfl, rfl⟩
  obtain ⟨given, -, rfl, -⟩ := zeros_sameForm (h := h) (i := 0) hsame hzeros .cpu
  obtain ⟨-, -, e, c, bound, promised, results, -, -, -, -, hpromised, -, houts⟩ :=
    Executor.execute_ok hx hexecute
  rw [List.length_map, ← (Executor.takeOutputs_ok houts).length_eq, List.length_zip,
    Executor.length_of_outputShapes hpromised, Nat.min_self]

/-- **One result for each output name.** -/
theorem Call.length_of_fresh {c : Call} (hhandle : c.handle = some h) (hx : x.isCaching = false)
    {limit : Int64} {found : List Descriptor} (hok : c.fresh limit x = .ok found) :
    found.length = h.outputNames.length := by
  by_cases hp : Probeable h c.inputs
  · rw [fresh_of_probeable hhandle hp] at hok
    exact length_of_probeOnce hx hok
  · rw [fresh, hhandle] at hok
    unfold Tracer.trace at hok
    dsimp only at hok
    split at hok
    next => cases hok
    next hinputs =>
    split at hok
    next hunsaid =>
      -- A size that is not known ends the probe before it begins.
      unfold probe at hok
      rw [show (Tracer.make true limit).allowsProbes = true from rfl] at hok
      dsimp only at hok
      split at hok
      next => cases hok
      next hstatic => exact absurd ⟨hinputs, hunsaid, hstatic⟩ hp
    next hsaid =>
      rw [length_of_resolveOutputs hok]
      exact (h.sound.metadata.outputs (mt List.isEmpty_iff.mpr hsaid)).length_eq

/-- **Recalling a probe changes no answer.** A tracer that may probe serves calls with an executor
that keeps no engines, over plan runtimes. Whatever it keeps, each call finds exactly what it finds
with a new tracer, and a result for each output name of its handle if it finds any; if the texts of
the handles keep clear of the marks in a key, no two of the payloads share a digest, and two calls
with one key have handles that agree in the flag and the binding names, which the key leaves out. -/
theorem recalls_what_it_would_find {hosts : List HostConfig} {opening : Ledger} {x : Executor}
    (hx : Executor.make (hosts.map PlanRuntime.runtime) false opening = .ok x) (limit : Int64)
    {calls : List Call}
    (hmade : ∀ c ∈ calls, ∀ h ∈ c.handle, ∃ p, Handle.make p = .ok h)
    (hdelimited : ∀ c ∈ calls, ∀ h ∈ c.handle, h.isDelimited = true)
    (hdigest : ∀ c ∈ calls, ∀ d ∈ calls, ∀ h ∈ c.handle, ∀ g ∈ d.handle,
      h.digest = g.digest → h.engine = g.engine)
    (hrecords : ∀ c ∈ calls, ∀ d ∈ calls, ∀ h ∈ c.handle, ∀ g ∈ d.handle,
      probeKey h c.inputs = probeKey g d.inputs →
        h.hardwareCompatible = g.hardwareCompatible ∧ h.inputNames = g.inputNames ∧
          h.outputNames = g.outputNames) :
    (Tracer.make true limit).serve x calls = calls.map (·.fresh limit x) ∧
      ∀ c ∈ calls, ∀ h ∈ c.handle, ∀ found, c.fresh limit x = .ok found →
        found.length = h.outputNames.length := by
  have hruntimes : x.runtimes = hosts.map PlanRuntime.runtime ∧ x.isCaching = false := by
    unfold Executor.make at hx
    split at hx
    next => cases hx
    next =>
      cases hx
      exact ⟨rfl, rfl⟩
  obtain ⟨hruntimes, hcaching⟩ := hruntimes
  -- A handle that was made has its device spelled out.
  have hnormal : ∀ c ∈ calls, ∀ h ∈ c.handle, h.device.device.normalized = h.device.device := by
    intro c hc h hh
    obtain ⟨p, hp⟩ := hmade c hc h hh
    rw [Handle.toHandleParts_of_make hp]
    exact Device.normalized_idem _
  refine ⟨?_, fun c _ h hh found hok => Call.length_of_fresh hh hcaching hok⟩
  -- At the start the cache is empty, hence backed.
  have hempty : (Tracer.make true limit).Backed x calls :=
    ⟨rfl, fun _ hkept => absurd hkept List.not_mem_nil⟩
  have hserve := hempty.serve hcaching hcaching rfl limit fun c hc => hc
  -- What was recalled is what the call would have found.
  have hsame : List.Forall₂ (fun c answer => c.fresh limit x = answer) calls
      ((Tracer.make true limit).serve x calls) := by
    refine List.forall₂_iff_zip.mpr ⟨hserve.length_eq, fun {c answer} hmem => ?_⟩
    obtain hfresh | hrecalled := (List.forall₂_iff_zip.mp hserve).2 hmem
    · exact hfresh.symm
    · obtain ⟨h, hh, hp, d, hd, g, hg, hp', hkey, found, hfound, rfl⟩ := hrecalled
      have hc : c ∈ calls := (List.of_mem_zip hmem).1
      obtain ⟨hflag, hinputs, houtputs⟩ := hrecords c hc d hd h hh g hg hkey
      rw [Call.fresh_of_probeable hh hp]
      exact probeOnce_of_key hcaching hruntimes (hdelimited c hc h hh) (hdelimited d hd g hg)
        (hnormal c hc h hh) (hnormal d hd g hg) (hdigest c hc d hd h hh g hg) hflag hinputs houtputs
        hp hp' hkey hfound
  have hmap : List.Forall₂ (· = ·) (calls.map (·.fresh limit x))
      ((Tracer.make true limit).serve x calls) := List.forall₂_map_left_iff.mpr hsame
  rw [List.forall₂_eq_eq_eq] at hmap
  exact hmap.symm

end Tracer

/-- The handle without metadata, so that it is probed. -/
def silentHandle : Handle :=
  (Handle.make { copyThenRectifyHandle.toHandleParts with metadata := {} }).toOption.get
    (by decide +kernel)

/-- The same under another name. -/
def silentTwin : Handle :=
  (Handle.make { silentHandle.toHandleParts with name := "twin" }).toOption.get (by decide +kernel)

/-- The twin recalls what was found for the other, on a device that is spelled another way; then a
size is left open. -/
def silentCalls : List Tracer.Call :=
  [⟨some silentHandle, [⟨.float32, [2], .cpu⟩]⟩, ⟨some silentTwin, [⟨.float32, [2], ⟨"", 0⟩⟩]⟩,
    ⟨some silentTwin, [⟨.float32, [-1], .cpu⟩]⟩]

set_option maxRecDepth 20000 in
/-- The twins agree in everything that a probe depends on. -/
theorem records_silentCalls : ∀ c ∈ silentCalls, ∀ h ∈ c.handle,
    h.isDelimited = true ∧ h.engine = silentHandle.engine ∧ h.hardwareCompatible = false ∧
      h.inputNames = ["x"] ∧ h.outputNames = ["z"] := by
  decide +kernel

/-- Serving the twins changes none of their answers. -/
theorem Tracer.recalls_what_it_would_find_twins :
    Executor.make ([{}].map PlanRuntime.runtime) false {} = .ok planExecutor ∧
      (Tracer.make true 1).serve planExecutor silentCalls =
        silentCalls.map (·.fresh 1 planExecutor) := by
  have hmade : ∀ c ∈ silentCalls, ∀ h ∈ c.handle, ∃ p, Handle.make p = .ok h := by
    have hsilent : ∃ p, Handle.make p = .ok silentHandle := ⟨_, eq_ok_get _⟩
    have htwin : ∃ p, Handle.make p = .ok silentTwin := ⟨_, eq_ok_get _⟩
    simp only [silentCalls, List.forall_mem_cons, Option.mem_some_iff]
    refine ⟨?_, ?_, ?_, List.forall_mem_nil _⟩
    · rintro h rfl
      exact hsilent
    · rintro h rfl
      exact htwin
    · rintro h rfl
      exact htwin
  refine ⟨rfl, (@recalls_what_it_would_find [{}] {} planExecutor rfl 1 silentCalls hmade
    (fun c hc h hh => (records_silentCalls c hc h hh).1) ?_ ?_).1⟩
  · intro c hc d hd h hh g hg _
    obtain ⟨-, hengine, -⟩ := records_silentCalls c hc h hh
    obtain ⟨-, hengine', -⟩ := records_silentCalls d hd g hg
    exact hengine.trans hengine'.symm
  · intro c hc d hd h hh g hg _
    obtain ⟨-, -, hflag, hinputs, houtputs⟩ := records_silentCalls c hc h hh
    obtain ⟨-, -, hflag', hinputs', houtputs'⟩ := records_silentCalls d hd g hg
    exact ⟨hflag.trans hflag'.symm, hinputs.trans hinputs'.symm, houtputs.trans houtputs'.symm⟩

/-- The same payload; the handle records an output that its engine does not have. -/
def misnamedHandle : Handle :=
  (Handle.make { silentHandle.toHandleParts with outputNames := ["z", "w"] }).toOption.get
    (by decide +kernel)

/-- A call for the right handle, then one for the other. -/
def misnamedCalls : List Tracer.Call :=
  [⟨some silentHandle, [⟨.float32, [2], .cpu⟩]⟩, ⟨some misnamedHandle, [⟨.float32, [2], .cpu⟩]⟩]

set_option maxRecDepth 20000 in
/-- Both calls are answered in a row. -/
theorem isOk_serve_misnamedCalls :
    ((Tracer.make true 0).serve planExecutor misnamedCalls).map (·.isOk) = [true, true] := by
  decide +kernel

set_option maxRecDepth 20000 in
/-- Afresh, the second is refused. -/
theorem isOk_fresh_misnamedCalls :
    misnamedCalls.map (fun c => (c.fresh 0 planExecutor).isOk) = [true, false] := by
  decide +kernel

/-- **A probe is recalled for another handle.** The two have one key, as they share the payload, the
device and the input; the second is refused when it is probed, and answered with the one output of
the first when that was probed before. -/
theorem Tracer.probe_recalled_for_another :
    (∀ c ∈ misnamedCalls, ∀ h ∈ c.handle, ∃ p, Handle.make p = .ok h) ∧
      (Tracer.make true 0).serve planExecutor misnamedCalls ≠
        misnamedCalls.map (·.fresh 0 planExecutor) := by
  constructor
  · have hsilent : ∃ p, Handle.make p = .ok silentHandle := ⟨_, eq_ok_get _⟩
    have hmisnamed : ∃ p, Handle.make p = .ok misnamedHandle := ⟨_, eq_ok_get _⟩
    simp only [misnamedCalls, List.forall_mem_cons, Option.mem_some_iff]
    refine ⟨?_, ?_, List.forall_mem_nil _⟩
    · rintro h rfl
      exact hsilent
    · rintro h rfl
      exact hmisnamed
  · intro heq
    have hok := congrArg (List.map (·.isOk)) heq
    rw [isOk_serve_misnamedCalls, List.map_map] at hok
    exact absurd (hok.trans isOk_fresh_misnamedCalls) (by decide)

end EngineHost
