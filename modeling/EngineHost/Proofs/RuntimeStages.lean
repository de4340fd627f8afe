import EngineHost.Executor
import EngineHost.Proofs.Results
import Mathlib.Data.List.Forall2

/-!
# The stages of a call

An executor talks to runtimes through a contract of functions, and nothing is known of what these
answer. Each stage of a call asks the runtime something: which runtime takes the payload, which
engine it loads, whether that engine has the handle's names and opens a context, whether the context
takes the shapes of the inputs, what shapes it promises for the outputs, and what it gives in the
end. Here each stage is described by the runtime's answers alone:

* `Runtime.Takes`, `Handle.LoadsAs`, `Engine.Named`, `Handle.Opens` — loading;
* `Context.Binds`, `Context.Promises`, `Context.Readied` — shapes;
* `Handle.Delivered`, `LacksResult` — results.

For each step of the executor there are then three facts: when it succeeds, what it fails with where
the runtime refuses, and that it fails for no other reason.
-/

namespace EngineHost

/-- Lists in step have partners at every place. -/
theorem forall₂_getElem? {R : α → β → Prop} {xs : List α} {ys : List β}
    (h : List.Forall₂ R xs ys) {k : Nat} {x : α} (hx : xs[k]? = some x) :
    ∃ y, ys[k]? = some y ∧ R x y := by
  induction h generalizing k with
  | nil => cases hx
  | cons hxy _ ih =>
    cases k with
    | zero =>
      cases hx
      exact ⟨_, rfl, hxy⟩
    | succ k => exact ih hx

/-! ### Loading -/

/-- **The runtime that takes a payload**: the first that accepts it. -/
def Runtime.Takes (runtimes : List Runtime) (payload : Bytes) (r : Runtime) : Prop :=
  ∃ before after, runtimes = before ++ r :: after ∧ r.accepts payload = true ∧
    ∀ q ∈ before, q.accepts payload = false

/-- The runtime that is selected is the first that accepts. -/
theorem Runtime.select_eq_ok_iff {runtimes : List Runtime} {payload : Bytes} {r : Runtime} :
    Runtime.select runtimes payload = .ok r ↔ Runtime.Takes runtimes payload r := by
  -- The first that accepts is what a search from the front finds.
  have hfind : runtimes.find? (·.accepts payload) = some r ↔ Runtime.Takes runtimes payload r := by
    rw [List.find?_eq_some_iff_append]
    constructor
    · rintro ⟨haccepts, before, after, hsplit, hbefore⟩
      exact ⟨before, after, hsplit, haccepts, by simpa using hbefore⟩
    · rintro ⟨before, after, hsplit, haccepts, hbefore⟩
      exact ⟨haccepts, before, after, hsplit, by simpa using hbefore⟩
  rw [← hfind]
  unfold Runtime.select
  split
  next q hq => simp [hq]
  next hnone => simp [hnone]

/-- No runtime is selected where none accepts. -/
theorem Runtime.select_eq_error_iff {runtimes : List Runtime} {payload : Bytes} :
    (∃ f, Runtime.select runtimes payload = .error f) ↔
      ∀ r ∈ runtimes, r.accepts payload = false := by
  have hfind : runtimes.find? (·.accepts payload) = none ↔
      ∀ r ∈ runtimes, r.accepts payload = false := by
    simp [List.find?_eq_none]
  rw [← hfind]
  unfold Runtime.select
  split
  next q hq => simp [hq]
  next hnone => simp [hnone]

/-- The engine that a handle is loaded as. -/
def Handle.LoadsAs (h : Handle) (runtimes : List Runtime) (e : Engine) : Prop :=
  ∃ r, Runtime.Takes runtimes h.engine r ∧ r.load h.engine h.loadOptions = .ok e

/-- The engine has the handle's names. -/
structure Engine.Named (e : Engine) (h : Handle) : Prop where
  inputs : e.inputNames = h.inputNames.map Bytes.ofText
  outputs : e.outputNames = h.outputNames.map Bytes.ofText

/-- A context that was opened for a handle, on an engine that has the handle's names. -/
def Handle.Opens (h : Handle) (runtimes : List Runtime) (c : Context) : Prop :=
  ∃ e, h.LoadsAs runtimes e ∧ e.Named h ∧ e.context = .ok c

namespace Executor

variable {runtimes : List Runtime} {h : Handle}

/-- **When loading succeeds.** -/
theorem load_eq_ok_iff {e : Engine} : load runtimes h = .ok e ↔ h.LoadsAs runtimes e := by
  unfold load Handle.LoadsAs
  constructor
  · intro hload
    split at hload
    next => cases hload
    next r hr =>
    split at hload
    next => cases hload
    next e' he =>
      cases hload
      exact ⟨r, Runtime.select_eq_ok_iff.mp hr, he⟩
  · rintro ⟨r, hr, he⟩
    simp only [Runtime.select_eq_ok_iff.mpr hr, he]

/-- Nobody takes the payload. -/
theorem load_of_not_taken (hnone : ∀ r ∈ runtimes, r.accepts h.engine = false) :
    ∃ f, load runtimes h = .error (h.loadOptions.failure f) := by
  obtain ⟨f, hf⟩ := Runtime.select_eq_error_iff.mpr hnone
  refine ⟨f, ?_⟩
  unfold load
  rw [hf]

/-- The runtime that takes the payload does not load it. -/
theorem load_of_refused {r : Runtime} (hr : Runtime.Takes runtimes h.engine r) {g : Failure}
    (hg : r.load h.engine h.loadOptions = .error g) :
    load runtimes h = .error (if g.is .loading then g else h.loadOptions.failure g) := by
  unfold load
  simp only [Runtime.select_eq_ok_iff.mpr hr, hg]

/-- Loading fails for no other reason. -/
theorem of_load_error {f : Failure} (hf : load runtimes h = .error f) :
    (∀ r ∈ runtimes, r.accepts h.engine = false) ∨
      ∃ r g, Runtime.Takes runtimes h.engine r ∧ r.load h.engine h.loadOptions = .error g := by
  unfold load at hf
  split at hf
  next f' hnone => exact .inl (Runtime.select_eq_error_iff.mp ⟨f', hnone⟩)
  next r hr =>
  split at hf
  next g hg => exact .inr ⟨r, g, Runtime.select_eq_ok_iff.mp hr, hg⟩
  next => cases hf

/-- Names that differ make a handle malformed. -/
theorem checkNames_of_differ {e : Engine} (hdiffer : ¬e.Named h) :
    ∃ f, checkNames e h = .error f ∧ f.is .malformed = true := by
  unfold checkNames
  dsimp only
  split
  next => exact ⟨_, rfl, rfl⟩
  next hin =>
  split
  next => exact ⟨_, rfl, rfl⟩
  next hout => exact absurd ⟨not_not.mp hin, not_not.mp hout⟩ hdiffer

/-- Names pass the check if they are the handle's. -/
theorem checkNames_eq_ok_iff {e : Engine} : checkNames e h = .ok () ↔ e.Named h := by
  constructor
  · intro hok
    by_contra hdiffer
    obtain ⟨f, hf, -⟩ := checkNames_of_differ hdiffer
    rw [hok] at hf
    cases hf
  · intro hnamed
    unfold checkNames
    rw [if_neg (not_not.mpr hnamed.inputs), if_neg (not_not.mpr hnamed.outputs)]

end Executor

/-! ### Shapes -/

/-- **The shapes of inputs are bound in order**, each behind those that were bound before. -/
inductive Context.Binds (c : Context) : Bindings → List (String × Tensor) → Bindings → Prop
  | nil (bound : Bindings) : Context.Binds c bound [] bound
  | cons {bound final : Bindings} {name : String} {t : Tensor} {more : List (String × Tensor)}
      (hbind : c.bind bound (.ofText name) t.shape.stated? = .ok ())
      (hmore : Context.Binds c ((.ofText name, t.shape) :: bound) more final) :
      Context.Binds c bound ((name, t) :: more) final

/-- What a context promises for an output. -/
def Context.Promises (c : Context) (bound : Bindings) (name : String) (promised : Option Shape) :
    Prop :=
  c.outputShape bound (.ofText name) = .ok promised

/-- A context that has taken the shapes of the inputs and made its promises for the outputs. -/
structure Context.Readied (c : Context) (h : Handle) (given : List Tensor) (bound : Bindings)
    (promised : List (Option Shape)) : Prop where
  binds : c.Binds [] (h.inputNames.zip given) bound
  promises : List.Forall₂ (c.Promises bound) h.outputNames promised

namespace Executor

variable {c : Context} {h : Handle}

/-- **When binding succeeds**: the executor's loop makes the steps of the relation. -/
theorem bindInputs_eq_ok_iff {bound final : Bindings} {pairs : List (String × Tensor)} :
    bindInputs c h bound pairs = .ok final ↔ c.Binds bound pairs final := by
  constructor
  · intro hok
    -- What is bound grows from input to input.
    induction pairs generalizing bound with
    | nil =>
      cases hok
      exact .nil _
    | cons x more ih =>
      obtain ⟨name, t⟩ := x
      rw [bindInputs] at hok
      split at hok
      next => cases hok
      next hbind => exact .cons hbind (ih hok)
  · intro hbinds
    induction hbinds with
    | nil => rfl
    | cons hbind _ ih =>
      rw [bindInputs, hbind]
      exact ih

/-- The first input that cannot be bound is what binding fails for. -/
theorem bindInputs_of_refused {bound mid : Bindings} {before after : List (String × Tensor)}
    {name : String} {t : Tensor} {g : Failure} (hbefore : c.Binds bound before mid)
    (hbind : c.bind mid (.ofText name) t.shape.stated? = .error g) :
    bindInputs c h bound (before ++ (name, t) :: after) =
      .error (bindingFailure h name t.shape.stated? g) := by
  induction hbefore with
  | nil => rw [List.nil_append, bindInputs, hbind]
  | cons hfirst _ ih =>
    rw [List.cons_append, bindInputs, hfirst]
    exact ih hbind

/-- Binding fails at a first input, all before it being bound. -/
theorem of_bindInputs_error {bound : Bindings} {pairs : List (String × Tensor)} {f : Failure}
    (hf : bindInputs c h bound pairs = .error f) : ∃ before name t after mid g,
      pairs = before ++ (name, t) :: after ∧ c.Binds bound before mid ∧
        c.bind mid (.ofText name) t.shape.stated? = .error g := by
  induction pairs generalizing bound with
  | nil => cases hf
  | cons x more ih =>
    obtain ⟨name, t⟩ := x
    rw [bindInputs] at hf
    split at hf
    next g hg => exact ⟨[], name, t, more, bound, g, rfl, .nil bound, hg⟩
    next hbind =>
      -- This input was bound, so the failure is further on.
      obtain ⟨before, name', t', after, mid, g, rfl, hbinds, hg⟩ := ih hf
      exact ⟨(name, t) :: before, name', t', after, mid, g, rfl, .cons hbind hbinds, hg⟩

/-- **When shapes are promised.** -/
theorem outputShapes_eq_ok_iff {bound : Bindings} {names : List String}
    {promised : List (Option Shape)} :
    outputShapes c h bound names = .ok promised ↔
      List.Forall₂ (c.Promises bound) names promised := by
  constructor
  · intro hok
    induction names generalizing promised with
    | nil =>
      cases hok
      exact .nil
    | cons name more ih =>
      rw [outputShapes] at hok
      split at hok
      next => cases hok
      next shape hshape =>
        obtain ⟨rest, hrest, rfl⟩ := map_eq_ok_iff.mp hok
        exact .cons hshape (ih hrest)
  · intro hpromises
    induction hpromises with
    | nil => rfl
    | cons hshape _ ih =>
      rw [outputShapes, hshape, ih]
      rfl

/-- The first output without a shape is what asking for shapes fails for. -/
theorem outputShapes_of_refused {bound : Bindings} {before after : List String} {name : String}
    {promised : List (Option Shape)} {g : Failure}
    (hbefore : List.Forall₂ (c.Promises bound) before promised)
    (hshape : c.outputShape bound (.ofText name) = .error g) :
    outputShapes c h bound (before ++ name :: after) = .error (bindingFailure h name none g) := by
  induction hbefore with
  | nil => rw [List.nil_append, outputShapes, hshape]
  | cons hfirst _ ih =>
    rw [List.cons_append, outputShapes, hfirst, ih]
    rfl

/-- Asking for shapes fails at a first output, all before it having one. -/
theorem of_outputShapes_error {bound : Bindings} {names : List String} {f : Failure}
    (hf : outputShapes c h bound names = .error f) : ∃ before name after promised g,
      names = before ++ name :: after ∧ List.Forall₂ (c.Promises bound) before promised ∧
        c.outputShape bound (.ofText name) = .error g := by
  induction names generalizing f with
  | nil => cases hf
  | cons name more ih =>
    rw [outputShapes] at hf
    split at hf
    next g hg => exact ⟨[], name, more, [], g, rfl, .nil, hg⟩
    next shape hshape =>
      -- This output has a shape, so the failure is further on.
      rcases hrest : outputShapes c h bound more with f' | rest
      · obtain ⟨before, name', after, promised, g, rfl, hpromises, hg⟩ := ih hrest
        exact ⟨name :: before, name', after, shape :: promised, g, rfl, .cons hshape hpromises, hg⟩
      · rw [hrest] at hf
        cases hf

end Executor

/-! ### Results -/

/-- **What a caller gets for an output**: the elements and the shape of the runtime's result of that
name, on the handle's device; where a shape was promised, it is that shape. -/
structure Handle.Delivered (h : Handle) (results : List (Bytes × Option Tensor)) (name : String)
    (promised : Option Shape) (out : Tensor) : Prop where
  result : ∃ t, results.lookup (.ofText name) = some (some t) ∧ out.elements = t.elements ∧
    out.dtype = t.dtype ∧ out.shape = t.shape
  device : out.device.same h.device.device = true
  shape : ∀ shape, promised = some shape → out.shape = shape

/-- Results that have nothing under a name, or something of another shape than was promised. -/
def LacksResult (results : List (Bytes × Option Tensor)) (name : String)
    (promised : Option Shape) : Prop :=
  ∀ t, results.lookup (.ofText name) = some (some t) → ∃ shape, promised = some shape ∧
    shape ≠ t.shape

namespace Executor

variable {h : Handle} {results : List (Bytes × Option Tensor)}

/-- **What is taken is delivered.** -/
theorem takeOutputs_delivered {wanted : List (String × Option Shape)} {outs : List Tensor}
    (hok : takeOutputs h results wanted = .ok outs) :
    List.Forall₂ (fun x out => h.Delivered results x.1 x.2 out) wanted outs := by
  induction wanted generalizing outs with
  | nil =>
    cases hok
    exact .nil
  | cons x more ih =>
    obtain ⟨name, promised⟩ := x
    rw [takeOutputs] at hok
    split at hok
    next => cases hok
    next t ht =>
    split at hok
    next => cases hok
    next hshape =>
    obtain ⟨rest, hrest, rfl⟩ := map_eq_ok_iff.mp hok
    -- The executor compares shapes where one was promised, and only there.
    have hpromised : ∀ shape, promised = some shape → t.shape = shape := by
      rintro shape rfl
      have hsame : shape = t.shape := by simpa using hshape
      exact hsame.symm
    have hlookup := Option.join_eq_some_iff.mp ht
    refine .cons ?_ (ih hrest)
    -- A result on another device is moved, which leaves the rest of it as it is.
    split
    next hsame => exact ⟨⟨t, hlookup, rfl, rfl, rfl⟩, hsame, hpromised⟩
    next => exact ⟨⟨t, hlookup, rfl, rfl, rfl⟩, decide_eq_true rfl, hpromised⟩

/-- A failure to take results is the executor's own, of no kind. -/
theorem of_takeOutputs_error {wanted : List (String × Option Shape)} {f : Failure}
    (hf : takeOutputs h results wanted = .error f) :
    (∃ x ∈ wanted, LacksResult results x.1 x.2) ∧ ∀ k, f.is k = false := by
  induction wanted generalizing f with
  | nil => cases hf
  | cons x more ih =>
    obtain ⟨name, promised⟩ := x
    rw [takeOutputs] at hf
    split at hf
    next hnone =>
      cases hf
      refine ⟨⟨_, List.mem_cons_self, fun t ht => ?_⟩, fun k => rfl⟩
      rw [ht] at hnone
      cases hnone
    next t ht =>
    -- A result of another shape than was promised counts as lacking.
    split at hf
    next hshape =>
      cases hf
      refine ⟨⟨_, List.mem_cons_self, fun t' ht' => ?_⟩, fun k => rfl⟩
      obtain rfl : t = t' := by
        rw [ht'] at ht
        exact (Option.some.inj ht).symm
      cases promised with
      | none => cases hshape
      | some shape => exact ⟨shape, rfl, by simpa using hshape⟩
    next =>
      rcases hrest : takeOutputs h results more with f' | rest
      · rw [hrest] at hf
        cases hf
        obtain ⟨⟨x, hx, hlacks⟩, hkind⟩ := ih hrest
        exact ⟨⟨x, List.mem_cons_of_mem _ hx, hlacks⟩, hkind⟩
      · rw [hrest] at hf
        cases hf

/-- Where a result is lacking, taking the outputs fails. -/
theorem takeOutputs_of_lacks {wanted : List (String × Option Shape)} {x : String × Option Shape}
    (hx : x ∈ wanted) (hlacks : LacksResult results x.1 x.2) :
    ∃ f, takeOutputs h results wanted = .error f := by
  rcases htake : takeOutputs h results wanted with f | outs
  · exact ⟨f, rfl⟩
  · -- If it succeeded, the output would be delivered, in the promised shape.
    obtain ⟨i, hi⟩ := List.mem_iff_getElem?.mp hx
    obtain ⟨out, -, hdelivered⟩ := forall₂_getElem? (takeOutputs_delivered htake) hi
    obtain ⟨t, ht, -, -, hsame⟩ := hdelivered.result
    obtain ⟨shape, hpromised, hne⟩ := hlacks t ht
    exact absurd ((hdelivered.shape shape hpromised).symm.trans hsame) hne

end Executor

end EngineHost
