import EngineHost.Plan.Session
import EngineHost.Proofs.Meaning
import EngineHost.Proofs.WorkSharing

/-!
# Executions of a network

An execution takes the inputs, infers the shapes, computes the layers one after the other and gives
the outputs. The invariant along the layers is `Carried`: every value defined so far has a buffer
that carries its meaning under its inferred shape. One layer keeps it
(`PlanEngine.layerValue_carries`), hence the loop over the layers does
(`PlanEngine.layerValues_carried`).

Three things can still go wrong in a sound network with inputs within their profiles, and all of
them come from shapes with a zero: a sum along an axis of size zero may have more elements than a
buffer can hold, several workers may not be able to divide among them the rows or planes of a value
without elements, and an output of no elements may have a shape whose count is refused. With the
first excluded (`Network.SumsFit`) and the second (`Network.Shares`) an execution never goes out of
range; with the third excluded too it succeeds.

* `PlanSession.execute_progress` — executions of sound networks succeed, with the inferred shapes;
* `PlanSession.execute_meaning` — they compute the meaning of the network.
-/

namespace EngineHost

open PlanEngine (Buffers)

/-! ### Signals that outlast an execution -/

/-- The signal is silent for so many polls. -/
def Signal.Outlasts (signal : Signal) (polls : Nat) : Prop :=
  ∀ n why, signal.firing = some (n, why) → polls ≤ n

theorem Signal.never_outlasts (polls : Nat) : Signal.never.Outlasts polls := by
  intro n why h
  cases h

/-- A signal that outlasts one poll more is silent at the next one. -/
theorem Signal.Outlasts.poll {signal : Signal} {polls : Nat} (h : signal.Outlasts (polls + 1)) :
    ∃ later, signal.poll = (none, later) ∧ later.Outlasts polls := by
  obtain ⟨firing⟩ := signal
  match firing, h with
  | none, _ => exact ⟨⟨none⟩, rfl, fun _ _ hfire => by cases hfire⟩
  | some (0, why), h => exact absurd (h 0 why rfl) (by omega)
  | some (n + 1, why), h =>
    refine ⟨⟨some (n, why)⟩, rfl, ?_⟩
    intro m why' hfire
    cases hfire
    have := h (n + 1) why rfl
    omega

/-! ### The layers -/

/-- Every value defined so far has a buffer that carries its grid. -/
def Carried (shapes : Bindings) (buffers : Buffers) (env : Bytes → Grid) : Prop :=
  ∀ name s, shapes.lookup name = some s →
    ∃ v, buffers.lookup name = some v ∧ Carries s v (env name)

/-- No sum along an axis has more elements than a buffer can hold. -/
def Network.SumsFit (net : Network) (shapes : Bindings) : Prop :=
  ∀ l ∈ net.layers, l.op? = some .reduceSum →
    ∀ s, shapes.lookup l.output = some s → s.volume ≤ Kernel.maxBuffer

/-- The places of a layer's loop, on an operand of a shape: the rows that are summed, the planes
that are turned, or else the elements. -/
def Layer.loopPlaces (l : Layer) (shape : Shape) : Int64 :=
  match l.op? with
  | some .reduceSum => Kernel.product (shape.take l.axis.toNatClampNeg)
  | some .transpose => Kernel.product (shape.take (shape.length - 2))
  | _ => Int64.ofNat shape.volume

/-- The loop of every layer can be divided among workers. -/
def Network.Shares (net : Network) (workers : Nat) (shapes : Bindings) : Prop :=
  ∀ l ∈ net.layers, ∀ s, shapes.lookup (l.operands.headD []) = some s →
    Kernel.Divisible workers (l.loopPlaces s)

namespace PlanEngine

variable {e : PlanEngine}

/-- **One layer**: its value is computed, and carries the layer's meaning. -/
theorem layerValue_carries {shapes final : Bindings} {buffers : Buffers}
    {env : Bytes → Grid} (hcarried : Carried shapes buffers env)
    (hfinal : ∀ name s, shapes.lookup name = some s → final.lookup name = some s)
    {l : Layer} {s : Shape} (hshape : LayerShape shapes l s)
    (hsplit : ∀ s, final.lookup (l.operands.headD []) = some s → e.split.Covers (l.loopPlaces s))
    (hbuffer : l.op? = some .reduceSum → s.volume ≤ Kernel.maxBuffer) :
    ∃ v, e.layerValue final buffers l = some v ∧ Carries s v (l.meaning final env) := by
  -- One case for each family of layers; the operands' shapes come from the table of all shapes.
  unfold PlanEngine.layerValue Layer.meaning
  unfold Layer.loopPlaces at hsplit
  cases hshape with
  | unary hop hfamily hargs ha =>
    obtain ⟨v, hv, hcarries⟩ := hcarried _ _ ha
    have hplaces := hsplit s (by rw [hargs]; exact hfinal _ _ ha)
    rw [hop, hargs]
    dsimp only [List.headD_cons]
    rw [hv]
    -- The loop of these layers runs over the elements, one for each place of the buffer.
    rw [hop, ← hcarries.size] at hplaces
    have hrange : v.size < 2 ^ 63 := hcarries.size ▸ hcarries.inRange
    rcases hfamily with rfl | rfl | rfl
    · exact ⟨v, rfl, hcarries⟩
    · exact ⟨_, Kernel.unary_eq hrange hplaces _, hcarries.map _⟩
    · exact ⟨_, Kernel.unary_eq hrange hplaces _, hcarries.map _⟩
  | @binary _ a b _ hop hfamily hargs ha hb =>
    obtain ⟨v, hv, hcarries⟩ := hcarried _ _ ha
    obtain ⟨w, hw, hcarries'⟩ := hcarried _ _ hb
    have hplaces := hsplit s (by rw [hargs]; exact hfinal _ _ ha)
    have hsecond : [a, b].getD 1 [] = b := rfl
    rw [hop, hargs, hsecond]
    dsimp only [List.headD_cons]
    rw [hv, hw]
    rw [hop, ← hcarries.size] at hplaces
    have hrange : v.size < 2 ^ 63 := hcarries.size ▸ hcarries.inRange
    -- Operands of one shape have as many elements, so no place of the second is missing.
    have hsize : w.size = v.size := hcarries'.size.trans hcarries.size.symm
    rcases hfamily with rfl | rfl
    · exact ⟨_, Kernel.binary_eq hrange hplaces _ hsize, hcarries.zipWith hcarries' _⟩
    · exact ⟨_, Kernel.binary_eq hrange hplaces _ hsize, hcarries.zipWith hcarries' _⟩
  | @reduceSum _ operand hop hargs ha haxis =>
    obtain ⟨v, hv, hcarries⟩ := hcarried _ _ ha
    have hplaces := hsplit operand (by rw [hargs]; exact hfinal _ _ ha)
    rw [hop] at hplaces
    -- The sums are the one result that may be larger than the operand.
    obtain ⟨sums, hsums, hcarries'⟩ := hcarries.reduceSum hplaces haxis (hbuffer hop)
    rw [hop, hargs]
    dsimp only [List.headD_cons]
    rw [hv, hfinal _ _ ha]
    exact ⟨sums, hsums, hcarries'⟩
  | @transpose _ front rows cols hop hargs ha =>
    obtain ⟨v, hv, hcarries⟩ := hcarried _ _ ha
    have hplaces := hsplit (front ++ [rows, cols]) (by rw [hargs]; exact hfinal _ _ ha)
    have hfront : (front ++ [rows, cols]).take ((front ++ [rows, cols]).length - 2) = front := by
      simp
    rw [hop] at hplaces
    dsimp only at hplaces
    rw [hfront] at hplaces
    obtain ⟨out, hout, hcarries'⟩ := hcarries.transposeLast hplaces
    rw [hop, hargs]
    dsimp only [List.headD_cons]
    rw [hv, hfinal _ _ ha]
    exact ⟨out, hout, hcarries'⟩

/-- The value of a layer joins those before it. -/
theorem carried_cons {shapes : Bindings} {buffers : Buffers} {inputs : Bytes → Grid}
    {final : Bindings} {done : List Layer}
    (hcarried : Carried shapes buffers (meaningOf final inputs done)) {l : Layer} {s : Shape}
    {v : Array Single} (hv : Carries s v (l.meaning final (meaningOf final inputs done))) :
    Carried ((l.output, s) :: shapes) ((l.output, v) :: buffers)
      (meaningOf final inputs (l :: done)) := by
  intro name s' hs'
  -- The new value hides what had its name before, which is nothing, and leaves the rest in sight.
  by_cases hname : name = l.output
  · subst hname
    rw [lookup_cons_same] at hs'
    cases hs'
    refine ⟨v, lookup_cons_same _ _ _, ?_⟩
    rwa [meaningOf, if_pos rfl]
  · rw [lookup_cons_ne hname] at hs' ⊢
    rw [meaningOf, if_neg hname]
    exact hcarried name s' hs'

/-- **The layers in order**: all values are computed, and carry their meanings. -/
theorem layerValues_carried {inputs : Bytes → Grid} {final : Bindings}
    {layers : List Layer} {shapes : Bindings} (hshaped : ShapedLayers shapes layers final)
    {done : List Layer} {buffers : Buffers}
    (hcarried : Carried shapes buffers (meaningOf final inputs done))
    (hsplit : ∀ l ∈ layers, ∀ s, final.lookup (l.operands.headD []) = some s →
      e.split.Covers (l.loopPlaces s))
    (hsums : ∀ l ∈ layers, l.op? = some .reduceSum →
      ∀ s, final.lookup l.output = some s → s.volume ≤ Kernel.maxBuffer)
    {signal : Signal} (hsignal : signal.Outlasts layers.length) :
    ∃ buffers' grown signal',
      e.layerValues final buffers signal layers = (.ok buffers', grown, signal') ∧
        Carried final buffers' (meaningOf final inputs (layers.reverse ++ done)) := by
  -- The induction is along the inferred shapes: what is carried grows with the layers done.
  induction hshaped generalizing done buffers signal with
  | nil => exact ⟨buffers, [], signal, rfl, hcarried⟩
  | @cons shapes final l more s hfresh hshape hmore ih =>
    obtain ⟨later, hpoll, hlater⟩ := Signal.Outlasts.poll hsignal
    -- A layer reads the table of all shapes, where its operands have what they had before it.
    have hkeep : ∀ name s, shapes.lookup name = some s → final.lookup name = some s :=
      fun name s hs => hmore.lookup_of_lookup (lookup_cons_of_fresh hs hfresh)
    have hown : final.lookup l.output = some s := hmore.lookup_of_lookup (lookup_cons_same _ _ _)
    obtain ⟨v, hv, hcarries⟩ := layerValue_carries hcarried hkeep hshape (hsplit l (by simp))
      fun hop => hsums l (by simp) hop s hown
    obtain ⟨buffers', grown, signal', hrun, hcarried'⟩ := ih (carried_cons hcarried hcarries)
      (fun l' hl' => hsplit l' (by simp [hl'])) (fun l' hl' => hsums l' (by simp [hl'])) hlater
    refine ⟨buffers', Int64.ofNat (4 * v.size) :: grown, signal', ?_, ?_⟩
    · rw [PlanEngine.layerValues, hpoll]
      dsimp only
      rw [hv]
      dsimp only
      rw [hrun]
    · rwa [List.reverse_cons, List.append_assoc]

end PlanEngine

/-! ### The inputs -/

/-- Tensors by name, as a caller hands them over; a name may come without one. -/
abbrev Feed := List (Bytes × Option Tensor)

namespace Feed

variable (given : Feed)

/-- The tensor of a name. -/
def tensor? (name : Bytes) : Option Tensor :=
  (given.lookup name).join

/-- The shape of the tensor of a name. -/
def shapeOf (name : Bytes) : Shape :=
  ((given.tensor? name).map (·.shape)).getD []

/-- The elements of the tensor of a name. -/
def valuesOf (name : Bytes) : Array Single :=
  ((given.tensor? name).map (·.elements.toSingles)).getD #[]

/-- The grid of the tensor of a name. -/
def grid (name : Bytes) : Grid :=
  gridOf (given.shapeOf name) (given.valuesOf name)

variable {given}

theorem shapeOf_eq {name : Bytes} {t : Tensor} (ht : given.tensor? name = some t) :
    given.shapeOf name = t.shape := by
  rw [shapeOf, ht]
  rfl

theorem valuesOf_eq {name : Bytes} {t : Tensor} {values : Array Single}
    (ht : given.tensor? name = some t) (hvalues : t.elements = .float32 values) :
    given.valuesOf name = values := by
  rw [valuesOf, ht, Option.map_some, hvalues]
  rfl

variable (given)

/-- Every input has a tensor in single precision. -/
def Covers (net : Network) : Prop :=
  ∀ i ∈ net.inputs, ∃ t values, given.tensor? i.name = some t ∧ t.elements = .float32 values

end Feed

namespace PlanEngine

variable {e : PlanEngine} {given : Feed}

/-- Binds the shapes of the tensors of inputs, in order. -/
def bindFed (e : PlanEngine) (given : Feed) (bound : Bindings) (i : NetworkInput) :
    Except Failure Bindings :=
  e.bind bound i.name (given.shapeOf i.name).stated?

/-- Binding the shapes of all inputs succeeds on shapes within the profiles only, and then each
input has the shape of its tensor. -/
theorem bindFed_ok (hnodup : e.network.inputNames.Nodup) {inputs : List NetworkInput}
    (hsub : ∀ i ∈ inputs, i ∈ e.network.inputs) {bound bound' : Bindings}
    (h : inputs.foldlM (e.bindFed given) bound = .ok bound') :
    (∀ i ∈ inputs, Accepts i (given.shapeOf i.name)) ∧
      ∀ name, bound'.lookup name =
        if name ∈ inputs.map (·.name) then some (given.shapeOf name) else bound.lookup name := by
  -- The table so far is whatever earlier inputs have left, so it is arbitrary here.
  induction inputs generalizing bound with
  | nil =>
    cases h
    exact ⟨by simp, by simp⟩
  | cons i more ih =>
    rw [List.foldlM_cons, EngineHost.bind_eq_ok_iff] at h
    obtain ⟨mid, hi, hmore⟩ := h
    obtain ⟨haccepts, rfl⟩ := (PlanEngine.bind_eq_ok_iff hnodup (hsub i (by simp))).mp hi
    rw [Shape.getD_stated] at haccepts hmore
    obtain ⟨hall, hlookup⟩ := ih (fun j hj => hsub j (by simp [hj])) hmore
    refine ⟨List.forall_mem_cons.mpr ⟨haccepts, hall⟩, fun name => ?_⟩
    rw [hlookup name, List.map_cons]
    -- Later inputs of the same name cannot undo this one, as they have the same tensor.
    by_cases hname : name = i.name
    · subst hname
      simp
    · simp [hname, lookup_cons_ne]

/-- Taking one input: it is bound to the shape of its tensor, whatever it was bound to. -/
theorem takeInput_ok (hnodup : e.network.inputNames.Nodup) {i : NetworkInput}
    (hi : i ∈ e.network.inputs) {t : Tensor} {values : Array Single}
    (ht : given.tensor? i.name = some t) (hvalues : t.elements = .float32 values)
    (haccepts : Accepts i t.shape) (bound : Bindings) :
    ∃ mid, e.takeInput bound i given = .ok (values, mid) ∧
      ∀ name, mid.lookup name = if name = i.name then some t.shape else bound.lookup name := by
  have hjoin : (given.lookup i.name).join = some t := ht
  unfold PlanEngine.takeInput
  rw [hjoin]
  dsimp only
  rw [hvalues]
  dsimp only
  -- An input that is bound to this very shape already is left as it is.
  split
  next hbound =>
    refine ⟨bound, rfl, fun name => ?_⟩
    split
    next hname => rw [hname, hbound]
    · rfl
  · have hbind : e.bind bound i.name t.shape.stated? = .ok ((i.name, t.shape) :: bound) := by
      rw [PlanEngine.bind_eq_ok_iff hnodup hi, Shape.getD_stated]
      exact ⟨haccepts, rfl⟩
    rw [hbind]
    refine ⟨_, rfl, fun name => ?_⟩
    split
    next hname => rw [hname, lookup_cons_same]
    next hname => rw [lookup_cons_ne hname]

/-- Taking inputs whose shapes are within the profiles: the buffers are those of the tensors, and
each input is bound to the shape of its tensor. -/
theorem takeInputs_ok (hnodup : e.network.inputNames.Nodup) {inputs : List NetworkInput}
    (hsub : ∀ i ∈ inputs, i ∈ e.network.inputs)
    (hfed : ∀ i ∈ inputs, ∃ t values, given.tensor? i.name = some t ∧ t.elements = .float32 values)
    (haccepts : ∀ i ∈ inputs, Accepts i (given.shapeOf i.name)) (bound : Bindings)
    (buffers : Buffers) :
    ∃ bound', e.takeInputs given bound buffers inputs =
        (.ok ((inputs.map fun i => (i.name, given.valuesOf i.name)).reverse ++ buffers), bound') ∧
      ∀ name, bound'.lookup name =
        if name ∈ inputs.map (·.name) then some (given.shapeOf name) else bound.lookup name := by
  -- The buffers are pushed in front of each other, and end up in reverse.
  induction inputs generalizing bound buffers with
  | nil => exact ⟨bound, rfl, by simp⟩
  | cons i more ih =>
    obtain ⟨t, values, ht, hvalues⟩ := hfed i (by simp)
    have hshape : given.shapeOf i.name = t.shape := Feed.shapeOf_eq ht
    obtain ⟨mid, htake, hmid⟩ :=
      takeInput_ok hnodup (hsub i (by simp)) ht hvalues (hshape ▸ haccepts i (by simp)) bound
    obtain ⟨bound', hrun, hbound'⟩ := ih (fun j hj => hsub j (by simp [hj]))
      (fun j hj => hfed j (by simp [hj])) (fun j hj => haccepts j (by simp [hj])) mid
      ((i.name, values) :: buffers)
    refine ⟨bound', ?_, fun name => ?_⟩
    · rw [PlanEngine.takeInputs, htake]
      dsimp only
      rw [hrun, List.map_cons, List.reverse_cons, List.append_assoc, Feed.valuesOf_eq ht hvalues]
      rfl
    · rw [hbound' name, hmid name, List.map_cons]
      by_cases hname : name = i.name
      · subst hname
        simp [hshape]
      · simp [hname]

/-- The inputs carry the grids of their tensors. -/
theorem carried_inputs (hnodup : e.network.inputNames.Nodup) (hfed : given.Covers e.network) :
    Carried (e.network.inputTable fun i => given.shapeOf i.name)
      (e.network.inputTable fun i => given.valuesOf i.name) given.grid := by
  intro name s hs
  obtain ⟨i, hi, rfl, rfl⟩ := Network.of_lookup_inputTable hs
  refine ⟨_, Network.lookup_inputTable hnodup _ hi, ?_⟩
  obtain ⟨t, values, ht, hvalues⟩ := hfed i hi
  rw [Feed.grid, Feed.shapeOf_eq ht, Feed.valuesOf_eq ht hvalues]
  exact Carries.ofTensor hvalues

end PlanEngine

/-! ### The outputs -/

/-- A tensor is made of elements in the number that its shape counts. -/
theorem Tensor.make_ok (device : Device) {elements : Elements} {shape : Shape}
    (hstatic : shape.isStatic = true) (hcount : shape.count = .ok elements.size) :
    ∃ t, Tensor.make device elements shape = .ok t ∧ t.elements = elements ∧ t.shape = shape ∧
      t.device = device :=
  ⟨⟨elements, shape, device, hstatic, hcount⟩, by
    unfold Tensor.make
    rw [dif_pos hstatic]
    split
    next hfail => rw [hcount] at hfail; cases hfail
    next n hn =>
    have hsize : n = elements.size := Except.ok.inj (hn.symm.trans hcount)
    rw [dif_pos hsize], rfl, rfl, rfl⟩

/-- An output as it is given: a tensor of the inferred shape that carries the grid of its name. -/
def Gives (shapes : Bindings) (env : Bytes → Grid) (name : Bytes) (out : Bytes × Option Tensor) :
    Prop :=
  ∃ t values, out = (name, some t) ∧ shapes.lookup name = some t.shape ∧
    t.elements = .float32 values ∧ Carries t.shape values (env name)

section Gives

variable {shapes : Bindings} {env : Bytes → Grid} {names : List Bytes}
  {outs : List (Bytes × Option Tensor)}

/-- Outputs are given under their names. -/
theorem gives_names (h : List.Forall₂ (Gives shapes env) names outs) : outs.map (·.1) = names := by
  induction h with
  | nil => rfl
  | cons hgives _ ih =>
    obtain ⟨t, values, rfl, -⟩ := hgives
    rw [List.map_cons, ih]

theorem gives_of_mem (h : List.Forall₂ (Gives shapes env) names outs)
    {out : Bytes × Option Tensor} (hout : out ∈ outs) :
    ∃ t values, out.2 = some t ∧ shapes.lookup out.1 = some t.shape ∧
      t.elements = .float32 values ∧ Carries t.shape values (env out.1) := by
  induction h with
  | nil => exact absurd hout (by simp)
  | cons hgives _ ih =>
    rcases List.mem_cons.mp hout with rfl | hout
    · obtain ⟨t, values, rfl, hrest⟩ := hgives
      exact ⟨t, values, rfl, hrest⟩
    · exact ih hout

end Gives

namespace PlanEngine

variable {e : PlanEngine} {given : Feed}

/-- **The outputs**: each value that has a countable shape becomes a tensor of it. -/
theorem giveOutputs_ok {shapes : Bindings} {buffers : Buffers} {env : Bytes → Grid}
    (hcarried : Carried shapes buffers env) {names : List Bytes}
    (hcount : ∀ name ∈ names, ∃ s n, shapes.lookup name = some s ∧ s.count = .ok n) :
    ∃ outs, e.giveOutputs shapes buffers names = .ok outs ∧
      List.Forall₂ (Gives shapes env) names outs := by
  induction names with
  | nil => exact ⟨[], rfl, .nil⟩
  | cons name more ih =>
    obtain ⟨outs, houts, hgives⟩ := ih fun other hother => hcount other (by simp [hother])
    obtain ⟨s, n, hs, hn⟩ := hcount name (by simp)
    obtain ⟨v, hv, hcarries⟩ := hcarried name s hs
    -- The count of a shape that has one is its volume, which is the size of the buffer.
    have hsize : s.count = .ok (Elements.float32 v).size := by
      rw [hn, (Shape.count_eq_volume hn).1]
      exact congrArg _ hcarries.size.symm
    obtain ⟨t, ht, helements, rfl, -⟩ := Tensor.make_ok .cpu hcarries.isStatic hsize
    refine ⟨(name, some t) :: outs, ?_, .cons ⟨t, v, rfl, hs, helements, hcarries⟩ hgives⟩
    rw [PlanEngine.giveOutputs, hv, hs]
    dsimp only [Option.getD_some]
    rw [ht]
    dsimp only
    rw [houts]
    rfl

/-- Giving outputs may fail, but not by going out of range. -/
theorem giveOutputs_not_crash {shapes : Bindings} {buffers : Buffers} {names : List Bytes}
    {f : Failure} (h : e.giveOutputs shapes buffers names = .error f) : f.isCrash = false := by
  induction names with
  | nil => cases h
  | cons name more ih =>
    rw [PlanEngine.giveOutputs] at h
    split at h
    · cases h
      rfl
    · refine ih ?_
      rcases hmore : e.giveOutputs shapes buffers more with f' | outs
      · rw [hmore] at h
        cases h
        rfl
      · rw [hmore] at h
        cases h

/-! ### Executions -/

/-- Once the shapes of all tensors are bound, the inferred shapes start from these. -/
theorem shaped_of_bindFed {ranks : Ranks} (hsound : e.network.Sound ranks)
    {bound bound' shapes : Bindings}
    (hbind : e.network.inputs.foldlM (e.bindFed given) bound = .ok bound')
    (hshapes : e.shapes bound' = .ok shapes) :
    ShapedLayers (e.network.inputTable fun i => given.shapeOf i.name) e.network.layers shapes ∧
      RanksMatch ranks shapes := by
  obtain ⟨haccepts, hbound'⟩ := bindFed_ok hsound.inputs_nodup (fun _ hi => hi) hbind
  -- Binding the tensors has left the shape of its tensor to every input.
  have hfed : ∀ i ∈ e.network.inputs, bound'.lookup i.name = some (given.shapeOf i.name) := by
    intro i hi
    rw [hbound', if_pos (List.mem_map_of_mem hi)]
  have htable : e.boundTable bound' = e.network.inputTable fun i => given.shapeOf i.name := by
    refine Network.inputTable_congr fun i hi => ?_
    rw [hfed i hi]
    rfl
  rw [← htable]
  refine (shapes_ok hsound (fun i hi s hs => ?_) hshapes).2
  rw [hfed i hi] at hs
  cases hs
  exact (haccepts i hi).rank

/-- **An execution computes every value.** What is left is to give the outputs. -/
theorem execute_eq {ranks : Ranks} (hsound : e.network.Sound ranks) {signal : Signal}
    (hsignal : signal.Outlasts (e.network.layers.length + 1)) (hfed : given.Covers e.network)
    {bound bound' shapes : Bindings}
    (hbind : e.network.inputs.foldlM (e.bindFed given) bound = .ok bound')
    (hshapes : e.shapes bound' = .ok shapes) {asked : Int64} (hsplit : e.split.Schedules asked)
    (hshares : e.network.Shares (Kernel.workerCount asked) shapes)
    (hsums : e.network.SumsFit shapes) :
    ∃ buffers, Carried shapes buffers (e.network.meaning shapes given.grid) ∧
      (e.execute bound signal given).1.result =
        e.giveOutputs shapes buffers e.network.outputs := by
  have hnodup := hsound.inputs_nodup
  obtain ⟨haccepts, hbound'⟩ := bindFed_ok hnodup (fun _ hi => hi) hbind
  obtain ⟨taken, htake, htaken⟩ := takeInputs_ok hnodup (fun _ hi => hi) hfed haccepts bound []
  -- Taking the inputs skips what is bound already, so the two tables differ; but they answer alike.
  have hsame : e.shapes taken = .ok shapes := by
    rw [← hshapes]
    refine shapes_congr fun i hi => ?_
    rw [htaken, hbound']
  obtain ⟨hshaped, -⟩ := shaped_of_bindFed hsound hbind hshapes
  -- The execution looks at the signal once before it starts, and once before each layer.
  obtain ⟨later, hpoll, hlater⟩ := Signal.Outlasts.poll hsignal
  have hstart : Carried (e.network.inputTable fun i => given.shapeOf i.name)
      (e.network.inputTable fun i => given.valuesOf i.name) (meaningOf shapes given.grid []) :=
    carried_inputs hnodup hfed
  obtain ⟨buffers, grown, signal', hrun, hcarried⟩ := layerValues_carried hshaped hstart
    (fun l hl s hs => hsplit.covers (hshares l hl s hs)) hsums hlater
  rw [List.append_nil] at hcarried
  refine ⟨buffers, hcarried, ?_⟩
  unfold PlanEngine.execute
  rw [hpoll]
  dsimp only
  rw [htake, List.append_nil]
  dsimp only
  rw [hsame]
  dsimp only
  unfold Network.inputTable at hrun
  rw [hrun]

end PlanEngine

namespace PlanSession

/-- **A session that is ready to execute**: a sound network, an open context, kernels that run under
some schedule for some number of workers, among which the loop of every layer can be divided, a
signal that stays silent, and a tensor for each input whose shape is accepted when it is bound and
from which the `shapes` are inferred. -/
structure Ready (s : PlanSession) (i : Nat) (signal : Signal) (given : Feed) (shapes : Bindings) :
    Prop where
  valid : s.engine.network.validate = .ok ()
  isOpen : (s.context i).isClosed = false
  workers : ∃ asked, s.engine.split.Schedules asked ∧
    s.engine.network.Shares (Kernel.workerCount asked) shapes
  live : signal.Outlasts (s.engine.network.layers.length + 1)
  fed : given.Covers s.engine.network
  inferred : ∃ bound,
    s.engine.network.inputs.foldlM (s.engine.bindFed given) (s.context i).bound = .ok bound ∧
      s.engine.shapes bound = .ok shapes

variable {s : PlanSession} {i : Nat} {signal : Signal} {given : Feed} {shapes : Bindings}

/-- All values are computed, and every output has an inferred shape. -/
theorem Ready.execute_eq (h : s.Ready i signal given shapes)
    (hsums : s.engine.network.SumsFit shapes) :
    ∃ buffers, Carried shapes buffers (s.engine.network.meaning shapes given.grid) ∧
      (s.execute i signal given).1 =
        s.engine.giveOutputs shapes buffers s.engine.network.outputs := by
  obtain ⟨ranks, hsound⟩ := Network.sound_of_validate h.valid
  obtain ⟨asked, hschedules, hshares⟩ := h.workers
  obtain ⟨bound, hbind, hshapes⟩ := h.inferred
  obtain ⟨buffers, hcarried, hresult⟩ := PlanEngine.execute_eq hsound h.live h.fed hbind hshapes
    hschedules hshares hsums
  refine ⟨buffers, hcarried, ?_⟩
  rw [← hresult]
  unfold PlanSession.execute
  dsimp only
  rw [if_neg (by rw [h.isOpen]; simp)]

/-- Every output has an inferred shape, for it has a rank. -/
theorem Ready.output_shape (h : s.Ready i signal given shapes) {name : Bytes}
    (hname : name ∈ s.engine.network.outputs) : ∃ shape, shapes.lookup name = some shape := by
  obtain ⟨ranks, hsound⟩ := Network.sound_of_validate h.valid
  obtain ⟨bound, hbind, hshapes⟩ := h.inferred
  obtain ⟨-, hranks⟩ := PlanEngine.shaped_of_bindFed hsound hbind hshapes
  obtain ⟨r, hr⟩ := hsound.outputs_defined name hname
  obtain ⟨shape, hshape, -⟩ := hranks.lookup hr
  exact ⟨shape, hshape⟩

/-- A fresh context on a network. -/
def onNetwork (net : Network) : PlanSession where
  engine := { name := "eng", network := net }
  bytes := 0
  contexts := #[{}]

/-- A fresh context on a network of one input is ready, once the shapes are known. -/
theorem ready_onNetwork {net : Network} {name : Bytes} {t : Tensor} {values : Array Single}
    (hvalid : net.validate = .ok ()) (hinputs : net.inputNames = [name])
    (helements : t.elements = .float32 values)
    (hinferred : ∃ bound, net.inputs.foldlM
        ((onNetwork net).engine.bindFed [(name, some t)]) [] = .ok bound ∧
      (onNetwork net).engine.shapes bound = .ok shapes) :
    (onNetwork net).Ready 0 .never [(name, some t)] shapes where
  valid := hvalid
  isOpen := rfl
  workers := ⟨1, Kernel.Split.schedules_of_perm fun _ cs hcs => ⟨cs, hcs, .refl _⟩,
    fun _ _ _ _ => .inl le_rfl⟩
  live := Signal.never_outlasts _
  fed := by
    intro i hi
    have hname : i.name ∈ net.inputNames := List.mem_map_of_mem hi
    rw [hinputs, List.mem_singleton] at hname
    exact ⟨t, values, by rw [Feed.tensor?, hname, lookup_cons_same]; rfl, helements⟩
  inferred := hinferred

/-- **Executions make progress.** Where no sum along an axis is larger than a buffer, an execution
never goes out of range. If moreover the shapes of the outputs can be counted, it succeeds: it gives
the outputs of the network in order, each of its inferred shape, with as many elements as the
product of that shape, in natural numbers and so in numbers that wrap around. -/
theorem execute_progress (h : s.Ready i signal given shapes)
    (hsums : s.engine.network.SumsFit shapes) :
    (∀ f, (s.execute i signal given).1 = .error f → f.isCrash = false) ∧
    ((∀ name ∈ s.engine.network.outputs, ∀ shape, shapes.lookup name = some shape →
        ∃ n, shape.count = .ok n) →
      ∃ outs, (s.execute i signal given).1 = .ok outs ∧
        outs.map (·.1) = s.engine.network.outputs ∧
        ∀ out ∈ outs, ∃ t shape, out.2 = some t ∧ shapes.lookup out.1 = some shape ∧
          t.shape = shape ∧ t.size = shape.volume ∧
          Int64.ofNat t.size = Kernel.product shape) := by
  obtain ⟨buffers, hcarried, hresult⟩ := h.execute_eq hsums
  rw [hresult]
  refine ⟨fun f hf => PlanEngine.giveOutputs_not_crash hf, fun hcount => ?_⟩
  -- The outputs have shapes by inference, and counts by assumption.
  obtain ⟨outs, houts, hgives⟩ := PlanEngine.giveOutputs_ok hcarried fun name hname => by
    obtain ⟨shape, hshape⟩ := h.output_shape hname
    obtain ⟨n, hn⟩ := hcount name hname shape hshape
    exact ⟨shape, n, hshape, hn⟩
  refine ⟨outs, houts, gives_names hgives, fun out hout => ?_⟩
  obtain ⟨t, values, htensor, hshape, helements, hcarries⟩ := gives_of_mem hgives hout
  have hsize : t.size = t.shape.volume := by
    rw [Tensor.size, helements]
    exact hcarries.size
  refine ⟨t, t.shape, htensor, hshape, rfl, hsize, ?_⟩
  rw [hsize, Kernel.product_eq t.isStatic]

/-- A tensor without elements whose last two dimensions multiply to `2 ^ 64`. -/
def hollow : Tensor where
  elements := .float32 #[]
  shape := [0, 4611686018427387904, 4]
  device := .cpu
  isStatic := by decide
  count_eq := by decide

/-- Exchanges the last two axes, and sums along the last one. -/
def swapAndSum (rank : Nat) (axis : Int64) : Network where
  inputs := [{ name := [120], min := List.replicate rank 0, max := List.replicate rank (-1) }]
  layers := [{ label := Bytes.ofText "transpose", operands := [[120]], output := [116] },
    { label := Bytes.ofText "reduce_sum", operands := [[116]], output := [121], axis := axis }]
  outputs := [[116], [121]]

/-- The product of a plane wraps around here, and nothing goes wrong. -/
theorem execute_progress_hollow :
    ∃ outs, ((onNetwork (swapAndSum 3 2)).execute 0 .never [([120], some hollow)]).1 = .ok outs ∧
      outs.map (·.1) = [[116], [121]] ∧
      ∀ out ∈ outs, ∃ t shape, out.2 = some t ∧
        List.lookup out.1 [([121], [0, 4]), ([116], [0, 4, 4611686018427387904]),
          ([120], hollow.shape)] = some shape ∧
        t.shape = shape ∧ t.size = Shape.volume shape ∧
        Int64.ofNat t.size = Kernel.product shape := by
  have hready : (onNetwork (swapAndSum 3 2)).Ready 0 .never [([120], some hollow)]
      [([121], [0, 4]), ([116], [0, 4, 4611686018427387904]), ([120], hollow.shape)] :=
    ready_onNetwork (by decide) rfl rfl ⟨[([120], hollow.shape)], rfl, rfl⟩
  -- What is left is a check of two layers and three shapes.
  refine (execute_progress hready ?_).2 ?_
  · intro l hl _ shape hshape
    simp only [onNetwork, swapAndSum, List.mem_cons, List.not_mem_nil, or_false] at hl
    rcases hl with rfl | rfl <;> cases hshape <;> decide
  · intro name _ shape hshape
    have hmem := mem_of_lookup hshape
    simp only [List.mem_cons, Prod.mk.injEq, List.not_mem_nil, or_false] at hmem
    rcases hmem with ⟨-, rfl⟩ | ⟨-, rfl⟩ | ⟨-, rfl⟩ <;> exact ⟨0, by decide⟩

/-- Sums along the first axis. -/
def sumFirst (rank : Nat) : Network where
  inputs := [{ name := [120], min := List.replicate rank 0, max := List.replicate rank (-1) }]
  layers := [{ label := Bytes.ofText "reduce_sum", operands := [[120]], output := [121] }]
  outputs := [[121]]

/-- A tensor without elements that has all but one of `2 ^ 63` planes. -/
def manyPlanes : Tensor where
  elements := .float32 #[]
  shape := [9223372036854775807, 0, 0]
  device := .cpu
  isStatic := by decide
  count_eq := by decide

/-- Exchanges the last two axes. -/
def swapOnly : Network where
  inputs := [{ name := [120], min := [0, 0, 0], max := [-1, -1, -1] }]
  layers := [{ label := Bytes.ofText "transpose", operands := [[120]], output := [121] }]
  outputs := [[121]]

/-- A fresh context on a network for a number of workers that is asked for. -/
def sharedOnNetwork (asked : Int64) (net : Network) : PlanSession where
  engine := { name := "eng", network := net, split := Kernel.chunks (Kernel.workerCount asked) }
  bytes := 0
  contexts := #[{}]

/-- A session that is ready and still fails: the sum has a shape whose product wraps around to no
elements at all, and no tensor can have that shape. And a session that would be ready but for its
second worker, with whom the planes cannot be shared. -/
theorem execute_refuses_uncountable :
    (onNetwork (sumFirst 3)).Ready 0 .never [([120], some hollow)]
      [([121], [4611686018427387904, 4]), ([120], hollow.shape)] ∧
    ((onNetwork (sumFirst 3)).execute 0 .never [([120], some hollow)]).1 =
      .error (.within "engine \"eng\" output \"y\""
        (.plain "shape [4611686018427387904 4] overflows element count")) ∧
    (sharedOnNetwork 1 swapOnly).Ready 0 .never [([120], some manyPlanes)]
      [([121], manyPlanes.shape), ([120], manyPlanes.shape)] ∧
    ((sharedOnNetwork 2 swapOnly).execute 0 .never [([120], some manyPlanes)]).1 =
      .error .crash :=
  ⟨ready_onNetwork (by decide) rfl rfl ⟨[([120], hollow.shape)], rfl, rfl⟩, rfl,
    ready_onNetwork (by decide) rfl rfl ⟨[([120], manyPlanes.shape)], rfl, rfl⟩, rfl⟩

/-- **Executions compute the meaning of the network.** Where no sum along an axis is larger than a
buffer and the dimensions other than zero of every value stay in range, an execution succeeds with
exactly the outputs of the network, and each holds at every multi-index the number that the network
means there. -/
theorem execute_meaning (h : s.Ready i signal given shapes)
    (hsums : s.engine.network.SumsFit shapes)
    (hspan : ∀ name shape, shapes.lookup name = some shape → shape.SpanFits) :
    ∃ outs, (s.execute i signal given).1 = .ok outs ∧
      outs.map (·.1) = s.engine.network.outputs ∧
      ∀ out ∈ outs, ∃ t values, out.2 = some t ∧ shapes.lookup out.1 = some t.shape ∧
        t.elements = .float32 values ∧
        ∀ idx, t.shape.HasIndex idx → values[t.shape.offset idx]? =
          some (s.engine.network.meaning shapes given.grid out.1 idx) := by
  obtain ⟨buffers, hcarried, hresult⟩ := h.execute_eq hsums
  rw [hresult]
  -- A shape whose dimensions other than zero stay in range is never refused.
  obtain ⟨outs, houts, hgives⟩ := PlanEngine.giveOutputs_ok hcarried fun name hname => by
    obtain ⟨shape, hshape⟩ := h.output_shape hname
    obtain ⟨v, -, hcarries⟩ := hcarried name shape hshape
    obtain ⟨n, hn⟩ := Shape.count_of_spanFits hcarries.isStatic (hspan name shape hshape)
    exact ⟨shape, n, hshape, hn⟩
  refine ⟨outs, houts, gives_names hgives, fun out hout => ?_⟩
  obtain ⟨t, values, htensor, hshape, helements, hcarries⟩ := gives_of_mem hgives hout
  exact ⟨t, values, htensor, hshape, helements, fun idx hidx => hcarries.getElem? hidx⟩

/-- The two rows one, two, three and four, five, six. -/
def counting : Tensor where
  elements := .float32 #[⟨0x3F800000⟩, ⟨0x40000000⟩, ⟨0x40400000⟩, ⟨0x40800000⟩, ⟨0x40A00000⟩,
    ⟨0x40C00000⟩]
  shape := [2, 3]
  device := .cpu
  isStatic := by decide
  count_eq := by decide

/-- Exchanging the axes of two rows and summing up gives the three sums of the columns. -/
theorem execute_meaning_counting :
    ∃ outs,
      ((onNetwork (swapAndSum 2 1)).execute 0 .never [([120], some counting)]).1 = .ok outs ∧
      outs.map (·.1) = [[116], [121]] ∧
      ∀ out ∈ outs, ∃ t values, out.2 = some t ∧
        List.lookup out.1 [([121], [3]), ([116], [3, 2]), ([120], [2, 3])] = some t.shape ∧
        t.elements = .float32 values ∧
        ∀ idx, t.shape.HasIndex idx → values[t.shape.offset idx]? =
          some ((swapAndSum 2 1).meaning [([121], [3]), ([116], [3, 2]), ([120], [2, 3])]
            (Feed.grid [([120], some counting)]) out.1 idx) := by
  have hready : (onNetwork (swapAndSum 2 1)).Ready 0 .never [([120], some counting)]
      [([121], [3]), ([116], [3, 2]), ([120], [2, 3])] :=
    ready_onNetwork (by decide) rfl rfl ⟨[([120], [2, 3])], rfl, rfl⟩
  refine execute_meaning hready ?_ ?_
  · intro l hl _ shape hshape
    simp only [onNetwork, swapAndSum, List.mem_cons, List.not_mem_nil, or_false] at hl
    rcases hl with rfl | rfl <;> cases hshape <;> decide
  · intro name shape hshape
    have hmem := mem_of_lookup hshape
    simp only [List.mem_cons, Prod.mk.injEq, List.not_mem_nil, or_false] at hmem
    rcases hmem with ⟨-, rfl⟩ | ⟨-, rfl⟩ | ⟨-, rfl⟩ <;> decide

/-- A tensor without elements and with a long second axis. -/
def long : Tensor where
  elements := .float32 #[]
  shape := [0, 1125899906842624]
  device := .cpu
  isStatic := by decide
  count_eq := by decide

/-- Copies its input beside a sum along the first axis that nobody asks for. -/
def copyBesideSum : Network where
  inputs := [{ name := [120], min := [0, 0], max := [-1, -1] }]
  layers := [{ label := Bytes.ofText "reduce_sum", operands := [[120]], output := [114] },
    { label := Bytes.ofText "identity", operands := [[120]], output := [121] }]
  outputs := [[121]]

/-- A session that is ready, with every dimension in range, and no result at all: there is no buffer
for the sum. -/
theorem execute_crashes_on_long_sum :
    (onNetwork copyBesideSum).Ready 0 .never [([120], some long)]
      [([121], long.shape), ([114], [1125899906842624]), ([120], long.shape)] ∧
    (∀ (name : Bytes) (shape : Shape), List.lookup name
      [([121], long.shape), ([114], [1125899906842624]), ([120], long.shape)] = some shape →
      Shape.SpanFits shape) ∧
    ((onNetwork copyBesideSum).execute 0 .never [([120], some long)]).1 = .error .crash := by
  -- The execution itself is computed; it stops at the first layer.
  refine ⟨ready_onNetwork (by decide) rfl rfl ⟨[([120], long.shape)], rfl, rfl⟩, ?_, rfl⟩
  intro name shape hshape
  have hmem := mem_of_lookup hshape
  simp only [List.mem_cons, Prod.mk.injEq, List.not_mem_nil, or_false] at hmem
  rcases hmem with ⟨-, rfl⟩ | ⟨-, rfl⟩ | ⟨-, rfl⟩ <;> decide

end PlanSession

end EngineHost
