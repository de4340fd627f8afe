import EngineHost.Plan.Context
import EngineHost.Proofs.NetworkSound
import EngineHost.Proofs.Volume

/-!
# Shapes along a network

Once a shape is bound to every input, shapes move through the layers of a network in order. This
file says what that movement is, once, so that neither the kernels nor the tracer open the functions
that do it:

* `LayerShape shapes l s` — behind values of the given `shapes`, layer `l` has a value of shape `s`;
  one constructor for each family of operations, with the operands spelled out;
* `ShapedLayers shapes layers final` — the layers in order, each under a name that is new;
* `Accepts i s` — what a profile asks of a shape: its rank, and every axis in range;
* `PlanEngine.shapes_ok` — inferred shapes start from a table of the inputs and follow
  `ShapedLayers`.

Names are defined once, so a shape that has been found stays (`ShapedLayers.lookup_of_lookup`). The
tables of the inputs all have one form (`Network.inputTable`), whatever they hold.
-/

namespace EngineHost

/-! ### Tables of the inputs -/

section InputTable

variable {β γ : Type}

/-- Something for each input, latest first. -/
def Network.inputTable (net : Network) (f : NetworkInput → β) : List (Bytes × β) :=
  (net.inputs.map fun i => (i.name, f i)).reverse

/-- A table is settled by what it has for the inputs. -/
theorem Network.inputTable_congr {net : Network} {f g : NetworkInput → β}
    (h : ∀ i ∈ net.inputs, f i = g i) : net.inputTable f = net.inputTable g := by
  unfold inputTable
  rw [List.map_congr_left fun i hi => by rw [h i hi]]

/-- Every input is found in its table. -/
theorem Network.lookup_inputTable {net : Network} (hnodup : net.inputNames.Nodup)
    (f : NetworkInput → β) {i : NetworkInput} (hi : i ∈ net.inputs) :
    (net.inputTable f).lookup i.name = some (f i) := by
  refine lookup_eq_some_of_mem ?_ ?_
  · rw [inputTable, List.map_reverse, List.nodup_reverse, List.map_map]
    exact hnodup
  · rw [inputTable, List.mem_reverse]
    exact List.mem_map_of_mem hi

/-- What is found in a table belongs to an input. -/
theorem Network.of_lookup_inputTable {net : Network} {f : NetworkInput → β} {name : Bytes} {v : β}
    (h : (net.inputTable f).lookup name = some v) : ∃ i ∈ net.inputs, i.name = name ∧ f i = v := by
  have hmem := mem_of_lookup h
  rw [inputTable, List.mem_reverse] at hmem
  obtain ⟨i, hi, heq⟩ := List.mem_map.mp hmem
  exact ⟨i, hi, congrArg Prod.fst heq, congrArg Prod.snd heq⟩

/-- Tables of related things match. -/
theorem Network.matches_inputTable {net : Network} {R : β → γ → Prop} {f : NetworkInput → β}
    {g : NetworkInput → γ} (h : ∀ i ∈ net.inputs, R (f i) (g i)) :
    Matches R (net.inputTable f) (net.inputTable g) := by
  unfold Matches inputTable
  rw [List.forall₂_reverse_iff, List.forall₂_map_left_iff, List.forall₂_map_right_iff,
    List.forall₂_same]
  exact fun i hi => ⟨rfl, h i hi⟩

/-- Every input is found by its name. -/
theorem Network.input?_eq_some {net : Network} (hnodup : net.inputNames.Nodup) {i : NetworkInput}
    (hi : i ∈ net.inputs) : net.input? i.name = some i :=
  find?_of_nodup_map hnodup hi

end InputTable

/-! ### What a profile asks -/

/-- A shape within the profile of an input. -/
structure Accepts (i : NetworkInput) (shape : Shape) : Prop where
  rank : shape.length = i.min.length
  inside : PlanEngine.outsideAxis 0 shape i.min i.max = none

/-- A shape without dimensions is not stated, and taken for what it is. -/
theorem Shape.getD_stated (shape : Shape) : shape.stated?.getD [] = shape := by
  cases shape <;> rfl

/-- Binding succeeds on the shapes within the profile, and puts the shape in front. -/
theorem PlanEngine.bind_eq_ok_iff {e : PlanEngine} (hnodup : e.network.inputNames.Nodup)
    {i : NetworkInput} (hi : i ∈ e.network.inputs) {bound bound' : Bindings}
    {shape : Option Shape} :
    e.bind bound i.name shape = .ok bound' ↔
      Accepts i (shape.getD []) ∧ bound' = (i.name, shape.getD []) :: bound := by
  unfold PlanEngine.bind
  rw [Network.input?_eq_some hnodup hi]
  dsimp only
  constructor
  · intro h
    split at h
    · cases h
    next hrank =>
    split at h
    · cases h
    next hinside =>
    exact ⟨⟨not_not.mp hrank, hinside⟩, (Except.ok.inj h).symm⟩
  · rintro ⟨haccepts, rfl⟩
    rw [if_neg (not_not.mpr haccepts.rank), haccepts.inside]

/-! ### The shape rule of a layer -/

/-- **The shape rule of a layer.** Behind values of the given `shapes`, layer `l` has a value of the
shape it is related to. -/
inductive LayerShape (shapes : Bindings) (l : Layer) : Shape → Prop
  | unary {op : LayerOp} {a : Bytes} {s : Shape} (hop : l.op? = some op)
      (hfamily : op = .identity ∨ op = .relu ∨ op = .scale) (hargs : l.operands = [a])
      (ha : shapes.lookup a = some s) : LayerShape shapes l s
  | binary {op : LayerOp} {a b : Bytes} {s : Shape} (hop : l.op? = some op)
      (hfamily : op = .add ∨ op = .mul) (hargs : l.operands = [a, b])
      (ha : shapes.lookup a = some s) (hb : shapes.lookup b = some s) : LayerShape shapes l s
  | reduceSum {a : Bytes} {s : Shape} (hop : l.op? = some .reduceSum) (hargs : l.operands = [a])
      (ha : shapes.lookup a = some s) (haxis : l.axis.toNatClampNeg < s.length) :
      LayerShape shapes l (s.eraseIdx l.axis.toNatClampNeg)
  | transpose {a : Bytes} {front : Shape} {rows cols : Int64} (hop : l.op? = some .transpose)
      (hargs : l.operands = [a]) (ha : shapes.lookup a = some (front ++ [rows, cols])) :
      LayerShape shapes l (front ++ [cols, rows])

/-- **Layers in order**: each has a name that is new, and adds its own shape to those so far. -/
inductive ShapedLayers : Bindings → List Layer → Bindings → Prop
  | nil (shapes : Bindings) : ShapedLayers shapes [] shapes
  | cons {shapes final : Bindings} {l : Layer} {more : List Layer} {s : Shape}
      (hfresh : shapes.lookup l.output = none) (hshape : LayerShape shapes l s)
      (hmore : ShapedLayers ((l.output, s) :: shapes) more final) :
      ShapedLayers shapes (l :: more) final

/-- A name keeps the shape it was defined with. -/
theorem ShapedLayers.lookup_of_lookup {shapes final : Bindings} {layers : List Layer}
    (h : ShapedLayers shapes layers final) {name : Bytes} {s : Shape}
    (hs : shapes.lookup name = some s) : final.lookup name = some s := by
  induction h with
  | nil => exact hs
  | cons hfresh _ _ ih => exact ih (lookup_cons_of_fresh hs hfresh)

namespace PlanEngine

variable {e : PlanEngine}

/-- The tables of ranks and of shapes say the same. -/
abbrev RanksMatch (ranks : Ranks) (shapes : Bindings) : Prop :=
  Matches (fun r s => s.length = r) ranks shapes

/-- **The shape of a layer** follows the rule, and has the rank that the rule for ranks gives. -/
theorem layerShape_ok {ranks : Ranks} {shapes : Bindings} (hmatch : RanksMatch ranks shapes)
    {l : Layer} {r : Nat} (hrank : LayerRank ranks l r) {s : Shape}
    (h : e.layerShape shapes l = .ok s) : LayerShape shapes l s ∧ s.length = r := by
  unfold PlanEngine.layerShape at h
  -- By the rank rule, which says what operands there are; as the tables match, these have shapes.
  cases hrank with
  | @unary op a _ hop hfamily hargs ha =>
    obtain ⟨s₀, hs₀, hlen⟩ := hmatch.lookup ha
    rw [hop, hargs] at h
    dsimp only [List.headD_cons] at h
    rw [hs₀, if_neg (by rcases hfamily with rfl | rfl | rfl <;> simp)] at h
    obtain rfl : s₀ = s := by
      rw [← Except.ok.inj h, Layer.axes, hop]
      rcases hfamily with rfl | rfl | rfl <;> rfl
    exact ⟨.unary hop hfamily hargs hs₀, hlen⟩
  | @binary op a b _ hop hfamily hargs ha hb =>
    obtain ⟨s₀, hs₀, hlen⟩ := hmatch.lookup ha
    obtain ⟨s₁, hs₁, -⟩ := hmatch.lookup hb
    have hsecond : [a, b].getD 1 [] = b := rfl
    rw [hop, hargs, hsecond] at h
    dsimp only [List.headD_cons] at h
    rw [hs₀, hs₁] at h
    dsimp only [Option.getD_some] at h
    split at h
    · cases h
    next hsame =>
    -- Soundness gives equal ranks only; that the shapes are equal is checked here.
    have hsame : s₀ = s₁ := not_not.mp fun hne => hsame ⟨hfamily, hne⟩
    obtain rfl : s₀ = s := by
      rw [← Except.ok.inj h, Layer.axes, hop]
      rcases hfamily with rfl | rfl <;> rfl
    exact ⟨.binary hop hfamily hargs hs₀ (hsame ▸ hs₁), hlen⟩
  | @reduceSum a _ hop hargs ha _ hlast =>
    obtain ⟨s₀, hs₀, hlen⟩ := hmatch.lookup ha
    rw [hop, hargs] at h
    dsimp only [List.headD_cons] at h
    rw [hs₀, if_neg (by simp)] at h
    obtain rfl : s₀.eraseIdx l.axis.toNatClampNeg = s := by
      rw [← Except.ok.inj h, Layer.axes, hop]
      rfl
    refine ⟨.reduceSum hop hargs hs₀ (by omega), ?_⟩
    rw [List.length_eraseIdx_of_lt (by omega)]
    omega
  | @transpose a _ hop hargs ha hr =>
    obtain ⟨s₀, hs₀, hlen⟩ := hmatch.lookup ha
    -- The rank rule asks for two axes at least, so there are a last and a last but one.
    have hpair : 2 ≤ s₀.length := by omega
    obtain ⟨front, rows, cols, rfl⟩ := exists_append_pair hpair
    rw [hop, hargs] at h
    dsimp only [List.headD_cons] at h
    rw [hs₀, if_neg (by simp)] at h
    obtain rfl : front ++ [cols, rows] = s := by
      rw [← Except.ok.inj h, Layer.axes, hop]
      simp
    exact ⟨.transpose hop hargs hs₀, by simpa using hlen⟩

/-- **The shapes of all layers**, in order. -/
theorem layerShapes_ok {layers : List Layer} {ranks final : Ranks} {shapes out : Bindings}
    (hsound : SoundLayers ranks layers final) (hmatch : RanksMatch ranks shapes)
    (h : e.layerShapes shapes layers = .ok out) :
    ShapedLayers shapes layers out ∧ RanksMatch final out := by
  -- Ranks and shapes grow by one name at a time, together.
  induction hsound generalizing shapes with
  | nil =>
    cases h
    exact ⟨.nil _, hmatch⟩
  | cons _ hfresh hrank _ ih =>
    rw [PlanEngine.layerShapes] at h
    split at h
    · cases h
    next s hs =>
    obtain ⟨hshape, hlen⟩ := layerShape_ok hmatch hrank hs
    -- The table of ranks grew by the same name, so the name is new in both.
    obtain ⟨hmore, hfinal⟩ := ih (List.Forall₂.cons ⟨rfl, hlen⟩ hmatch) h
    exact ⟨.cons (hmatch.lookup_none hfresh) hshape hmore, hfinal⟩

/-- The shapes of the inputs are what was bound to them. -/
theorem inputShapes_ok {inputs : List NetworkInput} {bound acc out : Bindings}
    (h : e.inputShapes bound acc inputs = .ok out) :
    (∀ i ∈ inputs, ∃ s, bound.lookup i.name = some s) ∧
      out = (inputs.map fun i => (i.name, (bound.lookup i.name).getD [])).reverse ++ acc := by
  induction inputs generalizing acc with
  | nil => exact ⟨by simp, (Except.ok.inj h).symm⟩
  | cons i more ih =>
    rw [PlanEngine.inputShapes] at h
    split at h
    · cases h
    next s hs =>
    obtain ⟨hall, hout⟩ := ih h
    refine ⟨?_, ?_⟩
    · intro j hj
      rcases List.mem_cons.mp hj with rfl | hj
      · exact ⟨s, hs⟩
      · exact hall j hj
    · rw [hout, List.map_cons, List.reverse_cons, List.append_assoc, hs]
      rfl

/-- The shapes of the inputs as they are bound, latest first. -/
def boundTable (e : PlanEngine) (bound : Bindings) : Bindings :=
  e.network.inputTable fun i => (bound.lookup i.name).getD []

/-- **Inferred shapes** start from what is bound to the inputs and follow the shape rule. -/
theorem shapes_ok {ranks : Ranks} (hsound : e.network.Sound ranks) {bound shapes : Bindings}
    (hranks : ∀ i ∈ e.network.inputs, ∀ s, bound.lookup i.name = some s → s.length = i.min.length)
    (h : e.shapes bound = .ok shapes) :
    (∀ i ∈ e.network.inputs, ∃ s, bound.lookup i.name = some s) ∧
      ShapedLayers (e.boundTable bound) e.network.layers shapes ∧ RanksMatch ranks shapes := by
  unfold PlanEngine.shapes at h
  split at h
  · cases h
  next inputs hinputs =>
  obtain ⟨hbound, rfl⟩ := inputShapes_ok hinputs
  rw [List.append_nil] at h
  have hmatch : RanksMatch e.network.inputRanks (e.boundTable bound) := by
    refine Network.matches_inputTable fun i hi => ?_
    obtain ⟨s, hs⟩ := hbound i hi
    rw [hs]
    exact hranks i hi s hs
  exact ⟨hbound, layerShapes_ok hsound.layers hmatch h⟩

/-- What was bound enters only through the inputs. -/
theorem shapes_congr {bound bound' : Bindings}
    (h : ∀ i ∈ e.network.inputs, bound.lookup i.name = bound'.lookup i.name) :
    e.shapes bound = e.shapes bound' := by
  have hinputs : ∀ (inputs : List NetworkInput) (acc : Bindings),
      (∀ i ∈ inputs, bound.lookup i.name = bound'.lookup i.name) →
      e.inputShapes bound acc inputs = e.inputShapes bound' acc inputs := by
    intro inputs
    induction inputs with
    | nil => exact fun _ _ => rfl
    | cons i more ih =>
      intro acc hall
      rw [PlanEngine.inputShapes, PlanEngine.inputShapes, hall i (by simp)]
      split
      · rfl
      · exact ih _ fun j hj => hall j (by simp [hj])
  rw [PlanEngine.shapes, PlanEngine.shapes, hinputs _ _ h]

end PlanEngine

end EngineHost
