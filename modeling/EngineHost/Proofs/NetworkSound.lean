import EngineHost.Plan.Network
import EngineHost.Proofs.Results
import Mathlib.Data.List.Nodup

/-!
# Sound networks

`Network.validate` is a checker that goes through inputs, layers and outputs and stops at the first
fault. Everything proved about accepted networks starts from what acceptance means, said once here
without the checker:

* `SoundInput` — an input has a name, and its two ends bound a range of sizes on every axis;
* `LayerRank` — the rank rule of a single layer, one constructor a family of operations: which
  operands it takes, which ranks they have, which rank comes out;
* `SoundLayers` — the layers in order, each defining a fresh name behind the ranks before it;
* `Network.Sound` — all of it together, with the outputs defined and given once.

The checker runs through three loops, and each gets its own inversion: `checkInputs_ok` for the fold
over the inputs, `checkLayers_ok` for the recursion over the layers, `checkOutputs_ok` for the
outputs. `Network.sound_of_validate` puts them together.

`SoundLayers` only ever puts new names in front. So does every table that grows along the layers, of
shapes or of values, and what is found under a name stays (`lookup_cons_of_fresh`).
-/

namespace EngineHost

/-! ### Tables that grow in front -/

/-- Where names differ, the first entry of a name is the only one. -/
theorem find?_of_nodup_map {β κ : Type} [DecidableEq κ] {name : β → κ} {xs : List β}
    (hnodup : (xs.map name).Nodup) {x : β} (hx : x ∈ xs) : xs.find? (name · = name x) = some x := by
  obtain ⟨y, hy⟩ : ∃ y, xs.find? (name · = name x) = some y := by
    rw [← Option.isSome_iff_exists, List.find?_isSome]
    exact ⟨x, hx, by simp⟩
  have hname : name y = name x := by simpa using List.find?_some hy
  rw [hy, List.inj_on_of_nodup_map hnodup (List.mem_of_find?_eq_some hy) hx hname]

section Tables

variable {κ β γ : Type} [BEq κ] [LawfulBEq κ]

/-- A definition under a fresh name leaves what is there as it is. -/
theorem lookup_cons_of_fresh {table : List (κ × β)} {name fresh : κ} {v w : β}
    (hv : table.lookup name = some v) (hfresh : table.lookup fresh = none) :
    ((fresh, w) :: table).lookup name = some v := by
  have hne : name ≠ fresh := by
    rintro rfl
    rw [hfresh] at hv
    exact absurd hv (by simp)
  rw [List.lookup_cons, beq_false_of_ne hne]
  exact hv

theorem lookup_cons_same (table : List (κ × β)) (name : κ) (v : β) :
    ((name, v) :: table).lookup name = some v := by
  rw [List.lookup_cons, beq_self_eq_true]

theorem lookup_cons_ne {table : List (κ × β)} {name other : κ} {v : β}
    (hne : name ≠ other) : ((other, v) :: table).lookup name = table.lookup name := by
  rw [List.lookup_cons, beq_false_of_ne hne]

theorem mem_of_lookup {table : List (κ × β)} {name : κ} {v : β}
    (h : table.lookup name = some v) : (name, v) ∈ table := by
  obtain ⟨before, after, htable, -⟩ := List.lookup_eq_some_iff.mp h
  rw [htable]
  simp

/-- Where names differ, every entry is found. -/
theorem lookup_eq_some_of_mem {table : List (κ × β)} (hnodup : (table.map (·.1)).Nodup)
    {name : κ} {v : β} (h : (name, v) ∈ table) : table.lookup name = some v := by
  induction table with
  | nil => exact absurd h (by simp)
  | cons x more ih =>
    rw [List.map_cons, List.nodup_cons] at hnodup
    rcases List.mem_cons.mp h with rfl | h
    · exact lookup_cons_same more name v
    · have hne : name ≠ x.1 := by
        rintro rfl
        exact hnodup.1 (List.mem_map_of_mem (f := (·.1)) h)
      exact (lookup_cons_ne hne).trans (ih hnodup.2 h)

/-- **Two tables of the same names**, entry by entry related by `R`. -/
def Matches (R : β → γ → Prop) (left : List (κ × β)) (right : List (κ × γ)) : Prop :=
  List.Forall₂ (fun x y => x.1 = y.1 ∧ R x.2 y.2) left right

/-- Matching tables answer alike: an entry on one side comes with a related one on the other. -/
theorem Matches.lookup {R : β → γ → Prop} {left : List (κ × β)} {right : List (κ × γ)}
    (h : Matches R left right) {name : κ} {v : β} (hv : left.lookup name = some v) :
    ∃ w, right.lookup name = some w ∧ R v w := by
  induction h with
  | nil => exact absurd hv (by simp)
  | @cons x y xs ys hxy _ ih =>
    obtain ⟨hname, hR⟩ := hxy
    -- Either both tables have the name at their head, or neither has.
    by_cases hx : name = x.1
    · rw [List.lookup_cons, hx, beq_self_eq_true] at hv
      refine ⟨y.2, ?_, ?_⟩
      · rw [List.lookup_cons, hx, hname, beq_self_eq_true]
      · cases hv
        exact hR
    · rw [List.lookup_cons, beq_false_of_ne hx] at hv
      obtain ⟨w, hw, hvw⟩ := ih hv
      refine ⟨w, ?_, hvw⟩
      rw [List.lookup_cons, beq_false_of_ne (hname ▸ hx)]
      exact hw

/-- What is missing on one side is missing on the other. -/
theorem Matches.lookup_none {R : β → γ → Prop} {left : List (κ × β)}
    {right : List (κ × γ)} (h : Matches R left right) {name : κ}
    (hnone : left.lookup name = none) : right.lookup name = none := by
  induction h with
  | nil => rfl
  | @cons x y xs ys hxy _ ih =>
    by_cases hx : name = x.1
    · rw [List.lookup_cons, hx, beq_self_eq_true] at hnone
      exact absurd hnone (by simp)
    · rw [List.lookup_cons, beq_false_of_ne hx] at hnone
      rw [List.lookup_cons, beq_false_of_ne (hxy.1 ▸ hx)]
      exact ih hnone

end Tables

/-! ### What acceptance means -/

/-- The range of one axis: it starts at zero or above, and ends at its start or later where it
ends. -/
def SoundRange (low high : Int64) : Prop :=
  0 ≤ low ∧ (0 ≤ high → low ≤ high)

/-- An input with a name and a range for each of its axes. -/
structure SoundInput (i : NetworkInput) : Prop where
  named : i.name ≠ []
  ranges : List.Forall₂ SoundRange i.min i.max

theorem SoundInput.rank_eq {i : NetworkInput} (h : SoundInput i) : i.min.length = i.max.length :=
  h.ranges.length_eq

/-- **The rank rule of a layer.** Behind values of the given `ranks`, layer `l` may stand and
defines a value of the rank it is related to. -/
inductive LayerRank (ranks : Ranks) (l : Layer) : Nat → Prop
  | unary {op : LayerOp} {a : Bytes} {r : Nat} (hop : l.op? = some op)
      (hfamily : op = .identity ∨ op = .relu ∨ op = .scale) (hargs : l.operands = [a])
      (ha : ranks.lookup a = some r) : LayerRank ranks l r
  | binary {op : LayerOp} {a b : Bytes} {r : Nat} (hop : l.op? = some op)
      (hfamily : op = .add ∨ op = .mul) (hargs : l.operands = [a, b])
      (ha : ranks.lookup a = some r) (hb : ranks.lookup b = some r) : LayerRank ranks l r
  | reduceSum {a : Bytes} {r : Nat} (hop : l.op? = some .reduceSum) (hargs : l.operands = [a])
      (ha : ranks.lookup a = some (r + 1)) (haxis : 0 ≤ l.axis)
      (hlast : l.axis.toNatClampNeg ≤ r) : LayerRank ranks l r
  | transpose {a : Bytes} {r : Nat} (hop : l.op? = some .transpose) (hargs : l.operands = [a])
      (ha : ranks.lookup a = some r) (hr : 2 ≤ r) : LayerRank ranks l r

/-- **Layers in order**: each has a name that is new, obeys the rank rule behind the ranks so far,
and adds its own rank to them. -/
inductive SoundLayers : Ranks → List Layer → Ranks → Prop
  | nil (ranks : Ranks) : SoundLayers ranks [] ranks
  | cons {ranks final : Ranks} {l : Layer} {more : List Layer} {r : Nat} (hnamed : l.output ≠ [])
      (hfresh : ranks.lookup l.output = none) (hrank : LayerRank ranks l r)
      (hmore : SoundLayers ((l.output, r) :: ranks) more final) :
      SoundLayers ranks (l :: more) final

/-- The ranks of the inputs of a network, latest first. -/
def Network.inputRanks (net : Network) : Ranks :=
  (net.inputs.map fun i => (i.name, i.min.length)).reverse

/-- **A network without fault**, with the ranks of all its values. -/
structure Network.Sound (net : Network) (ranks : Ranks) : Prop where
  inputs : ∀ i ∈ net.inputs, SoundInput i
  inputs_nodup : net.inputNames.Nodup
  layers : SoundLayers net.inputRanks net.layers ranks
  outputs_ne_nil : net.outputs ≠ []
  outputs_defined : ∀ name ∈ net.outputs, ∃ r, ranks.lookup name = some r
  outputs_nodup : net.outputs.Nodup

/-- The number of operands is the operation's. -/
theorem LayerRank.arity {ranks : Ranks} {l : Layer} {r : Nat} (h : LayerRank ranks l r) :
    ∃ op, l.op? = some op ∧ l.operands.length = op.arity := by
  cases h with
  | unary hop hfamily hargs _ =>
    refine ⟨_, hop, ?_⟩
    rw [hargs]
    rcases hfamily with rfl | rfl | rfl <;> rfl
  | binary hop hfamily hargs _ _ =>
    refine ⟨_, hop, ?_⟩
    rw [hargs]
    rcases hfamily with rfl | rfl <;> rfl
  | reduceSum hop hargs _ _ _ => exact ⟨_, hop, by rw [hargs]; rfl⟩
  | transpose hop hargs _ _ => exact ⟨_, hop, by rw [hargs]; rfl⟩

/-- Every layer of a sound list obeys the rank rule somewhere along it. -/
theorem SoundLayers.rank_of_mem {ranks final : Ranks} {layers : List Layer}
    (h : SoundLayers ranks layers final) {l : Layer} (hl : l ∈ layers) :
    ∃ before r, LayerRank before l r := by
  induction h with
  | nil => exact absurd hl (by simp)
  | cons _ _ hrank _ ih =>
    rcases List.mem_cons.mp hl with rfl | hl
    · exact ⟨_, _, hrank⟩
    · exact ih hl

/-! ### The loops of the checker -/

/-- Where no axis is at fault, every axis has a sound range. -/
theorem ranges_of_badProfileAxis {low high : Shape} (hlen : low.length = high.length) {axis : Nat}
    (h : badProfileAxis axis low high = none) : List.Forall₂ SoundRange low high := by
  -- The two ends go in step, as they have the same length.
  induction low generalizing high axis with
  | nil =>
    obtain rfl : high = [] := List.length_eq_zero_iff.mp hlen.symm
    exact .nil
  | cons a low ih =>
    cases high with
    | nil => exact absurd hlen (by simp)
    | cons b high =>
      rw [badProfileAxis] at h
      split at h
      · exact absurd h (by simp)
      · next hgood =>
        rw [not_or, not_and, Int64.not_lt] at hgood
        exact .cons ⟨hgood.1, fun hb => Int64.not_lt.mp (hgood.2 hb)⟩ (ih (by simpa using hlen) h)

/-- **One input**: it passes four checks, and its rank is noted. -/
theorem checkInput_ok {ranks ranks' : Ranks} {i : NetworkInput}
    (h : Network.checkInput ranks i = .ok ranks') :
    SoundInput i ∧ ranks.lookup i.name = none ∧ ranks' = (i.name, i.min.length) :: ranks := by
  unfold Network.checkInput at h
  -- Each check that fails ends in an error, which is not what is assumed.
  split at h
  · exact absurd h (by simp)
  next hnamed =>
  split at h
  · exact absurd h (by simp)
  next hfresh =>
  split at h
  · exact absurd h (by simp)
  next hlen =>
  split at h
  · exact absurd h (by simp)
  next hranges =>
  have hlen : i.min.length = i.max.length := not_not.mp hlen
  refine ⟨⟨hnamed, ranges_of_badProfileAxis hlen hranges⟩,
    Option.not_isSome_iff_eq_none.mp hfresh, ?_⟩
  exact (Except.ok.inj h).symm

/-- The fold over the inputs: each is sound, the names are new and differ, and the ranks of the
inputs stand in front of those that were there. -/
theorem checkInputs_ok {inputs : List NetworkInput} {ranks ranks' : Ranks}
    (h : inputs.foldlM Network.checkInput ranks = .ok ranks') :
    (∀ i ∈ inputs, SoundInput i) ∧ (inputs.map (·.name)).Nodup ∧
      (∀ i ∈ inputs, ranks.lookup i.name = none) ∧
      ranks' = (inputs.map fun i => (i.name, i.min.length)).reverse ++ ranks := by
  induction inputs generalizing ranks with
  | nil =>
    refine ⟨by simp, List.nodup_nil, by simp, ?_⟩
    exact (Except.ok.inj h).symm
  | cons i more ih =>
    rw [List.foldlM_cons, bind_eq_ok_iff] at h
    obtain ⟨mid, hi, hmore⟩ := h
    obtain ⟨hsound, hfresh, rfl⟩ := checkInput_ok hi
    obtain ⟨hall, hnodup, hnew, hranks⟩ := ih hmore
    -- A later input is new behind `i`, so it is not called like `i`, and it was new before `i` too.
    have hne : ∀ j ∈ more, j.name ≠ i.name := by
      intro j hj heq
      have := hnew j hj
      rw [heq, lookup_cons_same] at this
      exact absurd this (by simp)
    refine ⟨?_, ?_, ?_, ?_⟩
    · intro j hj
      rcases List.mem_cons.mp hj with rfl | hj
      · exact hsound
      · exact hall j hj
    · rw [List.map_cons, List.nodup_cons]
      refine ⟨fun hmem => ?_, hnodup⟩
      obtain ⟨j, hj, hji⟩ := List.mem_map.mp hmem
      exact hne j hj hji
    · intro j hj
      rcases List.mem_cons.mp hj with rfl | hj
      · exact hfresh
      · have := hnew j hj
        rwa [lookup_cons_ne (hne j hj)] at this
    · rw [hranks, List.map_cons, List.reverse_cons, List.append_assoc]
      rfl

/-- The ranks of operands, one for each. -/
theorem operandRanks_ok {ranks : Ranks} {i : Nat} {op : LayerOp} {names : List Bytes}
    {rs : List Nat} (h : Network.operandRanks ranks i op names = .ok rs) :
    List.Forall₂ (fun name r => ranks.lookup name = some r) names rs := by
  induction names generalizing rs with
  | nil =>
    cases h
    exact .nil
  | cons name more ih =>
    rw [Network.operandRanks] at h
    split at h
    · exact absurd h (by simp)
    · next r hr =>
      obtain ⟨rest, hrest, rfl⟩ := map_eq_ok_iff.mp h
      exact .cons hr (ih hrest)

/-- One operand has one rank. -/
theorem arity_one {names : List Bytes} {rs : List Nat} {ranks : Ranks} (hlen : names.length = 1)
    (h : List.Forall₂ (fun name r => ranks.lookup name = some r) names rs) :
    ∃ a r, names = [a] ∧ rs = [r] ∧ ranks.lookup a = some r := by
  obtain ⟨a, rfl⟩ := List.length_eq_one_iff.mp hlen
  cases h with
  | cons ha hnil =>
    cases hnil
    exact ⟨_, _, rfl, rfl, ha⟩

/-- Two operands have a rank each. -/
theorem arity_two {names : List Bytes} {rs : List Nat} {ranks : Ranks} (hlen : names.length = 2)
    (h : List.Forall₂ (fun name r => ranks.lookup name = some r) names rs) :
    ∃ a b r s, names = [a, b] ∧ rs = [r, s] ∧ ranks.lookup a = some r ∧
      ranks.lookup b = some s := by
  obtain ⟨a, b, rfl⟩ := List.length_eq_two.mp hlen
  cases h with
  | cons ha hmore =>
    cases hmore with
    | cons hb hnil =>
      cases hnil
      exact ⟨_, _, _, _, rfl, rfl, ha, hb⟩

/-- The rank rule, from the operands' ranks and the rank the checker computes. -/
theorem layerRank_of_resultRank {ranks : Ranks} {i : Nat} {l : Layer} {op : LayerOp}
    {rs : List Nat} {r : Nat} (hop : l.op? = some op) (hlen : l.operands.length = op.arity)
    (hrs : List.Forall₂ (fun name r => ranks.lookup name = some r) l.operands rs)
    (hr : Network.resultRank i op l.axis rs = .ok r) : LayerRank ranks l r := by
  -- By the operation, in the families of the rank rule.
  cases op with
  | identity | relu | scale =>
    obtain ⟨a, s, hargs, rfl, ha⟩ := arity_one hlen hrs
    cases hr
    exact .unary hop (by simp) hargs ha
  | add | mul =>
    obtain ⟨a, b, s, t, hargs, rfl, ha, hb⟩ := arity_two hlen hrs
    simp only [Network.resultRank, List.getD_cons_zero, List.getD_cons_succ] at hr
    split at hr
    · exact absurd hr (by simp)
    · next heq =>
      obtain rfl : t = s := not_not.mp heq
      cases hr
      exact .binary hop (by simp) hargs ha hb
  | reduceSum =>
    obtain ⟨a, s, hargs, rfl, ha⟩ := arity_one hlen hrs
    simp only [Network.resultRank, List.getD_cons_zero] at hr
    split at hr
    · exact absurd hr (by simp)
    · next haxis =>
      rw [not_or, Int64.not_lt, Nat.not_le] at haxis
      cases hr
      -- An axis in range means that there is one, so taking one away loses nothing.
      have hpos : s - 1 + 1 = s := by omega
      exact .reduceSum hop hargs (hpos.symm ▸ ha) haxis.1 (by omega)
  | transpose =>
    obtain ⟨a, s, hargs, rfl, ha⟩ := arity_one hlen hrs
    simp only [Network.resultRank, List.getD_cons_zero] at hr
    split at hr
    · exact absurd hr (by simp)
    · next hrank =>
      cases hr
      exact .transpose hop hargs ha (by omega)

/-- **One layer**: it has a new name and obeys the rank rule. -/
theorem checkLayer_ok {ranks ranks' : Ranks} {i : Nat} {l : Layer}
    (h : Network.checkLayer ranks i l = .ok ranks') :
    l.output ≠ [] ∧ ranks.lookup l.output = none ∧
      ∃ r, LayerRank ranks l r ∧ ranks' = (l.output, r) :: ranks := by
  unfold Network.checkLayer at h
  split at h
  · exact absurd h (by simp)
  next op hop =>
  split at h
  · exact absurd h (by simp)
  next hlen =>
  split at h
  · exact absurd h (by simp)
  next hnamed =>
  split at h
  · exact absurd h (by simp)
  next hfresh =>
  -- The ranks of the operands first, the layer's own from them.
  rw [bind_eq_ok_iff] at h
  obtain ⟨rs, hrs, h⟩ := h
  rw [bind_eq_ok_iff] at h
  obtain ⟨r, hr, h⟩ := h
  refine ⟨hnamed, Option.not_isSome_iff_eq_none.mp hfresh, r, ?_, (Except.ok.inj h).symm⟩
  exact layerRank_of_resultRank hop (not_not.mp hlen) (operandRanks_ok hrs) hr

/-- **The layers**: those that pass are sound in their order. -/
theorem checkLayers_ok {layers : List Layer} {ranks final : Ranks} {i : Nat}
    (h : Network.checkLayers ranks i layers = .ok final) : SoundLayers ranks layers final := by
  induction layers generalizing ranks i with
  | nil =>
    cases h
    exact .nil _
  | cons l more ih =>
    rw [Network.checkLayers, bind_eq_ok_iff] at h
    obtain ⟨mid, hl, hmore⟩ := h
    obtain ⟨hnamed, hfresh, r, hrank, rfl⟩ := checkLayer_ok hl
    exact .cons hnamed hfresh hrank (ih hmore)

/-- **The outputs**: all are defined, and none is given twice. -/
theorem checkOutputs_ok {outputs : List Bytes} {ranks : Ranks} {seen : List Bytes}
    (h : Network.checkOutputs ranks seen outputs = .ok ()) :
    (∀ name ∈ outputs, ∃ r, ranks.lookup name = some r) ∧ outputs.Nodup ∧
      ∀ name ∈ outputs, name ∉ seen := by
  induction outputs generalizing seen with
  | nil => exact ⟨by simp, List.nodup_nil, by simp⟩
  | cons name more ih =>
    rw [Network.checkOutputs] at h
    split at h
    · exact absurd h (by simp)
    next hdefined =>
    split at h
    · exact absurd h (by simp)
    next hunseen =>
    -- `name` is among the seen ones for the rest of the list, which is how repetition is excluded.
    obtain ⟨hall, hnodup, hnew⟩ := ih h
    have hname : ∃ r, ranks.lookup name = some r := by
      rw [Option.isNone_iff_eq_none] at hdefined
      exact Option.ne_none_iff_exists'.mp hdefined
    refine ⟨?_, ?_, ?_⟩
    · intro other hother
      rcases List.mem_cons.mp hother with rfl | hother
      · exact hname
      · exact hall other hother
    · rw [List.nodup_cons]
      exact ⟨fun hmem => hnew name hmem List.mem_cons_self, hnodup⟩
    · intro other hother
      rcases List.mem_cons.mp hother with rfl | hother
      · simpa using hunseen
      · exact fun hseen => hnew other hother (List.mem_cons_of_mem _ hseen)

/-- What the ranks of a network say of its inputs and layers. -/
theorem Network.of_ranks {net : Network} {ranks : Ranks} (h : net.ranks = .ok ranks) :
    (∀ i ∈ net.inputs, SoundInput i) ∧ net.inputNames.Nodup ∧
      SoundLayers net.inputRanks net.layers ranks := by
  rw [Network.ranks, bind_eq_ok_iff] at h
  obtain ⟨inputs, hinputs, hlayers⟩ := h
  obtain ⟨hsound, hnodup, -, rfl⟩ := checkInputs_ok hinputs
  rw [List.append_nil] at hlayers
  exact ⟨hsound, hnodup, checkLayers_ok hlayers⟩

/-- **Accepted networks are sound.** -/
theorem Network.sound_of_validate {net : Network} (h : net.validate = .ok ()) :
    ∃ ranks, net.Sound ranks := by
  unfold Network.validate at h
  split at h
  · exact absurd h (by simp)
  next hne =>
  -- There is an output, and the rest is inputs and layers first, outputs last.
  rw [bind_eq_ok_iff] at h
  obtain ⟨ranks, hranks, houtputs⟩ := h
  obtain ⟨hsound, hnodup, hlayers⟩ := Network.of_ranks hranks
  obtain ⟨hdefined, hout, -⟩ := checkOutputs_ok houtputs
  exact ⟨ranks, hsound, hnodup, hlayers, by simpa using hne, hdefined, hout⟩

end EngineHost
