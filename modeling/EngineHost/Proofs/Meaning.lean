import EngineHost.Proofs.Kernels
import EngineHost.Proofs.ShapeInference
import Mathlib.Tactic.Ring

/-!
# The meaning of a network

A value of a network is a function of multi-indices (`Grid`), and a layer is a rule that gives the
grid of its value from the grids of its operands (`Layer.meaning`): copying, a pointwise operation,
a sum along an axis in increasing order from zero, or the exchange of the last two indices. The
meaning of a name is found by going back to the layer that defines it, or to the input of that name
(`meaningOf`). None of this mentions buffers.

Buffers are in row-major order: `Shape.offset` is the place of a multi-index. `Carries s v g` says
that buffer `v` of shape `s` carries grid `g`. Each kernel keeps that relation (`Carries.map`,
`Carries.zipWith`, `Carries.reduceSum`, `Carries.transposeLast`), so that one layer does
(`PlanEngine.layerValue_carries`).
-/

namespace EngineHost

/-- Numbers by their multi-indices. -/
abbrev Grid := List Nat → Single

namespace Shape

/-! ### Multi-indices and places -/

/-- The place of a multi-index in row-major order. -/
def offset : Shape → List Nat → Nat
  | _ :: dims, i :: more => i * volume dims + offset dims more
  | _, _ => 0

/-- A multi-index of a shape: one number for each axis, below its size. -/
def HasIndex (shape : Shape) (idx : List Nat) : Prop :=
  List.Forall₂ (fun i d => i < d.toNatClampNeg) idx shape

/-- A multi-index has its place among the elements. -/
theorem offset_lt {shape : Shape} {idx : List Nat} (h : shape.HasIndex idx) :
    offset shape idx < volume shape := by
  induction h with
  | nil => exact Nat.one_pos
  | cons hi _ ih => exact Kernel.mul_add_lt hi ih

/-- The place in a shape of two parts: a row among rows, and a place inside of it. -/
theorem offset_append {s t : Shape} {i j : List Nat} (h : s.HasIndex i) :
    offset (s ++ t) (i ++ j) = offset s i * volume t + offset t j := by
  induction h with
  | nil => simp [offset]
  | cons _ _ ih =>
    rw [List.cons_append, List.cons_append, offset, offset, ih, volume_append, Nat.add_mul,
      Nat.mul_assoc, Nat.add_assoc]

/-- A multi-index of a shape in two parts has two parts. -/
theorem hasIndex_append {s t : Shape} {idx : List Nat} (h : HasIndex (s ++ t) idx) :
    ∃ i j, idx = i ++ j ∧ s.HasIndex i ∧ t.HasIndex j :=
  ⟨idx.take s.length, idx.drop s.length, (List.take_append_drop _ _).symm,
    List.forall₂_take_append _ _ _ h, List.forall₂_drop_append _ _ _ h⟩

theorem HasIndex.append {s t : Shape} {i j : List Nat} (hi : s.HasIndex i) (hj : t.HasIndex j) :
    HasIndex (s ++ t) (i ++ j) :=
  List.rel_append hi hj

/-- A shape of two more axes than `front`. -/
theorem hasIndex_append_pair {front : Shape} {a b : Int64} {idx : List Nat}
    (h : HasIndex (front ++ [a, b]) idx) :
    ∃ f i j, idx = f ++ [i, j] ∧ front.HasIndex f ∧ i < a.toNatClampNeg ∧ j < b.toNatClampNeg := by
  obtain ⟨f, rest, rfl, hf, hrest⟩ := hasIndex_append h
  cases hrest with
  | cons hi hrest =>
    cases hrest with
    | cons hj hrest =>
      cases hrest
      exact ⟨f, _, _, rfl, hf, hi, hj⟩

/-- The place of an index that ends in a row and a column. -/
theorem offset_append_pair {front : Shape} {a b : Int64} {f : List Nat} (hf : front.HasIndex f)
    (i j : Nat) :
    offset (front ++ [a, b]) (f ++ [i, j]) =
      offset front f * (a.toNatClampNeg * b.toNatClampNeg) + (i * b.toNatClampNeg + j) := by
  rw [offset_append hf]
  simp [offset]

/-- An index is put back in behind as many others. -/
theorem insertIdx_append {i j : List Nat} {axis : Nat} (h : i.length = axis) (k : Nat) :
    (i ++ j).insertIdx axis k = i ++ k :: j := by
  subst h
  induction i with
  | nil => rfl
  | cons a i ih => rw [List.cons_append, List.length_cons, List.insertIdx_succ_cons, ih]; rfl

end Shape

/-! ### Meanings -/

/-- **The rule of a layer**: the grid of its value from the grids of other values. The `shapes` give
the size of the axis that a sum runs along. -/
def Layer.meaning (l : Layer) (shapes : Bindings) (env : Bytes → Grid) : Grid :=
  let first := l.operands.headD []
  let second := l.operands.getD 1 []
  let axis := l.axis.toNatClampNeg
  match l.op? with
  | some .relu => fun idx => (env first idx).relu
  | some .scale => fun idx => (env first idx).mul l.scalar
  | some .add => fun idx => (env first idx).add (env second idx)
  | some .mul => fun idx => (env first idx).mul (env second idx)
  | some .reduceSum => fun idx =>
    (List.range (((shapes.lookup first).getD []).getD axis 0).toNatClampNeg).foldl
      (fun sum k => sum.add (env first (idx.insertIdx axis k))) .zero
  | some .transpose => fun idx => env first (swapLast idx)
  | some .identity => env first
  | none => env first

/-- **The meaning of a name** behind layers, latest first: the rule of the layer that defines it,
applied to the meanings behind the earlier ones, or else the input of that name. -/
def meaningOf (shapes : Bindings) (inputs : Bytes → Grid) : List Layer → Bytes → Grid
  | [], name => inputs name
  | l :: earlier, name =>
    if name = l.output then l.meaning shapes (meaningOf shapes inputs earlier)
    else meaningOf shapes inputs earlier name

/-- The meaning of a value of a network. -/
def Network.meaning (net : Network) (shapes : Bindings) (inputs : Bytes → Grid) (name : Bytes) :
    Grid :=
  meaningOf shapes inputs net.layers.reverse name

/-- The grid that elements of a shape make up. -/
def gridOf (shape : Shape) (values : Array Single) : Grid := fun idx =>
  values.getD (shape.offset idx) .zero

/-! ### Buffers that carry grids -/

/-- **A buffer of a shape carries a grid**: the shape is known, its volume is in range and is the
size of the buffer, and at the place of each multi-index stands the grid's number. -/
structure Carries (shape : Shape) (values : Array Single) (g : Grid) : Prop where
  isStatic : shape.isStatic = true
  inRange : shape.volume < 2 ^ 63
  size : values.size = shape.volume
  at_index : ∀ idx, shape.HasIndex idx → values.getD (shape.offset idx) .zero = g idx

namespace Carries

variable {shape : Shape} {values : Array Single} {g : Grid}

/-- At the place of a multi-index stands the number of the grid. -/
theorem getElem? (h : Carries shape values g) {idx : List Nat} (hidx : shape.HasIndex idx) :
    values[shape.offset idx]? = some (g idx) := by
  have hlt : shape.offset idx < values.size := h.size ▸ Shape.offset_lt hidx
  have hat := h.at_index idx hidx
  rw [Array.getD_eq_getD_getElem?, Array.getElem?_eq_getElem hlt, Option.getD_some] at hat
  rw [Array.getElem?_eq_getElem hlt, hat]

/-- The elements of a tensor carry their own grid. -/
theorem ofTensor {t : Tensor} (h : t.elements = .float32 values) :
    Carries t.shape values (gridOf t.shape values) := by
  obtain ⟨hsize, hrange⟩ := Shape.count_eq_volume t.count_eq
  rw [h] at hsize hrange
  exact ⟨t.isStatic, hsize ▸ hrange, hsize, fun _ _ => rfl⟩

/-- **A function applied everywhere** is applied to the grid. -/
theorem map (h : Carries shape values g) (f : Single → Single) :
    Carries shape (values.map f) (fun idx => f (g idx)) := by
  refine ⟨h.isStatic, h.inRange, by rw [Array.size_map, h.size], fun idx hidx => ?_⟩
  rw [Array.getD_eq_getD_getElem?, Array.getElem?_map, h.getElem? hidx]
  rfl

/-- **Two buffers combined** carry the two grids combined. -/
theorem zipWith {other : Array Single} {k : Grid} (h : Carries shape values g)
    (hk : Carries shape other k) (f : Single → Single → Single) :
    Carries shape (Array.zipWith f values other) (fun idx => f (g idx) (k idx)) := by
  refine ⟨h.isStatic, h.inRange, by rw [Array.size_zipWith, h.size, hk.size, Nat.min_self],
    fun idx hidx => ?_⟩
  rw [Array.getD_eq_getD_getElem?, Array.getElem?_zipWith, h.getElem? hidx, hk.getElem? hidx]
  rfl

variable {split : Kernel.Split}

/-- A sum along an axis carries the sums of the grid along it. -/
theorem reduceSum (h : Carries shape values g) {axis : Nat}
    (hsplit : split.Covers (Kernel.product (shape.take axis))) (haxis : axis < shape.length)
    (hbuffer : Shape.volume (shape.eraseIdx axis) ≤ Kernel.maxBuffer) :
    ∃ sums, Kernel.reduceSum split values shape axis = some sums ∧
      Carries (shape.eraseIdx axis) sums (fun idx =>
        (List.range (shape.getD axis 0).toNatClampNeg).foldl
          (fun sum k => sum.add (g (idx.insertIdx axis k))) .zero) := by
  -- The axis splits the shape into what is before it, the axis and what is behind it.
  have haround := Shape.volume_eq_around haxis
  have herase := Shape.volume_eraseIdx shape axis
  obtain ⟨sums, hsums, hsize, hat⟩ := Kernel.reduceSum_spec hsplit h.isStatic haxis rfl rfl rfl
    (h.size.trans haround) (haround ▸ h.inRange) (herase ▸ hbuffer)
  refine ⟨sums, hsums, ?_, Nat.lt_of_le_of_lt hbuffer (by decide), hsize.trans herase.symm, ?_⟩
  · exact (Shape.isStatic_iff _).mpr fun d hd =>
      (Shape.isStatic_iff _).mp h.isStatic d (List.mem_of_mem_eraseIdx hd)
  · intro idx hidx
    rw [List.eraseIdx_eq_take_drop_succ] at hidx ⊢
    -- An index of what is left has a part before the axis and a part behind it.
    obtain ⟨i, j, rfl, hi, hj⟩ := Shape.hasIndex_append hidx
    have hlen : i.length = axis := by
      rw [hi.length_eq, List.length_take, Nat.min_eq_left (Nat.le_of_lt haxis)]
    rw [Shape.offset_append hi, hat _ (Shape.offset_lt hi) _ (Shape.offset_lt hj)]
    -- The two sums have the same terms: a multi-index with `k` put back in is one of the whole
    -- shape.
    refine List.foldl_ext _ _ _ fun sum k hk => ?_
    rw [Shape.insertIdx_append hlen]
    have hwhole : shape.take axis ++ shape.getD axis 0 :: shape.drop (axis + 1) = shape := by
      rw [List.getD_eq_getElem _ _ haxis, ← List.drop_eq_getElem_cons haxis,
        List.take_append_drop]
    have hindex : shape.HasIndex (i ++ k :: j) := by
      rw [← hwhole]
      exact hi.append (.cons (List.mem_range.mp hk) hj)
    rw [← h.at_index _ hindex]
    congr 2
    conv_rhs => rw [← hwhole]
    rw [Shape.offset_append hi, Shape.offset, Shape.volume_cons]
    ring

/-- Exchanging the last two axes carries the grid with its last two indices exchanged. -/
theorem transposeLast {front : Shape} {rows cols : Int64}
    (h : Carries (front ++ [rows, cols]) values g)
    (hsplit : split.Covers (Kernel.product front)) :
    ∃ out, Kernel.transposeLast split values (front ++ [rows, cols]) = some out ∧
      Carries (front ++ [cols, rows]) out (fun idx => g (swapLast idx)) := by
  have hvolume : Shape.volume (front ++ [rows, cols]) =
      Shape.volume front * (rows.toNatClampNeg * cols.toNatClampNeg) := by
    simp
  -- Exchanging two dimensions does not change how many elements there are.
  have hswapped : Shape.volume (front ++ [cols, rows]) = Shape.volume (front ++ [rows, cols]) := by
    rw [← swapLast_append_pair, Shape.volume_swapLast]
  obtain ⟨out, hout, hsize, hat⟩ := Kernel.transposeLast_spec hsplit h.isStatic rfl rfl rfl
    (h.size.trans hvolume) (hvolume ▸ h.inRange)
  refine ⟨out, hout, ?_, hswapped ▸ h.inRange, hsize.trans (h.size.trans hswapped.symm), ?_⟩
  · rw [Shape.isStatic_iff]
    intro d hd
    refine (Shape.isStatic_iff _).mp h.isStatic d ?_
    simp only [List.mem_append, List.mem_cons, List.not_mem_nil, or_false] at hd ⊢
    tauto
  · intro idx hidx
    -- The index is column first, as the new shape has it; the kernel's formula is row first.
    obtain ⟨f, j, i, rfl, hf, hj, hi⟩ := Shape.hasIndex_append_pair hidx
    rw [swapLast_append_pair, Shape.offset_append_pair hf,
      Nat.mul_comm cols.toNatClampNeg, hat _ (Shape.offset_lt hf) i hi j hj,
      ← Shape.offset_append_pair hf]
    exact h.at_index _ (hf.append (.cons hi (.cons hj .nil)))

end Carries

end EngineHost
