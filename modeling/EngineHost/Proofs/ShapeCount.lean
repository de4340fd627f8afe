import EngineHost.Proofs.Volume
import Mathlib.Algebra.Order.BigOperators.GroupWithZero.List
import Mathlib.Data.List.TakeWhile
import Mathlib.Tactic.NormNum

/-!
# Counting the elements of a shape

`Shape.count` goes over the dimensions from the left and stops at the first zero. What it does not
see is what stands behind that zero, and what it has refused by then the zero cannot mend. So its
outcome is a matter of the dimensions up to the first zero (`Shape.upToZero`): they have to be
known, and their product has to be in range. The count is then the product of the whole shape, which
a zero makes zero (`Shape.countFrom_eq_ok_iff`, for any limit).

For shapes without a zero this is the product rule: a count is given exactly if every dimension is
known and the product is in range, in whatever order they stand. With a zero the order matters,
unless the dimensions besides it could have been counted anyway (`Shape.OrderFree`).
`Shape.count_outcome` puts these together.
-/

namespace EngineHost

namespace Shape

/-- The product of the dimensions, as integers without a range. -/
def product (shape : Shape) : Int :=
  (shape.map Int64.toInt).prod

/-- The dimensions in front of the first zero. -/
def upToZero (shape : Shape) : Shape :=
  shape.takeWhile (· ≠ 0)

/-- **A shape whose count does not depend on its order**: if there is a zero, all dimensions are
known and those other than zero stay in range. -/
def OrderFree (shape : Shape) : Prop :=
  0 ∈ shape → (∀ d ∈ shape, 0 ≤ d) ∧ shape.SpanFits

@[simp] theorem product_nil : product [] = 1 := rfl

@[simp] theorem product_cons (d : Int64) (shape : Shape) :
    product (d :: shape) = d.toInt * product shape := rfl

@[simp] theorem upToZero_nil : upToZero [] = [] := rfl

@[simp] theorem upToZero_zero (shape : Shape) : upToZero (0 :: shape) = [] := rfl

/-- A first dimension other than zero is in front of every zero. -/
theorem upToZero_cons {d : Int64} (hd : d ≠ 0) (shape : Shape) :
    upToZero (d :: shape) = d :: upToZero shape :=
  List.takeWhile_cons_of_pos (decide_eq_true hd)

/-- Without a zero, all dimensions stand in front of it. -/
theorem upToZero_of_not_mem {shape : Shape} (h : 0 ∉ shape) : upToZero shape = shape := by
  refine List.takeWhile_eq_self_iff.mpr fun d hd => decide_eq_true ?_
  rintro rfl
  exact h hd

/-- A zero makes the product zero. -/
theorem product_of_mem {shape : Shape} (h : 0 ∈ shape) : product shape = 0 := by
  refine List.prod_eq_zero ?_
  exact List.mem_map.mpr ⟨0, h, rfl⟩

/-- The product does not depend on the order. -/
theorem product_perm {s t : Shape} (h : s.Perm t) : product s = product t :=
  (h.map _).prod_eq

/-- Over known dimensions the product is the volume. -/
theorem product_eq_volume {shape : Shape} (hknown : ∀ d ∈ shape, 0 ≤ d) :
    product shape = shape.volume := by
  induction shape with
  | nil => rfl
  | cons d more ih =>
    rw [List.forall_mem_cons] at hknown
    have hd : (d.toNatClampNeg : Int) = d.toInt :=
      Int.toNat_of_nonneg (Int64.le_iff_toInt_le.mp hknown.1)
    rw [product_cons, volume_cons, ih hknown.2, Nat.cast_mul, hd]

/-- Known dimensions in front of the first zero have a positive product. -/
theorem product_upToZero_pos {shape : Shape} (hknown : ∀ d ∈ shape.upToZero, 0 ≤ d) :
    0 < shape.upToZero.product := by
  -- None of them is zero, so all are positive.
  have hdims : ∀ n ∈ shape.upToZero.map Int64.toInt, 0 < n := by
    intro n hn
    obtain ⟨d, hd, rfl⟩ := List.mem_map.mp hn
    have hne : d ≠ 0 := by simpa using List.mem_takeWhile_imp hd
    have hle : 0 ≤ d.toInt := Int64.le_iff_toInt_le.mp (hknown d hd)
    exact lt_of_le_of_ne hle fun hz => hne (Int64.toInt_inj.mp hz.symm)
  exact List.prod_pos hdims

/-! ### Counting from the left -/

/-- **What counting from the left comes to**, with `acc` elements so far: the dimensions up to the
first zero have to be known and their product within the limit. -/
theorem countFrom_eq_ok_iff {whole : Shape} {limit axis acc n : Nat} {shape : Shape}
    (hacc : 0 < acc) (hlimit : acc ≤ limit) : countFrom whole limit axis acc shape = .ok n ↔
      (∀ d ∈ shape.upToZero, 0 ≤ d) ∧ acc * shape.upToZero.product ≤ limit ∧
        (n : Int) = acc * shape.product := by
  -- What was counted so far changes with each dimension, so it is arbitrary.
  induction shape generalizing axis acc with
  | nil =>
    simp only [countFrom, Except.ok.injEq, upToZero_nil, product_nil, mul_one]
    constructor
    · rintro rfl
      exact ⟨fun d hd => absurd hd List.not_mem_nil, by exact_mod_cast hlimit, rfl⟩
    · rintro ⟨-, -, hn⟩
      exact_mod_cast hn.symm
  | cons d more ih =>
    rw [countFrom]
    by_cases hneg : d < 0
    · -- A dimension that is not known stands in front of every zero behind it.
      have hne : d ≠ 0 := by
        rintro rfl
        exact absurd hneg (by decide)
      rw [if_pos hneg, upToZero_cons hne]
      constructor
      · intro h
        cases h
      · rintro ⟨hknown, -, -⟩
        exact absurd hneg (Int64.not_lt.mpr (hknown d List.mem_cons_self))
    rw [if_neg hneg]
    -- At a zero counting stops, and what stands behind it is not looked at.
    by_cases hzero : d = 0
    · subst hzero
      rw [if_pos rfl, upToZero_zero, product_cons, Except.ok.injEq]
      constructor
      · rintro rfl
        refine ⟨fun d hd => absurd hd List.not_mem_nil, ?_, by simp⟩
        rw [product_nil, mul_one]
        exact_mod_cast hlimit
      · rintro ⟨-, -, hn⟩
        rw [Int64.toInt_zero, zero_mul, mul_zero] at hn
        exact_mod_cast hn.symm
    rw [if_neg hzero, upToZero_cons hzero]
    -- The dimension is positive, and the test of the room for it is that of the product.
    have hknown : 0 ≤ d := Int64.not_lt.mp hneg
    have hclamp : (d.toNatClampNeg : Int) = d.toInt :=
      Int.toNat_of_nonneg (Int64.le_iff_toInt_le.mp hknown)
    have hpos : 0 < d.toNatClampNeg :=
      Nat.pos_of_ne_zero fun hz => hzero ((toNatClampNeg_eq_zero hknown).mp hz)
    have hstep (m : Int) : (acc * d.toNatClampNeg : Nat) * m = acc * (d.toInt * m) := by
      rw [Nat.cast_mul, hclamp, mul_assoc]
    by_cases hroom : acc * d.toNatClampNeg ≤ limit
    · rw [if_neg (Nat.not_lt.mpr ((Nat.le_div_iff_mul_le hpos).mpr hroom)),
        ih (Nat.mul_pos hacc hpos) hroom, product_cons, product_cons, List.forall_mem_cons,
        and_iff_right hknown, hstep, hstep]
    · rw [if_pos (Nat.lt_of_not_le fun hle => hroom ((Nat.le_div_iff_mul_le hpos).mp hle))]
      constructor
      · intro h
        cases h
      · rintro ⟨hall, hle, -⟩
        -- The dimensions still to come cannot make the product smaller.
        rw [List.forall_mem_cons] at hall
        have hrest := product_upToZero_pos hall.2
        rw [product_cons, ← hstep] at hle
        have hwide : ((acc * d.toNatClampNeg : Nat) : Int) ≤ limit :=
          (le_mul_of_one_le_right (Int.natCast_nonneg _) hrest).trans hle
        exact absurd (by exact_mod_cast hwide) hroom

/-- **What is counted**, for the range of a shape. -/
theorem count_eq_ok_iff {shape : Shape} {n : Nat} : shape.count = .ok n ↔
    (∀ d ∈ shape.upToZero, 0 ≤ d) ∧ shape.upToZero.product ≤ maxCount ∧
      (n : Int) = shape.product := by
  rw [count, countFrom_eq_ok_iff Nat.one_pos (by decide), Nat.cast_one, one_mul, one_mul]

/-! ### The order of the dimensions -/

/-- Without a zero the count is the product, where it is in range. -/
theorem count_of_not_mem {shape : Shape} (h : 0 ∉ shape) {n : Nat} : shape.count = .ok n ↔
    (∀ d ∈ shape, 0 ≤ d) ∧ shape.product ≤ maxCount ∧ (n : Int) = shape.product := by
  rw [count_eq_ok_iff, upToZero_of_not_mem h]

/-- The span does not depend on the order. -/
theorem span_perm {s t : Shape} (h : s.Perm t) : s.span = t.span :=
  ((h.map _).filter _).prod_eq

/-- Being free of the order does not depend on it. -/
theorem OrderFree.perm {s t : Shape} (hs : s.OrderFree) (h : s.Perm t) : t.OrderFree := by
  intro hzero
  obtain ⟨hknown, hspan⟩ := hs (h.mem_iff.mpr hzero)
  refine ⟨fun d hd => hknown d (h.mem_iff.mpr hd), ?_⟩
  rw [SpanFits, ← span_perm h]
  exact hspan

/-- **Where the order does not matter, the count is the product**, and it is given exactly if all
dimensions are known and the product is in range. -/
theorem OrderFree.count_eq_ok_iff {shape : Shape} (h : shape.OrderFree) {n : Nat} :
    shape.count = .ok n ↔
      (∀ d ∈ shape, 0 ≤ d) ∧ shape.product ≤ maxCount ∧ (n : Int) = shape.product := by
  by_cases hzero : 0 ∈ shape
  · -- With a zero the count is zero, provided that the rest can be counted.
    obtain ⟨hknown, hspan⟩ := h hzero
    obtain ⟨m, hm⟩ := count_of_spanFits ((isStatic_iff shape).mpr hknown) hspan
    have hproduct := product_of_mem hzero
    obtain ⟨-, -, hvalue⟩ := Shape.count_eq_ok_iff.mp hm
    rw [hm, Except.ok.injEq, hproduct]
    rw [hproduct] at hvalue
    obtain rfl : m = 0 := by exact_mod_cast hvalue
    constructor
    · rintro rfl
      exact ⟨hknown, Int.natCast_nonneg _, rfl⟩
    · rintro ⟨-, -, hn⟩
      exact_mod_cast hn.symm
  · exact count_of_not_mem hzero

/-- The dimensions other than zero, put in front of the zeros, are those up to the first zero. -/
theorem upToZero_sorted {rest zeros : Shape} (hrest : 0 ∉ rest) (hzeros : ∀ d ∈ zeros, d = 0) :
    upToZero (rest ++ zeros) = rest := by
  have hstop : upToZero zeros = [] := by
    cases zeros with
    | nil => rfl
    | cons d more =>
      rw [hzeros d List.mem_cons_self]
      rfl
  rw [upToZero, List.takeWhile_append_of_pos, ← upToZero, hstop, List.append_nil]
  intro d hd
  refine decide_eq_true ?_
  rintro rfl
  exact hrest hd

/-- Over known dimensions the span is the product of those other than zero. -/
theorem span_eq_product {shape : Shape} (hknown : ∀ d ∈ shape, 0 ≤ d) :
    (shape.span : Int) = product (shape.filter (· ≠ 0)) := by
  have hfilter : ∀ d ∈ shape.filter (· ≠ 0), 0 ≤ d := fun d hd => hknown d (List.mem_filter.mp hd).1
  rw [product_eq_volume hfilter, span, volume, List.filter_map]
  congr 3
  refine List.filter_congr fun d hd => ?_
  have hiff := toNatClampNeg_eq_zero (hknown d hd)
  simp [hiff]

/-- **The order matters with a zero**, unless the other dimensions can be counted: in front of them
it hides them, and behind them it comes too late. -/
theorem orderFree_of_perm {shape : Shape}
    (h : ∀ shape' : Shape, shape.Perm shape' → shape'.count.toOption = shape.count.toOption) :
    shape.OrderFree := by
  intro hzero
  -- The same dimensions, the zeros behind all others.
  have hperm : (shape.filter (· ≠ 0) ++ shape.filter (· = 0)).Perm shape := by
    refine List.Perm.trans ?_ (List.filter_append_perm (· ≠ 0) shape)
    simp
  have hzeros : ∀ d ∈ shape.filter (· = 0), d = 0 :=
    fun d hd => of_decide_eq_true (List.mem_filter.mp hd).2
  have hother : 0 ∉ shape.filter (· ≠ 0) := by simp
  -- With the zeros in front the count is zero.
  have hfirst : Shape.count (shape.filter (· = 0) ++ shape.filter (· ≠ 0)) = .ok 0 := by
    obtain ⟨d, more, hcons⟩ :=
      List.exists_cons_of_ne_nil (List.ne_nil_of_mem (List.mem_filter.mpr ⟨hzero, rfl⟩ :
        (0 : Int64) ∈ shape.filter (· = 0)))
    obtain rfl : d = 0 := hzeros d (hcons ▸ List.mem_cons_self)
    rw [hcons]
    rfl
  have hsame := h _ (List.perm_append_comm.trans hperm).symm
  rw [hfirst] at hsame
  -- So it is with the zeros behind, where the other dimensions are counted before them.
  have hlast := h _ hperm.symm
  rw [← hsame] at hlast
  obtain ⟨n, hn⟩ : ∃ n, Shape.count (shape.filter (· ≠ 0) ++ shape.filter (· = 0)) = .ok n := by
    cases hcount : Shape.count (shape.filter (· ≠ 0) ++ shape.filter (· = 0)) with
    | error e =>
      rw [hcount] at hlast
      cases hlast
    | ok n => exact ⟨n, rfl⟩
  -- Now that they were counted, they are known and within range.
  obtain ⟨hknown, hle, -⟩ := Shape.count_eq_ok_iff.mp hn
  rw [upToZero_sorted hother hzeros] at hknown hle
  have hall : ∀ d ∈ shape, 0 ≤ d := by
    intro d hd
    by_cases hd0 : d = 0
    · exact hd0 ▸ Int64.le_refl 0
    · exact hknown d (List.mem_filter.mpr ⟨hd, decide_eq_true hd0⟩)
  refine ⟨hall, ?_⟩
  rw [← span_eq_product hall] at hle
  exact_mod_cast hle

/-- For these shapes every order gives the same count. -/
theorem OrderFree.count_perm {shape shape' : Shape} (h : shape.OrderFree)
    (hperm : shape.Perm shape') : shape'.count.toOption = shape.count.toOption := by
  have hiff (n : Nat) : shape'.count = .ok n ↔ shape.count = .ok n := by
    rw [(h.perm hperm).count_eq_ok_iff, h.count_eq_ok_iff, product_perm hperm]
    have hmem : (∀ d ∈ shape', 0 ≤ d) ↔ ∀ d ∈ shape, 0 ≤ d := by
      simp only [hperm.mem_iff]
    rw [hmem]
  cases hcount : shape.count with
  | ok n => rw [(hiff n).mpr hcount]
  | error e =>
    cases hcount' : shape'.count with
    | ok n => exact absurd ((hiff n).mp hcount') (by simp [hcount])
    | error e' => rfl

/-- **The outcome of a count.** A count is given exactly if the dimensions up to the first zero are
known and their product is in range, and it is the product of all dimensions. Its outcome is the
same for all orders of the dimensions exactly for the shapes that `OrderFree` describes. For these
it is given exactly if all dimensions are known and their product is in range. -/
theorem count_outcome (shape : Shape) :
    (∀ n, shape.count = .ok n ↔ (∀ d ∈ shape.upToZero, 0 ≤ d) ∧
      shape.upToZero.product ≤ 2 ^ 63 - 1 ∧ (n : Int) = shape.product) ∧
    ((∀ shape' : Shape, shape.Perm shape' → shape'.count.toOption = shape.count.toOption) ↔
      shape.OrderFree) ∧
    (shape.OrderFree → ∀ n, shape.count = .ok n ↔
      (∀ d ∈ shape, 0 ≤ d) ∧ shape.product ≤ 2 ^ 63 - 1 ∧ (n : Int) = shape.product) := by
  have hmax : ((maxCount : Nat) : Int) = 2 ^ 63 - 1 := by decide
  rw [← hmax]
  exact ⟨fun n => count_eq_ok_iff, ⟨orderFree_of_perm, fun h shape' => h.count_perm⟩,
    fun h n => h.count_eq_ok_iff⟩

/-- A zero beside the largest dimension may stand on either side of it. -/
theorem count_outcome_largest : OrderFree [0, 9223372036854775807] ∧
    (∀ n, count [0, 9223372036854775807] = .ok n ↔ n = 0) ∧
    (count [9223372036854775807, 0]).toOption = some 0 := by
  have hknown : ∀ d ∈ ([0, 9223372036854775807] : Shape), 0 ≤ d := (isStatic_iff _).mp rfl
  have hspan : span [0, 9223372036854775807] = maxCount := by
    simp [span, maxCount]
  have hfree : OrderFree [0, 9223372036854775807] := fun _ => ⟨hknown, hspan.le⟩
  obtain ⟨-, horder, hcount⟩ := count_outcome [0, 9223372036854775807]
  have hiff (n : Nat) : count [0, 9223372036854775807] = .ok n ↔ n = 0 := by
    rw [hcount hfree n, product_of_mem List.mem_cons_self]
    constructor
    · rintro ⟨-, -, hn⟩
      exact_mod_cast hn
    · rintro rfl
      exact ⟨hknown, by norm_num, rfl⟩
  refine ⟨hfree, hiff, ?_⟩
  rw [horder.mpr hfree _ (List.Perm.swap _ _ _), (hiff 0).mpr rfl]
  rfl

/-- A zero hides a dimension behind it that is not known, and comes too late behind dimensions whose
product is out of range. -/
theorem count_depends_on_order :
    (count [0, -1] = .ok 0 ∧ count [-1, 0] = .error (.notStatic 0 (-1))) ∧
    (count [0, 4611686018427387904, 4] = .ok 0 ∧
      count [4611686018427387904, 4, 0] = .error (.overflow [4611686018427387904, 4, 0])) := by
  decide

end Shape

end EngineHost
