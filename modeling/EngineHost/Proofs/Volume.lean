import EngineHost.Plan.Build
import EngineHost.Plan.Kernel
import EngineHost.Proofs.Results
import Mathlib.Algebra.BigOperators.Ring.List
import Mathlib.Algebra.Order.Ring.Nat
import Mathlib.Data.List.GetD

/-!
# The volume of a shape

The program counts the elements of a shape in two ways: `Shape.count`, which refuses what goes out
of range, and `Kernel.product`, which wraps around. This file relates both to one number without a
range, the **volume** (`Shape.volume`):

* `Kernel.product_eq` — over known dimensions the wrapping product is the volume, wrapped;
* `Shape.count_eq_volume` — a count that is given is the volume, and is in range;
* `Shape.count_of_spanFits` — a count is given wherever the dimensions other than zero stay in
  range.

It also says what taking an axis out and exchanging the last two do to a volume
(`Shape.volume_eq_around`, `Shape.volume_swapLast`).
-/

namespace EngineHost

namespace Shape

/-- The number of elements, without a range. -/
def volume (shape : Shape) : Nat :=
  (shape.map Int64.toNatClampNeg).prod

@[simp] theorem volume_nil : volume [] = 1 := rfl

@[simp] theorem volume_cons (d : Int64) (shape : Shape) :
    volume (d :: shape) = d.toNatClampNeg * volume shape := rfl

@[simp] theorem volume_append (s t : Shape) : volume (s ++ t) = volume s * volume t := by
  simp [volume]

/-- A shape is static if every dimension is known. -/
theorem isStatic_iff (shape : Shape) : shape.isStatic = true ↔ ∀ d ∈ shape, 0 ≤ d := by
  simp [isStatic]

/-- A joined shape is static if both parts are. -/
theorem isStatic_append (s t : Shape) :
    isStatic (s ++ t) = true ↔ s.isStatic = true ∧ t.isStatic = true := by
  simp only [isStatic_iff, List.mem_append, or_imp, forall_and]

/-- Of the known dimensions only zero counts for nothing. -/
theorem toNatClampNeg_eq_zero {d : Int64} (h : 0 ≤ d) : d.toNatClampNeg = 0 ↔ d = 0 := by
  constructor
  · intro hz
    rw [← Int64.ofNat_toNatClampNeg d h, hz]
    rfl
  · rintro rfl
    rfl

/-! ### The count in range -/

/-- The product of the dimensions other than zero. -/
def span (shape : Shape) : Nat :=
  ((shape.map Int64.toNatClampNeg).filter (· ≠ 0)).prod

/-- The dimensions other than zero stay in range. -/
def SpanFits (shape : Shape) : Prop :=
  shape.span ≤ maxCount

instance (shape : Shape) : Decidable shape.SpanFits :=
  inferInstanceAs (Decidable (shape.span ≤ maxCount))

/-- A count that is given, with `acc` elements so far. -/
theorem countFrom_eq {whole : Shape} {limit axis acc n : Nat} {shape : Shape}
    (h : countFrom whole limit axis acc shape = .ok n) (hacc : acc ≤ limit) :
    n = acc * volume shape ∧ n ≤ limit := by
  induction shape generalizing axis acc with
  | nil =>
    cases h
    exact ⟨(Nat.mul_one _).symm, hacc⟩
  | cons d more ih =>
    rw [countFrom] at h
    split at h
    · cases h
    next hneg =>
    split at h
    next hzero =>
      -- A zero ends the count, whatever the dimensions behind it.
      cases h
      subst hzero
      exact ⟨by simp, Nat.zero_le _⟩
    next hzero =>
    split at h
    · cases h
    next hroom =>
    -- The dimension is positive, so the test by division is the one by multiplication.
    have hd : 0 < d.toNatClampNeg :=
      Nat.pos_of_ne_zero fun hz =>
        hzero ((toNatClampNeg_eq_zero (Int64.not_lt.mp hneg)).mp hz)
    have hstep : acc * d.toNatClampNeg ≤ limit :=
      (Nat.le_div_iff_mul_le hd).mp (Nat.not_lt.mp hroom)
    obtain ⟨hn, hle⟩ := ih h hstep
    exact ⟨by rw [hn, volume_cons, Nat.mul_assoc], hle⟩

/-- **A count that is given is the volume, and is in range.** -/
theorem count_eq_volume {shape : Shape} {n : Nat} (h : shape.count = .ok n) :
    n = shape.volume ∧ n < 2 ^ 63 := by
  obtain ⟨hn, hle⟩ := countFrom_eq h (by decide)
  refine ⟨by rw [hn, Nat.one_mul], ?_⟩
  exact Nat.lt_of_le_of_lt hle (by decide)

/-- No zero is a factor of the span. -/
theorem span_pos (shape : Shape) : 0 < shape.span := by
  refine Nat.pos_of_ne_zero fun hz => ?_
  have hmem := List.prod_eq_zero_iff.mp hz
  simp at hmem

/-- A count is given where the span leaves room, with `acc` elements so far. -/
theorem countFrom_of_span {whole : Shape} {limit axis acc : Nat} {shape : Shape}
    (hstatic : shape.isStatic = true) (hspan : acc * shape.span ≤ limit) :
    ∃ n, countFrom whole limit axis acc shape = .ok n := by
  induction shape generalizing axis acc with
  | nil => exact ⟨acc, rfl⟩
  | cons d more ih =>
    rw [isStatic_iff, List.forall_mem_cons, ← isStatic_iff] at hstatic
    rw [countFrom, if_neg (Int64.not_lt.mpr hstatic.1)]
    split
    · exact ⟨0, rfl⟩
    next hzero =>
    have hd : d.toNatClampNeg ≠ 0 := fun hz => hzero ((toNatClampNeg_eq_zero hstatic.1).mp hz)
    -- The room for `d` is measured against the dimensions that are still to come.
    have hspan' : acc * d.toNatClampNeg * span more ≤ limit := by
      simpa [span, hd, Nat.mul_assoc] using hspan
    have hroom : acc * d.toNatClampNeg ≤ limit :=
      le_trans (Nat.le_mul_of_pos_right _ (span_pos more)) hspan'
    rw [if_neg (Nat.not_lt.mpr ((Nat.le_div_iff_mul_le (Nat.pos_of_ne_zero hd)).mpr hroom))]
    exact ih hstatic.2 hspan'

/-- **A count is given** wherever the dimensions other than zero stay in range. -/
theorem count_of_spanFits {shape : Shape} (hstatic : shape.isStatic = true)
    (hspan : shape.SpanFits) : ∃ n, shape.count = .ok n :=
  countFrom_of_span hstatic (by rwa [Nat.one_mul])

/-! ### Axes -/

/-- The volume around one axis. -/
theorem volume_eq_around {shape : Shape} {axis : Nat} (h : axis < shape.length) :
    shape.volume = volume (shape.take axis) * (shape.getD axis 0).toNatClampNeg *
      volume (shape.drop (axis + 1)) := by
  -- The shape is what stands in front of the axis, the axis, and what stands behind it.
  have hsplit : shape = shape.take axis ++ shape.getD axis 0 :: shape.drop (axis + 1) := by
    rw [List.getD_eq_getElem _ _ h, ← List.drop_eq_getElem_cons h, List.take_append_drop]
  calc shape.volume
      = volume (shape.take axis ++ shape.getD axis 0 :: shape.drop (axis + 1)) := by rw [← hsplit]
    _ = _ := by rw [volume_append, volume_cons, Nat.mul_assoc]

/-- The volume without an axis. -/
theorem volume_eraseIdx (shape : Shape) (axis : Nat) :
    volume (shape.eraseIdx axis) = volume (shape.take axis) * volume (shape.drop (axis + 1)) := by
  rw [List.eraseIdx_eq_take_drop_succ, volume_append]

end Shape

/-! ### The last two axes -/

section SwapLast

variable {α : Type} (front : List α) (a b : α)

/-- The last two entries are exchanged. -/
@[simp] theorem swapLast_append_pair : swapLast (front ++ [a, b]) = front ++ [b, a] := by
  simp [swapLast]

end SwapLast

/-- A list of two entries or more ends in two entries. -/
theorem exists_append_pair {α : Type} {xs : List α} (h : 2 ≤ xs.length) :
    ∃ front a b, xs = front ++ [a, b] := by
  refine ⟨xs.take (xs.length - 2), xs[xs.length - 2], xs[xs.length - 1], ?_⟩
  -- All but the last two entries are dropped.
  have hdrop : xs.drop (xs.length - 2) = [xs[xs.length - 2], xs[xs.length - 1]] := by
    apply List.ext_getElem
    · simp
      omega
    · intro i h₁ h₂
      have hi : i = 0 ∨ i = 1 := by
        simp at h₂
        omega
      rcases hi with rfl | rfl
      · simp
      · simp only [List.getElem_drop, List.getElem_cons_succ, List.getElem_cons_zero]
        congr 1
        omega
  rw [← hdrop, List.take_append_drop]

/-- Exchanging the last two axes keeps the volume. -/
theorem Shape.volume_swapLast (shape : Shape) : volume (swapLast shape) = volume shape := by
  -- Fewer than two axes are left as they are.
  rcases Nat.lt_or_ge shape.length 2 with hshort | hlong
  · match shape, hshort with
    | [], _ => rfl
    | [_], _ => rfl
  · obtain ⟨front, a, b, rfl⟩ := exists_append_pair hlong
    simp [Nat.mul_comm]

/-! ### The product that wraps around -/

namespace Kernel

/-- The wrapping product, with `acc` elements so far. -/
theorem product_foldl (acc : Nat) {shape : Shape} (hstatic : shape.isStatic = true) :
    shape.foldl (· * ·) (Int64.ofNat acc) = Int64.ofNat (acc * shape.volume) := by
  induction shape generalizing acc with
  | nil => rw [List.foldl_nil, Shape.volume_nil, Nat.mul_one]
  | cons d more ih =>
    rw [Shape.isStatic_iff, List.forall_mem_cons, ← Shape.isStatic_iff] at hstatic
    -- Wrapping commutes with multiplication, so it may as well be done in the end.
    have hd : Int64.ofNat acc * d = Int64.ofNat (acc * d.toNatClampNeg) := by
      rw [Int64.ofNat_mul, Int64.ofNat_toNatClampNeg d hstatic.1]
    rw [List.foldl_cons, hd, ih _ hstatic.2, Shape.volume_cons, Nat.mul_assoc]

/-- **The wrapping product is the volume, wrapped.** -/
theorem product_eq {shape : Shape} (hstatic : shape.isStatic = true) :
    product shape = Int64.ofNat shape.volume := by
  have h := product_foldl 1 hstatic
  rwa [Nat.one_mul] at h

end Kernel

end EngineHost
