import EngineHost.Proofs.FloatOrder
import EngineHost.Proofs.HostArithmetic

/-!
# Equality of tensors

`Tensor.same` compares descriptors and then, place by place, what the elements stand for. Integers
are the same if they are equal. Floats are the same if their distance is not above zero, and what is
no number has no distance from anything: so it is the same as every element (`Quantity.Agrees`). All
other floats are the same exactly if they stand for the same number or infinity
(`Tensor.close_zero_iff`), for no difference of numbers is rounded to zero.

So the relation is reflexive and symmetric, but one tensor may be the same as two others that
differ. This happens exactly where it has an element that is no number and the others have different
ones that are (`Tensor.same_but_for_noNumber`). With a tolerance an element that is no number is
close to every element too, whatever the tolerance is.
-/

namespace EngineHost

open Format

namespace Quantity

variable {p q r : Quantity}

/-- Are two quantities the same, as elements are compared? -/
def Agrees (p q : Quantity) : Prop :=
  p = .noNumber ∨ q = .noNumber ∨ p = q

/-- Everything agrees with itself. -/
theorem agrees_refl (p : Quantity) : p.Agrees p :=
  .inr (.inr rfl)

theorem Agrees.symm (h : p.Agrees q) : q.Agrees p := by
  rcases h with h | h | h
  · exact .inr (.inl h)
  · exact .inl h
  · exact .inr (.inr h.symm)

theorem agrees_comm : p.Agrees q ↔ q.Agrees p :=
  ⟨Agrees.symm, Agrees.symm⟩

/-- What agrees with a number agrees with each other. -/
theorem Agrees.trans (hpq : p.Agrees q) (hqr : q.Agrees r) (hq : q ≠ .noNumber) : p.Agrees r := by
  rcases hpq with hp | hpq | rfl
  · exact .inl hp
  · exact absurd hpq hq
  · exact hqr

/-- Quantities that do not agree are numbers or infinities, and differ. -/
theorem not_agrees_iff : ¬p.Agrees q ↔ p ≠ .noNumber ∧ q ≠ .noNumber ∧ p ≠ q := by
  unfold Agrees
  rw [not_or, not_or]

/-- **Where agreement is not passed on**: elements that are no numbers, between others that
differ. -/
theorem not_forall₂_agrees_iff {l m n : List Quantity} (hlm : List.Forall₂ Agrees l m)
    (hmn : List.Forall₂ Agrees m n) : ¬List.Forall₂ Agrees l n ↔
      ∃ (i : Nat) (p r : Quantity), l[i]? = some p ∧ m[i]? = some .noNumber ∧ n[i]? = some r ∧
        ¬p.Agrees r := by
  -- The three lists go in step; only the middle one may have no number where the others differ.
  induction hlm generalizing n with
  | nil =>
    cases hmn
    exact iff_of_false (not_not_intro .nil) nofun
  | @cons p q l m hpq hlm ih =>
    cases hmn with
    | @cons _ r _ n hqr hmn =>
      rw [List.forall₂_cons, not_and_or, ih hmn]
      constructor
      · rintro (hpr | ⟨i, p', r', hp, hq, hr, hpr⟩)
        · -- A number in the middle would have passed agreement on.
          have hq : q = .noNumber := by_contra fun hq => hpr (hpq.trans hqr hq)
          exact ⟨0, p, r, rfl, congrArg some hq, rfl, hpr⟩
        · exact ⟨i + 1, p', r', hp, hq, hr, hpr⟩
      · rintro ⟨i, p', r', hp, hq, hr, hpr⟩
        cases i with
        | zero =>
          cases hp
          cases hr
          exact .inl hpr
        | succ i => exact .inr ⟨i, p', r', hp, hq, hr, hpr⟩

/-- Numbers agree if they are equal. -/
theorem agrees_finite {x y : ℚ} : (finite x).Agrees (finite y) ↔ x = y := by
  unfold Agrees
  simp

/-- The distance of two quantities of single precision. -/
def distance : Quantity → Quantity → Quantity
  | .finite x, .finite y => .finite (double.value (double.rounded (x - y)))
  | .finite _, .infinite _ => .infinite false
  | .infinite _, .finite _ => .infinite false
  | .infinite negative, .infinite negative' =>
    if negative = negative' then .noNumber else .infinite false
  | .noNumber, _ => .noNumber
  | _, .noNumber => .noNumber

/-- What is no number has no distance from anything. -/
theorem distance_noNumber (p : Quantity) : p.distance .noNumber = .noNumber := by
  cases p <;> rfl

/-- The distance of a quantity from itself is zero, where there is one. -/
theorem distance_self (p : Quantity) : p.distance p = .noNumber ∨ p.distance p = .finite 0 := by
  cases p with
  | noNumber => exact .inl rfl
  | infinite negative => exact .inl (if_pos rfl)
  | finite x =>
    refine .inr ?_
    rw [distance, sub_self, rounded_zero, value_zero]

/-- **Are two quantities within a tolerance?** Either may be no number. -/
def Within (atol p q : Quantity) : Prop :=
  p = .noNumber ∨ q = .noNumber ∨ p = q ∨ ¬atol.Less (p.distance q)

/-- Being within a tolerance that is not negative is a matter of the distance alone. -/
theorem within_iff {atol : Quantity} (hatol : ¬atol.Less (.finite 0)) (p q : Quantity) :
    atol.Within p q ↔ ¬atol.Less (p.distance q) := by
  constructor
  · rintro (rfl | rfl | rfl | h)
    · exact not_less_noNumber atol
    · rw [distance_noNumber]
      exact not_less_noNumber atol
    · rcases p.distance_self with heq | heq
      · exact heq ▸ not_less_noNumber atol
      · exact heq ▸ hatol
    · exact h
  · exact fun h => .inr (.inr (.inr h))

/-- Without a tolerance, infinities are told apart by their signs, and from all numbers. -/
theorem agrees_infinite (negative : Bool) (q : Quantity) :
    ¬(finite 0).Less ((infinite negative).distance q) ↔ (infinite negative).Agrees q := by
  cases q with
  | noNumber => exact iff_of_true id (.inr (.inl rfl))
  | infinite negative' =>
    by_cases heq : negative = negative'
    · rw [distance, if_pos heq, heq]
      exact iff_of_true id (agrees_refl _)
    · rw [distance, if_neg heq]
      refine iff_of_false (fun h => h rfl) ?_
      unfold Agrees
      simpa using heq
  | finite x => exact iff_of_false (fun h => h rfl) (by unfold Agrees; simp)

end Quantity

namespace Single

variable {x y : Single}

/-- What the test calls no number stands for none. -/
theorem quantity_of_isNaN (h : x.isNaN = true) : x.quantity = .noNumber := by
  -- What is no number has a magnitude above that of infinity.
  have hlarge : single.infinity < single.magnitude x.bits.toNat := of_decide_eq_true h
  have hfinite : single.isFinite x.bits.toNat = false := decide_eq_false hlarge.le.not_gt
  exact (quantity_of_not_isFinite hfinite).trans (if_pos h)

/-- What stands for a number is finite, and is that number. -/
theorem quantity_eq_finite {a : ℚ} (h : x.quantity = .finite a) :
    x.isFinite = true ∧ x.number = a := by
  cases hx : x.isFinite with
  | true => exact ⟨rfl, Quantity.finite.inj ((quantity_of_isFinite hx).symm.trans h)⟩
  | false =>
    rw [quantity, quantity_of_not_isFinite hx] at h
    split at h <;> cases h

/-- Numbers of single precision are below the limit of the format. -/
theorem abs_number_lt (hx : x.isFinite = true) : |x.number| < 2 ^ (128 : Int) := by
  have hlt : single.value (single.magnitude x.bits.toNat) < 2 ^ (128 : Int) :=
    value_lt_limit single_proper (of_decide_eq_true hx)
  have hnonneg := single.value_nonneg (single.magnitude x.bits.toNat)
  rwa [number, Format.number, abs_signed, abs_of_nonneg hnonneg]

/-- A difference in single precision is no infinity in double precision. -/
theorem rounded_sub_lt_infinity (hx : x.isFinite = true) (hy : y.isFinite = true) :
    double.rounded (x.number - y.number) < double.infinity := by
  refine ofRatio_lt_infinity (t := 129) double_proper (Rat.den_pos _) ?_ (by decide)
  rw [Nat.cast_natAbs, Int.cast_abs, ← Nat.abs_cast (Rat.den _), ← abs_div, Rat.num_div_den]
  -- Each of the two is below the limit, and doubles reach far beyond twice that.
  calc |x.number - y.number| ≤ |x.number| + |y.number| := abs_sub _ _
    _ < 2 ^ (128 : Int) + 2 ^ (128 : Int) := add_lt_add (abs_number_lt hx) (abs_number_lt hy)
    _ = 2 ^ ((129 : Nat) : Int) := by norm_num

/-- The absolute value of a difference is the distance. -/
theorem abs_difference (x y : Single) :
    (double.difference x.quantity y.quantity).abs = x.quantity.distance y.quantity := by
  -- Only for two numbers is anything computed; infinities are a matter of signs.
  cases hx : x.quantity with
  | noNumber => rfl
  | infinite negative =>
    cases y.quantity with
    | noNumber => rfl
    | infinite negative' => cases negative <;> cases negative' <;> rfl
    | finite b => rfl
  | finite a =>
    cases hy : y.quantity with
    | noNumber => rfl
    | infinite negative' => rfl
    | finite b =>
      obtain ⟨hfinite, rfl⟩ := quantity_eq_finite hx
      obtain ⟨hfinite', rfl⟩ := quantity_eq_finite hy
      rw [difference, nearest, if_pos (rounded_sub_lt_infinity hfinite hfinite'), Quantity.abs,
        abs_signed, abs_of_nonneg (value_nonneg _ _), Quantity.distance]

/-- Widening keeps the number. -/
theorem number_toDouble (hx : x.isFinite = true) :
    double.number x.toDouble.bits.toNat = x.number := by
  have hdouble : double.isFinite x.toDouble.bits.toNat = true := x.isFinite_toDouble.trans hx
  refine Quantity.finite.inj ?_
  rw [← quantity_of_isFinite hdouble]
  exact x.quantity_toDouble.trans (quantity_of_isFinite hx)

/-- Only equal numbers have no distance. -/
theorem distance_le_zero_iff (hx : x.isFinite = true) (hy : y.isFinite = true) :
    double.value (double.rounded (x.number - y.number)) ≤ 0 ↔ x.number = y.number := by
  -- Differences are taken of doubles, which stand for the same numbers.
  have hzero := rounded_sub_eq_zero_iff double_proper x.toDouble.bits.toNat y.toDouble.bits.toNat
  rw [number_toDouble hx, number_toDouble hy] at hzero
  rw [← hzero]
  constructor
  · intro hle
    by_contra hne
    exact (value_pos hne).not_ge hle
  · intro heq
    rw [heq, value_zero]

end Single

namespace Tensor

/-- **Elements are close** unless the tolerance is below their distance. -/
theorem close_iff (atol : Double) (x y : Single) :
    close atol x y = true ↔ ¬atol.quantity.Less (x.quantity.distance y.quantity) := by
  have hapart := Double.apart_iff x.toDouble y.toDouble atol
  rw [x.quantity_toDouble, y.quantity_toDouble, Single.abs_difference] at hapart
  rw [← hapart, close, Bool.or_eq_true, Bool.and_eq_true, Bool.not_eq_true', Bool.not_eq_true]
  refine or_iff_right_of_imp ?_
  -- Two that are no numbers have no distance, so the second test would do.
  rintro ⟨hx, -⟩
  rw [Single.quantity_of_isNaN hx] at hapart
  exact Bool.eq_false_iff.mpr (mt hapart.mp (Quantity.not_less_noNumber _))

/-- The tolerance of zero is zero. -/
theorem quantity_zero : Double.zero.quantity = .finite 0 := by
  have hquantity := quantity_finite (f := double) false (infinity_pos double_proper)
  rwa [value_zero, signed_zero] at hquantity

/-- **Without a tolerance** elements are close if they stand for the same, or one of them for no
number. -/
theorem close_zero_iff (x y : Single) : close .zero x y = true ↔ x.quantity.Agrees y.quantity := by
  rw [close_iff, quantity_zero]
  cases hx : x.quantity with
  | noNumber => exact iff_of_true id (.inl rfl)
  | infinite negative => exact Quantity.agrees_infinite negative _
  | finite a =>
    cases hy : y.quantity with
    | noNumber => exact iff_of_true id (.inr (.inl rfl))
    | infinite negative =>
      exact (Quantity.agrees_infinite negative (.finite a)).trans Quantity.agrees_comm
    | finite b =>
      obtain ⟨hfinite, rfl⟩ := Single.quantity_eq_finite hx
      obtain ⟨hfinite', rfl⟩ := Single.quantity_eq_finite hy
      rw [Quantity.agrees_finite, ← Single.distance_le_zero_iff hfinite hfinite']
      exact not_lt

end Tensor

/-! ### Elements -/

/-- Widening keeps what a number of sixteen bits stands for. -/
theorem Half.quantity_toSingle (x : Half) : x.toSingle.quantity = half.quantity x.bits.toNat := by
  unfold Single.quantity
  rw [bits_toSingle]
  exact half_widens.quantity_convert _

namespace Elements

/-- What the elements stand for. -/
def quantities : Elements → List Quantity
  | .float32 v => v.toList.map Single.quantity
  | .float16 v => v.toList.map fun x => half.quantity x.bits.toNat
  | .int32 v => v.toList.map fun n => .finite n.toInt
  | .int64 v => v.toList.map fun n => .finite n.toInt

/-- What the elements stand for in single precision. -/
def singles (e : Elements) : List Quantity :=
  e.toSingles.toList.map Single.quantity

/-- Floats stand for the same in single precision. -/
theorem singles_of_float {e : Elements} (h : e.kind = .float32 ∨ e.kind = .float16) :
    e.singles = e.quantities := by
  cases e with
  | float32 v => rfl
  | float16 v =>
    unfold singles toSingles quantities
    rw [Array.toList_map, List.map_map]
    exact List.map_congr_left fun x _ => x.quantity_toSingle
  | int32 v => exact h.elim nofun nofun
  | int64 v => exact h.elim nofun nofun

/-- Integers agree if they are equal. -/
theorem forall₂_agrees_map {α : Type} {value : α → Int} (hinj : Function.Injective value)
    (v w : List α) :
    List.Forall₂ Quantity.Agrees (v.map fun n => .finite (value n))
      (w.map fun n => .finite (value n)) ↔ v = w := by
  have hagrees (m n : α) : (Quantity.finite (value m)).Agrees (.finite (value n)) ↔ m = n := by
    rw [Quantity.agrees_finite, Int.cast_inj, hinj.eq_iff]
  rw [List.forall₂_map_left_iff, List.forall₂_map_right_iff]
  simp only [hagrees]
  rw [List.forall₂_eq_eq_eq]

/-- Integers are compared in sixty-four bits, which hold those of thirty-two. -/
theorem toInt64s_eq_iff {e e' : Elements} (hkind : e.kind = e'.kind)
    (hinteger : e.kind = .int32 ∨ e.kind = .int64) :
    e.toInt64s = e'.toInt64s ↔ List.Forall₂ Quantity.Agrees e.quantities e'.quantities := by
  cases e with
  | float32 v => exact hinteger.elim nofun nofun
  | float16 v => exact hinteger.elim nofun nofun
  | int32 v =>
    cases e' with
    | int32 w =>
      -- Widening keeps integers apart.
      have hwiden : Function.Injective Int32.toInt64 := by
        intro m n h
        rw [← Int32.toInt_inj, ← Int32.toInt_toInt64, h, Int32.toInt_toInt64]
      unfold toInt64s quantities
      rw [forall₂_agrees_map fun _ _ => Int32.toInt_inj.mp, Array.toList_inj,
        Array.map_inj_right hwiden]
    | _ => cases hkind
  | int64 v =>
    cases e' with
    | int64 w =>
      unfold toInt64s quantities
      rw [forall₂_agrees_map fun _ _ => Int64.toInt_inj.mp, Array.toList_inj]
    | _ => cases hkind

end Elements

/-! ### Tensors -/

namespace Tensor

variable {a b c : Tensor}

/-- Same descriptors: same kind of elements, same shape, and two names of one device. -/
theorem descriptor_same_iff : a.descriptor.same b.descriptor = true ↔
    a.dtype = b.dtype ∧ a.shape = b.shape ∧ a.device.normalized = b.device.normalized := by
  unfold Descriptor.same Device.same
  rw [Bool.and_eq_true, Bool.and_eq_true, decide_eq_true_iff, decide_eq_true_iff,
    decide_eq_true_iff, and_assoc]
  exact Iff.rfl

/-- Tensors of one element type have elements of one kind. -/
theorem kind_eq_of_dtype (h : a.dtype = b.dtype) : a.elements.kind = b.elements.kind := by
  have hkind := congrArg DType.kind? h
  unfold dtype at hkind
  rw [DType.kind?_dtype, DType.kind?_dtype] at hkind
  exact Option.some.inj hkind

/-- Tensors are close if their elements are, place by place. -/
theorem allClose_eq_true_iff (a b : Tensor) (atol : Double) : a.allClose b atol = true ↔
    a.dtype = b.dtype ∧ a.shape = b.shape ∧ List.Forall₂ (fun x y => close atol x y = true)
      a.elements.toSingles.toList b.elements.toSingles.toList := by
  unfold allClose
  rw [Bool.and_eq_true, Bool.and_eq_true, decide_eq_true_iff, decide_eq_true_iff, and_assoc]
  refine and_congr_right fun _ => and_congr_right fun hshape => ?_
  -- Equal shapes have equally many elements, so none is without a partner.
  have hlength : a.elements.toSingles.toList.length = b.elements.toSingles.toList.length := by
    rw [Array.length_toList, Array.length_toList, Elements.size_toSingles, Elements.size_toSingles,
      Native.size_eq_of_shape hshape]
  rw [← Array.all_toList, Array.toList_zip, List.all_eq_true, List.forall₂_iff_zip]
  exact ⟨fun h => ⟨hlength, fun hmem => h _ hmem⟩, fun h pair hmem => h.2 hmem⟩

/-- Tensors are close if their elements are within the tolerance, place by place. -/
theorem allClose_iff_within {atol : Double} (hatol : ¬atol.quantity.Less (.finite 0))
    (a b : Tensor) : a.allClose b atol = true ↔ a.dtype = b.dtype ∧ a.shape = b.shape ∧
      List.Forall₂ atol.quantity.Within a.elements.singles b.elements.singles := by
  unfold Elements.singles
  rw [allClose_eq_true_iff, List.forall₂_map_left_iff, List.forall₂_map_right_iff]
  simp only [close_iff, Quantity.within_iff hatol]

/-- **Tensors are the same** if their descriptors are and their elements agree, place by place. -/
theorem same_iff (a b : Tensor) : a.same b = true ↔ a.descriptor.same b.descriptor = true ∧
    List.Forall₂ Quantity.Agrees a.elements.quantities b.elements.quantities := by
  unfold same
  rw [Bool.and_eq_true]
  refine and_congr_right fun hdescriptor => ?_
  obtain ⟨hdtype, hshape, -⟩ := descriptor_same_iff.mp hdescriptor
  have hkind := kind_eq_of_dtype hdtype
  -- Floats are compared in single precision, which holds both float kinds.
  have hfloat (h : a.elements.kind = .float32 ∨ a.elements.kind = .float16) :
      a.allClose b .zero = true ↔
      List.Forall₂ Quantity.Agrees a.elements.quantities b.elements.quantities := by
    rw [← Elements.singles_of_float h, ← Elements.singles_of_float (hkind ▸ h)]
    unfold Elements.singles
    rw [allClose_eq_true_iff, List.forall₂_map_left_iff, List.forall₂_map_right_iff]
    simp only [close_zero_iff, hdtype, hshape, true_and]
  cases h : a.elements.kind with
  | float32 => exact hfloat (.inl h)
  | float16 => exact hfloat (.inr h)
  | int32 => exact decide_eq_true_iff.trans (Elements.toInt64s_eq_iff hkind (.inl h))
  | int64 => exact decide_eq_true_iff.trans (Elements.toInt64s_eq_iff hkind (.inr h))

/-- Every tensor is the same as itself. -/
theorem same_self (a : Tensor) : a.same a = true :=
  (same_iff a a).mpr ⟨descriptor_same_iff.mpr ⟨rfl, rfl, rfl⟩,
    List.forall₂_same.mpr fun p _ => p.agrees_refl⟩

/-- Being the same is symmetric. -/
theorem same_symm (h : a.same b = true) : b.same a = true := by
  obtain ⟨hdescriptor, helements⟩ := (same_iff a b).mp h
  obtain ⟨hdtype, hshape, hdevice⟩ := descriptor_same_iff.mp hdescriptor
  refine (same_iff b a).mpr ⟨descriptor_same_iff.mpr ⟨hdtype.symm, hshape.symm, hdevice.symm⟩, ?_⟩
  exact helements.flip.imp fun _ _ => Quantity.Agrees.symm

/-- **Equality of tensors.** It is reflexive and symmetric. Two tensors that are the same as a third
differ exactly if somewhere the third has no number and they have different ones. Two tensors are
the same if their descriptors are and at every place the elements are equal or one of them is no
number, and likewise they are close if one of them is no number or their distance is within the
tolerance. -/
theorem same_but_for_noNumber (a b c : Tensor) :
    a.same a = true ∧ a.same b = b.same a ∧
    (a.same b = true → b.same c = true → (a.same c = false ↔
      ∃ (i : Nat) (p r : Quantity), a.elements.quantities[i]? = some p ∧
        b.elements.quantities[i]? = some .noNumber ∧ c.elements.quantities[i]? = some r ∧
        p ≠ .noNumber ∧ r ≠ .noNumber ∧ p ≠ r)) ∧
    (a.same b = true ↔ a.descriptor.same b.descriptor = true ∧
      List.Forall₂ Quantity.Agrees a.elements.quantities b.elements.quantities) ∧
    ∀ atol : Double, ¬atol.quantity.Less (.finite 0) → (a.allClose b atol = true ↔
      a.dtype = b.dtype ∧ a.shape = b.shape ∧
        List.Forall₂ atol.quantity.Within a.elements.singles b.elements.singles) := by
  refine ⟨same_self a, Bool.eq_iff_iff.mpr ⟨same_symm, same_symm⟩, fun hab hbc => ?_, same_iff a b,
    fun atol hatol => allClose_iff_within hatol a b⟩
  obtain ⟨hdescriptor, helements⟩ := (same_iff a b).mp hab
  obtain ⟨hdescriptor', helements'⟩ := (same_iff b c).mp hbc
  -- The descriptors pass equality on, so only elements can be in the way.
  have hac : a.descriptor.same c.descriptor = true := by
    obtain ⟨hdtype, hshape, hdevice⟩ := descriptor_same_iff.mp hdescriptor
    obtain ⟨hdtype', hshape', hdevice'⟩ := descriptor_same_iff.mp hdescriptor'
    exact descriptor_same_iff.mpr ⟨hdtype.trans hdtype', hshape.trans hshape',
      hdevice.trans hdevice'⟩
  rw [Bool.eq_false_iff, ne_eq, same_iff, and_iff_right hac,
    Quantity.not_forall₂_agrees_iff helements helements']
  simp only [Quantity.not_agrees_iff]

theorem isStatic_alone : Shape.isStatic [1] = true :=
  rfl

theorem count_alone (x : Single) : Shape.count [1] = .ok (Elements.float32 #[x]).size :=
  rfl

/-- A tensor of one float. -/
def alone (x : Single) : Tensor :=
  ⟨.float32 #[x], [1], .cpu, isStatic_alone, count_alone x⟩

/-- One and zero differ, though there is no number between them. Their distance is within one. -/
theorem same_but_for_noNumber_between :
    (alone .one).same (alone .undefined) = true ∧ (alone .undefined).same (alone .zero) = true ∧
    (alone .one).same (alone .zero) = false ∧
    (alone .one).allClose (alone .zero) ⟨0x3FF0000000000000⟩ = true := by
  have hfirst : (alone .one).same (alone .undefined) = true := by decide +kernel
  have hsecond : (alone .undefined).same (alone .zero) = true := by decide +kernel
  have hnone : Single.undefined.quantity = .noNumber := Single.quantity_of_isNaN (by decide +kernel)
  have hdiffer : ¬Single.one.quantity.Agrees Single.zero.quantity :=
    mt (close_zero_iff .one .zero).mpr (by decide +kernel)
  have hone : Double.quantity ⟨0x3FF0000000000000⟩ = .finite (double.value 0x3FF0000000000000) :=
    quantity_finite (f := double) false (by decide)
  have hatol : ¬(Double.quantity ⟨0x3FF0000000000000⟩).Less (.finite 0) := by
    rw [hone]
    exact (value_nonneg _ _).not_gt
  have hclose := (close_iff ⟨0x3FF0000000000000⟩ .one .zero).mp (by decide +kernel)
  obtain ⟨-, -, htransitive, -, -⟩ :=
    same_but_for_noNumber (alone .one) (alone .undefined) (alone .zero)
  obtain ⟨-, -, -, -, hwithin⟩ := same_but_for_noNumber (alone .one) (alone .zero) (alone .zero)
  refine ⟨hfirst, hsecond, (htransitive hfirst hsecond).mpr ?_,
    (hwithin _ hatol).mpr ⟨rfl, rfl, ?_⟩⟩
  · exact ⟨0, _, _, rfl, congrArg some hnone, rfl, Quantity.not_agrees_iff.mp hdiffer⟩
  · exact .cons (.inr (.inr (.inr hclose))) .nil

/-- One and zero are both the same as what is no number, and one is close to it without a
tolerance. -/
theorem same_not_transitive :
    (alone .one).same (alone .undefined) = true ∧ (alone .undefined).same (alone .zero) = true ∧
      (alone .one).same (alone .zero) = false ∧
      (alone .undefined).allClose (alone .one) .zero = true := by
  decide +kernel

end Tensor

end EngineHost
