import EngineHost.Proofs.FloatModel

/-!
# Differences and order of floats

A pattern stands for a rational number, for an infinity, or for no number (`Format.quantity`). This
file says what the machine's floats do to these: subtracting, taking the absolute value, comparing.

* `Format.Canonical` — the unpacked forms that come from patterns. Packing one loses nothing
  (`Format.quantity_pack`).
* `Format.lt_canonical` — canonical forms are compared field by field, and that is the order of the
  numbers.
* `Format.quantity_pack_sub` — the difference of finite patterns is nearest to the difference of
  their numbers. Infinities of one sign have no difference, and neither has what is no number.

`Double.apart_iff` puts them together. Numbers that are not equal have a difference that is not
rounded away, for it is a multiple of the least positive number (`Format.rounded_sub_eq_zero_iff`).
-/

namespace EngineHost

/-- **What a pattern stands for.** -/
inductive Quantity where
  | noNumber
  | infinite (negative : Bool)
  | finite (x : ℚ)
  deriving DecidableEq

namespace Quantity

/-- The quantity without its sign. -/
def abs : Quantity → Quantity
  | .noNumber => .noNumber
  | .infinite _ => .infinite false
  | .finite x => .finite |x|

/-- Is a quantity below another one? What is no number is not, and nothing is below it. -/
def Less : Quantity → Quantity → Prop
  | .finite x, .finite y => x < y
  | .finite _, .infinite negative => negative = false
  | .infinite negative, .finite _ => negative = true
  | .infinite negative, .infinite negative' => negative = true ∧ negative' = false
  | .noNumber, _ => False
  | _, .noNumber => False

theorem not_less_noNumber (p : Quantity) : ¬p.Less .noNumber := by
  cases p <;> exact id

end Quantity

namespace Format

variable {f g : Format}

/-- Above infinity there is just room for the fractions of what is no number. -/
theorem infinity_add (f : Format) : f.infinity + 2 ^ f.fractionBits = f.signWeight := by
  rw [infinity_eq, signWeight_eq, Nat.pow_add, Nat.sub_one_mul,
    Nat.sub_add_cancel (Nat.le_mul_of_pos_left _ (Nat.two_pow_pos _))]

/-- The number, the infinity or neither that a pattern stands for. -/
def quantity (f : Format) (bits : Nat) : Quantity :=
  if f.isFinite bits then .finite (f.number bits)
  else if f.isNaN bits then .noNumber
  else .infinite (f.isNegative bits)

theorem quantity_of_isFinite {bits : Nat} (h : f.isFinite bits = true) :
    f.quantity bits = .finite (f.number bits) :=
  if_pos h

theorem quantity_of_not_isFinite {bits : Nat} (h : f.isFinite bits = false) :
    f.quantity bits = if f.isNaN bits then .noNumber else .infinite (f.isNegative bits) :=
  if_neg (Bool.eq_false_iff.mp h)

/-- A magnitude below infinity is the magnitude of a number. -/
theorem quantity_finite (negative : Bool) {m : Nat} (hm : m < f.infinity) :
    f.quantity (f.withSign negative m) = .finite (signed negative (f.value m)) := by
  rw [quantity_of_isFinite (isFinite_withSign negative hm),
    number_withSign negative (hm.trans f.infinity_lt_signWeight)]

/-- From infinity on, a magnitude is infinite or no number. -/
theorem quantity_of_infinity_le (negative : Bool) {m : Nat} (hle : f.infinity ≤ m)
    (hlt : m < f.signWeight) : f.quantity (f.withSign negative m) =
      if f.infinity < m then .noNumber else .infinite negative := by
  have hfinite : f.isFinite (f.withSign negative m) = false := by
    unfold isFinite
    rw [magnitude_withSign negative hlt]
    exact decide_eq_false hle.not_gt
  rw [quantity_of_not_isFinite hfinite, isNaN, magnitude_withSign negative hlt,
    isNegative_withSign negative hlt]
  exact if_congr decide_eq_true_iff rfl rfl

theorem quantity_infinity (negative : Bool) :
    f.quantity (f.withSign negative f.infinity) = .infinite negative := by
  rw [quantity_of_infinity_le negative le_rfl f.infinity_lt_signWeight, if_neg (lt_irrefl _)]

/-- **Widening keeps what a pattern stands for.** -/
theorem Widens.quantity_convert (h : f.Widens g) (bits : Nat) :
    g.quantity (f.convert g bits) = f.quantity bits := by
  -- Finite numbers keep their value; the others keep being infinite or no number.
  cases hbits : f.isFinite bits with
  | true =>
    obtain ⟨m, hm, hvalue, hconvert⟩ := h.convert_eq hbits
    rw [hconvert, quantity_finite _ hm, hvalue, quantity_of_isFinite hbits]
    rfl
  | false =>
    obtain ⟨m, hle, hlt, hnan, hconvert⟩ := convert_of_not_isFinite h.wide hbits
    rw [hconvert, quantity_of_infinity_le _ hle hlt, quantity_of_not_isFinite hbits]
    exact if_congr hnan rfl rfl

/-! ### Unpacked forms -/

section Unpacked

open Float.Model (UnpackedFloat)
open Float.Model.UnpackedFloat

variable {S : Float.Model.Format} {u v : UnpackedFloat}

/-- What an unpacked form stands for. -/
def meaning : UnpackedFloat → Quantity
  | .notANumber => .noNumber
  | .infinity sign => .infinite (isMinus sign)
  | .zero _ => .finite 0
  | .finite sign m e _ => .finite (signed (isMinus sign) (m * 2 ^ e))

/-- An unpacked number stands for itself, zero included. -/
theorem meaning_unpacked (sign : Sign) (m : Nat) (e : Int) :
    meaning (unpacked sign m e) = .finite (signed (isMinus sign) (m * 2 ^ e)) := by
  rcases Nat.eq_zero_or_pos m with rfl | hm
  · rw [Nat.cast_zero, zero_mul, signed_zero]
    rfl
  · rw [unpacked_of_pos hm]
    rfl

/-- **The unpacked forms of patterns.** -/
inductive Canonical (S : Float.Model.Format) : UnpackedFloat → Prop where
  | notANumber : Canonical S .notANumber
  | infinity (sign : Sign) : Canonical S (.infinity sign)
  | unpacked (sign : Sign) {s k : Nat} (hnormal : (ofModel S).IsNormal s k)
      (hfinite : k * 2 ^ (ofModel S).fractionBits + s < (ofModel S).infinity) :
      Canonical S (unpacked sign s ((ofModel S).leastExponent + k))

theorem abs_unpacked (sign : Sign) (m : Nat) (e : Int) :
    (Format.unpacked sign m e).abs = Format.unpacked .positive m e := by
  rcases Nat.eq_zero_or_pos m with rfl | hm
  · rfl
  · rw [unpacked_of_pos hm, unpacked_of_pos hm]
    rfl

theorem neg_unpacked (sign : Sign) (m : Nat) (e : Int) :
    (Format.unpacked sign m e).neg = Format.unpacked (-sign) m e := by
  rcases Nat.eq_zero_or_pos m with rfl | hm
  · rfl
  · rw [unpacked_of_pos hm, unpacked_of_pos hm]
    rfl

/-- Taking the absolute value of a canonical form leaves it canonical. -/
theorem Canonical.abs (h : Canonical S u) :
    Canonical S u.abs ∧ meaning u.abs = (meaning u).abs := by
  cases h with
  | notANumber => exact ⟨.notANumber, rfl⟩
  | infinity sign => exact ⟨.infinity .positive, rfl⟩
  | @unpacked sign s k hnormal hfinite =>
    rw [abs_unpacked, meaning_unpacked, meaning_unpacked]
    refine ⟨.unpacked .positive hnormal hfinite, congrArg Quantity.finite ?_⟩
    have hnonneg := mul_nonneg (Nat.cast_nonneg s) (two_zpow_pos ((ofModel S).leastExponent + k)).le
    cases sign with
    | negative => exact ((abs_neg _).trans (abs_of_nonneg hnonneg)).symm
    | positive => exact (abs_of_nonneg hnonneg).symm

/-- **Packing a canonical form** keeps what it stands for. -/
theorem quantity_pack (hS : (ofModel S).Proper) (h : Canonical S u) :
    (ofModel S).quantity (pack S u).toNat = meaning u := by
  cases h with
  | notANumber =>
    -- No number is packed as one bit of the fraction, which lies between infinity and the sign.
    have hlt : 2 ^ (S.mantissaBitsWithoutImplicit - 1) < 2 ^ S.mantissaBitsWithoutImplicit :=
      Nat.pow_lt_pow_right one_lt_two (Nat.sub_lt S.hm one_pos)
    have hbit : (1#S.mantissaBitsWithoutImplicit <<< (S.mantissaBitsWithoutImplicit - 1)).toNat =
        2 ^ (S.mantissaBitsWithoutImplicit - 1) := by
      rw [BitVec.toNat_shiftLeft, BitVec.toNat_ofNat,
        Nat.mod_eq_of_lt (Nat.one_lt_two_pow S.hm.ne'),
        Nat.shiftLeft_eq, Nat.one_mul, Nat.mod_eq_of_lt hlt]
    have hquiet : (pack S .notANumber).toNat = (ofModel S).withSign false
        ((ofModel S).infinity + 2 ^ (S.mantissaBitsWithoutImplicit - 1)) := by
      change (packComponents S .positive (-1#_)
        (1#_ <<< (S.mantissaBitsWithoutImplicit - 1))).toNat = _
      rw [toNat_packComponents, BitVec.neg_one_eq_allOnes, BitVec.toNat_allOnes, hbit]
      rfl
    rw [hquiet, quantity_of_infinity_le false (Nat.le_add_right _ _),
      if_pos (Nat.lt_add_of_pos_right (Nat.two_pow_pos _))]
    · rfl
    · rw [← infinity_add]
      exact Nat.add_lt_add_left hlt _
  | infinity sign =>
    change (ofModel S).quantity (packedInfinity S sign).toNat = _
    rw [toNat_packedInfinity, quantity_infinity]
    rfl
  | unpacked sign hnormal hfinite =>
    rw [toNat_pack_unpacked hS sign hnormal, min_eq_right hfinite.le, quantity_finite _ hfinite,
      value_eq hnormal, meaning_unpacked]

/-- The fields of what is no finite number: the exponent is full, and the fraction tells the
rest. -/
theorem fields_of_not_isFinite {b : BitVec S.numBits} (hb : (ofModel S).isFinite b.toNat = false) :
    unpackExponent b = -1#_ ∧
      (ofModel S).magnitude b.toNat = (ofModel S).infinity + (unpackMantissa b).toNat := by
  have hlarge : (ofModel S).infinity ≤ (ofModel S).magnitude b.toNat :=
    Nat.not_lt.mp (of_decide_eq_false hb)
  have hmantissa : (unpackMantissa b).toNat < 2 ^ (ofModel S).fractionBits :=
    (unpackMantissa b).isLt
  -- A magnitude from infinity on leaves nothing but the last exponent.
  have hexponent : (unpackExponent b).toNat = 2 ^ (ofModel S).exponentBits - 1 := by
    have hlt : (unpackExponent b).toNat < 2 ^ (ofModel S).exponentBits := (unpackExponent b).isLt
    rw [magnitude_eq_fields, infinity_eq] at hlarge
    have hle : (2 ^ (ofModel S).exponentBits - 1) * 2 ^ (ofModel S).fractionBits <
        ((unpackExponent b).toNat + 1) * 2 ^ (ofModel S).fractionBits := by
      rw [Nat.succ_mul]
      omega
    have := Nat.lt_of_mul_lt_mul_right hle
    omega
  refine ⟨BitVec.eq_of_toNat_eq ?_, by rw [magnitude_eq_fields, hexponent, infinity_eq]⟩
  rw [BitVec.neg_one_eq_allOnes, BitVec.toNat_allOnes]
  exact hexponent

/-- **Unpacking a pattern** gives a canonical form that stands for the same. -/
theorem canonical_unpack (b : BitVec S.numBits) :
    Canonical S (unpack S b) ∧ meaning (unpack S b) = (ofModel S).quantity b.toNat := by
  cases hb : (ofModel S).isFinite b.toNat with
  | true =>
    obtain ⟨sign, s, k, hsign, hnormal, hmagnitude, hunpack⟩ := unpack_eq hb
    have hfinite : (ofModel S).magnitude b.toNat < (ofModel S).infinity := of_decide_eq_true hb
    rw [hunpack, meaning_unpacked, quantity_of_isFinite hb, number, hmagnitude,
      value_eq hnormal, hsign]
    exact ⟨.unpacked sign hnormal (hmagnitude ▸ hfinite), rfl⟩
  | false =>
    obtain ⟨hexponent, hmagnitude⟩ := fields_of_not_isFinite hb
    rw [quantity_of_not_isFinite hb, isNaN, hmagnitude, ← isMinus_unpackSign]
    unfold unpack
    dsimp only
    rw [if_pos hexponent]
    by_cases hzero : unpackMantissa b = 0#_
    · rw [if_pos hzero, hzero, BitVec.toNat_zero, Nat.add_zero, decide_eq_false (lt_irrefl _)]
      exact ⟨.infinity _, rfl⟩
    · have hpos : 0 < (unpackMantissa b).toNat :=
        Nat.pos_of_ne_zero fun h => hzero (BitVec.toNat_inj.mp h)
      rw [if_neg hzero, decide_eq_true (Nat.lt_add_of_pos_right hpos)]
      exact ⟨.notANumber, rfl⟩

/-! ### The order -/

/-- A binade lies below the next one. -/
theorem IsNormal.lt_of_steps {s k s' k' : Nat} (h : f.IsNormal s k) (h' : f.IsNormal s' k')
    (hk : k < k') : (s : ℚ) * 2 ^ (f.leastExponent + k) < s' * 2 ^ (f.leastExponent + k') := by
  have hs : (s : ℚ) < 2 * 2 ^ f.fractionBits := by exact_mod_cast h.lt
  have hs' : (2 : ℚ) ^ f.fractionBits ≤ s' := by exact_mod_cast h'.le (by omega)
  have hstep : 2 * (2 : ℚ) ^ (f.leastExponent + k) ≤ 2 ^ (f.leastExponent + k') := by
    rw [← zpow_one_add₀ two_ne_zero, two_zpow_le_iff]
    omega
  -- A significand is less than twice the least one that has its highest bit, and a step doubles.
  calc (s : ℚ) * 2 ^ (f.leastExponent + k)
      < 2 * 2 ^ f.fractionBits * 2 ^ (f.leastExponent + k) :=
        mul_lt_mul_of_pos_right hs (two_zpow_pos _)
    _ = 2 ^ f.fractionBits * (2 * 2 ^ (f.leastExponent + k)) := by ring
    _ ≤ s' * 2 ^ (f.leastExponent + k') :=
        mul_le_mul hs' hstep (mul_nonneg two_pos.le (two_zpow_pos _).le) (Nat.cast_nonneg _)

/-- **Numbers are ordered** by their steps and then by their significands. -/
theorem IsNormal.lt_iff {s k s' k' : Nat} (h : f.IsNormal s k) (h' : f.IsNormal s' k') :
    (s : ℚ) * 2 ^ (f.leastExponent + k) < s' * 2 ^ (f.leastExponent + k') ↔
      k < k' ∨ k = k' ∧ s < s' := by
  rcases lt_trichotomy k k' with hk | rfl | hk
  · exact iff_of_true (h.lt_of_steps h' hk) (.inl hk)
  · rw [mul_lt_mul_iff_left₀ (two_zpow_pos _), Nat.cast_lt]
    simp
  · exact iff_of_false (h'.lt_of_steps h hk).not_gt (by omega)

/-- Comparing exponents first and mantissas second. -/
theorem then_compare_eq_lt {k k' s s' : Nat} (e : Int) :
    (compare (e + k) (e + k')).then (compare s s') = .lt ↔ k < k' ∨ k = k' ∧ s < s' := by
  rw [Ordering.then_eq_lt, Int.compare_eq_lt, Nat.compare_eq_lt, compare_eq_iff_eq]
  omega

theorem lt_eq_true_iff (u v : UnpackedFloat) : u.lt v = true ↔ u.compare v = some .lt :=
  beq_iff_eq

/-- Numbers are compared by their signs, and then field by field. -/
theorem lt_unpacked (sign sign' : Sign) {s k s' k' : Nat} (h : f.IsNormal s k)
    (h' : f.IsNormal s' k') : UnpackedFloat.lt (unpacked sign s (f.leastExponent + k))
        (unpacked sign' s' (f.leastExponent + k')) = true ↔
      signed (isMinus sign) (s * 2 ^ (f.leastExponent + k)) <
        signed (isMinus sign') (s' * 2 ^ (f.leastExponent + k')) := by
  -- The zeros go first, as they have no exponent to compare; then come the four pairs of signs.
  rw [lt_eq_true_iff]
  have hpositive {s : Nat} (hs : 0 < s) (k : Nat) : (0 : ℚ) < s * 2 ^ (f.leastExponent + k) :=
    mul_pos (Nat.cast_pos.mpr hs) (two_zpow_pos _)
  rcases Nat.eq_zero_or_pos s with rfl | hs
  · rw [Nat.cast_zero, zero_mul, signed_zero]
    rcases Nat.eq_zero_or_pos s' with rfl | hs'
    · rw [Nat.cast_zero, zero_mul, signed_zero]
      exact iff_of_false nofun (lt_irrefl _)
    · rw [unpacked_of_pos hs']
      cases sign' with
      | negative => exact iff_of_false nofun (neg_nonpos.mpr (hpositive hs' k').le).not_gt
      | positive => exact iff_of_true rfl (hpositive hs' k')
  · rw [unpacked_of_pos hs]
    rcases Nat.eq_zero_or_pos s' with rfl | hs'
    · rw [Nat.cast_zero, zero_mul, signed_zero]
      cases sign with
      | negative => exact iff_of_true rfl (neg_lt_zero.mpr (hpositive hs k))
      | positive => exact iff_of_false nofun (hpositive hs k).not_gt
    · rw [unpacked_of_pos hs']
      cases sign with
      | negative =>
        cases sign' with
        | negative =>
          -- Below zero the larger magnitude is the smaller number, so everything is turned around.
          have hswap : ((compare (f.leastExponent + k) (f.leastExponent + k')).then
              (compare s s')).swap =
              (compare (f.leastExponent + k') (f.leastExponent + k)).then (compare s' s) := by
            rw [Ordering.swap_then, Int.compare_swap, Nat.compare_swap]
          refine Option.some_inj.trans ?_
          rw [hswap, then_compare_eq_lt, ← h'.lt_iff h]
          exact neg_lt_neg_iff.symm
        | positive =>
          exact iff_of_true rfl ((neg_lt_zero.mpr (hpositive hs k)).trans (hpositive hs' k'))
      | positive =>
        cases sign' with
        | negative =>
          exact iff_of_false nofun
            ((neg_lt_zero.mpr (hpositive hs' k')).trans (hpositive hs k)).not_gt
        | positive => exact Option.some_inj.trans ((then_compare_eq_lt _).trans (h.lt_iff h').symm)

theorem lt_unpacked_infinity (sign sign' : Sign) (m : Nat) (e : Int) :
    UnpackedFloat.lt (unpacked sign m e) (.infinity sign') = !isMinus sign' := by
  rcases Nat.eq_zero_or_pos m with rfl | hm
  · cases sign' <;> rfl
  · rw [unpacked_of_pos hm]
    cases sign' <;> rfl

theorem lt_infinity_unpacked (sign sign' : Sign) (m : Nat) (e : Int) :
    UnpackedFloat.lt (.infinity sign) (unpacked sign' m e) = isMinus sign := by
  rcases Nat.eq_zero_or_pos m with rfl | hm
  · cases sign <;> rfl
  · rw [unpacked_of_pos hm]
    cases sign <;> rfl

theorem lt_notANumber (u : UnpackedFloat) : u.lt .notANumber = false := by
  cases u with
  | notANumber => rfl
  | infinity sign => cases sign <;> rfl
  | zero sign => rfl
  | finite sign m e hm => cases sign <;> rfl

/-- **Canonical forms are compared** as what they stand for. -/
theorem lt_canonical (hu : Canonical S u) (hv : Canonical S v) :
    u.lt v = true ↔ (meaning u).Less (meaning v) := by
  -- What is no number is below nothing, so the second operand is looked at first.
  cases hv with
  | notANumber =>
    rw [lt_notANumber]
    exact iff_of_false nofun (meaning u).not_less_noNumber
  | infinity sign' =>
    cases hu with
    | notANumber => exact iff_of_false nofun id
    | infinity sign =>
      cases sign with
      | negative =>
        cases sign' with
        | negative => exact iff_of_false nofun nofun
        | positive => exact iff_of_true rfl ⟨rfl, rfl⟩
      | positive => cases sign' <;> exact iff_of_false nofun nofun
    | unpacked sign hnormal hfinite =>
      rw [lt_unpacked_infinity, meaning_unpacked, Bool.not_eq_true']
      exact Iff.rfl
  | unpacked sign' hnormal' hfinite' =>
    rw [meaning_unpacked]
    cases hu with
    | notANumber => exact iff_of_false nofun id
    | infinity sign =>
      rw [lt_infinity_unpacked]
      exact Iff.rfl
    | unpacked sign hnormal hfinite =>
      rw [meaning_unpacked]
      exact lt_unpacked sign sign' hnormal hnormal'

/-! ### Differences -/

/-- The quantity of the patterns that are nearest to a number. -/
def nearest (f : Format) (x : ℚ) : Quantity :=
  if f.rounded x < f.infinity then .finite (signed (x < 0) (f.value (f.rounded x)))
  else .infinite (x < 0)

theorem infinity_pos (hf : f.Proper) : 0 < f.infinity := by
  obtain ⟨htwice, htwo⟩ := two_pow_exponentBits hf
  rw [infinity_eq]
  exact Nat.mul_pos (by omega) (Nat.two_pow_pos _)

@[simp] theorem value_zero (f : Format) : f.value 0 = 0 := by
  have hnormal : f.IsNormal 0 0 := ⟨by positivity, nofun⟩
  have hvalue := value_eq hnormal
  rwa [Nat.zero_mul, Nat.zero_add, Nat.cast_zero, zero_mul] at hvalue

/-- The patterns nearest to a number all stand for the same. -/
theorem IsNearest.quantity_eq (hf : f.Proper) {x : ℚ} {bits : Nat} (h : f.IsNearest x bits) :
    f.quantity bits = f.nearest x := by
  obtain ⟨negative, rfl, hsign⟩ := h
  unfold nearest
  by_cases hx : x = 0
  · -- A zero is zero with either sign.
    subst hx
    rw [rounded_zero, quantity_finite _ (infinity_pos hf), if_pos (infinity_pos hf), value_zero,
      signed_zero, signed_zero]
  · rw [hsign hx]
    split
    next hlt => exact quantity_finite _ hlt
    next hle =>
      rw [(f.rounded_le_infinity x).antisymm (Nat.not_lt.mp hle), quantity_infinity]

/-- What subtracting gives. -/
def difference (f : Format) : Quantity → Quantity → Quantity
  | .finite x, .finite y => f.nearest (x - y)
  | .finite _, .infinite negative => .infinite !negative
  | .infinite negative, .finite _ => .infinite negative
  | .infinite negative, .infinite negative' =>
    if negative = negative' then .noNumber else .infinite negative
  | .noNumber, _ => .noNumber
  | _, .noNumber => .noNumber

/-- Subtracting is adding with the sign turned. -/
theorem sub_eq_add (S : Float.Model.Format) (u v : UnpackedFloat) : sub S u v = add S u v.neg := by
  cases u with
  | finite sign m e hm =>
    cases v with
    | finite sign' m' e' hm' =>
      have happly (n : Int) : (-sign').apply n = -sign'.apply n := by
        cases sign' with
        | negative => exact (Int.neg_neg n).symm
        | positive => rfl
      change normalize S (sign.apply (decreaseExponent m e (min e e')).1 -
          sign'.apply (decreaseExponent m' e' (min e e')).1) (min e e') .positive =
        normalize S (sign.apply (decreaseExponent m e (min e e')).1 +
          (-sign').apply (decreaseExponent m' e' (min e e')).1) (min e e') .positive
      rw [happly, Int.sub_eq_add_neg]
    -- Nothing is aligned here, and the two definitions agree by their tables.
    | _ => rfl
  | _ => cases v <;> rfl

theorem sub_notANumber (S : Float.Model.Format) (u : UnpackedFloat) :
    sub S u .notANumber = .notANumber := by
  cases u <;> rfl

theorem sub_unpacked_infinity (S : Float.Model.Format) (sign sign' : Sign) (m : Nat) (e : Int) :
    sub S (unpacked sign m e) (.infinity sign') = .infinity (-sign') := by
  rcases Nat.eq_zero_or_pos m with rfl | hm
  · rfl
  · rw [unpacked_of_pos hm]
    rfl

theorem sub_infinity_unpacked (S : Float.Model.Format) (sign sign' : Sign) (m : Nat) (e : Int) :
    sub S (.infinity sign) (unpacked sign' m e) = .infinity sign := by
  rcases Nat.eq_zero_or_pos m with rfl | hm
  · rfl
  · rw [unpacked_of_pos hm]
    rfl

theorem difference_noNumber (f : Format) (p : Quantity) : f.difference p .noNumber = .noNumber := by
  cases p <;> rfl

theorem isMinus_neg (sign : Sign) : isMinus (-sign) = !isMinus sign := by
  cases sign <;> rfl

theorem abs_signed (negative : Bool) (x : ℚ) : |signed negative x| = |x| := by
  cases negative <;> simp [signed]

theorem signed_not (negative : Bool) (x : ℚ) : signed (!negative) x = -signed negative x := by
  cases negative <;> simp [signed]

/-- **The difference of canonical forms** stands for the difference of what they stand for. -/
theorem quantity_pack_sub (hS : (ofModel S).Proper) (hu : Canonical S u) (hv : Canonical S v) :
    (ofModel S).quantity (pack S (sub S u v)).toNat =
      (ofModel S).difference (meaning u) (meaning v) := by
  cases hv with
  | notANumber =>
    rw [sub_notANumber, quantity_pack hS .notANumber]
    exact (difference_noNumber _ _).symm
  | infinity sign' =>
    cases hu with
    | notANumber => exact quantity_pack hS .notANumber
    | infinity sign =>
      cases sign with
      | negative =>
        cases sign' with
        | negative => exact quantity_pack hS .notANumber
        | positive => exact quantity_pack hS (.infinity .negative)
      | positive =>
        cases sign' with
        | negative => exact quantity_pack hS (.infinity .positive)
        | positive => exact quantity_pack hS .notANumber
    | unpacked sign hnormal hfinite =>
      rw [sub_unpacked_infinity, quantity_pack hS (.infinity _), meaning_unpacked]
      exact congrArg Quantity.infinite (isMinus_neg sign')
  | unpacked sign' hnormal' hfinite' =>
    rw [meaning_unpacked]
    cases hu with
    | notANumber => exact quantity_pack hS .notANumber
    | infinity sign =>
      rw [sub_infinity_unpacked, quantity_pack hS (.infinity _)]
      rfl
    | unpacked sign hnormal hfinite =>
      -- Two finite numbers: a sum, of which rounding is known.
      rw [meaning_unpacked, sub_eq_add, neg_unpacked, (isNearest_add_unpacked hS sign (-sign')
        hnormal hnormal' hfinite hfinite').quantity_eq hS, isMinus_neg, signed_not,
        ← sub_eq_add_neg]
      rfl

/-- What was packed is unpacked as what it stood for. -/
theorem Canonical.repacked (hS : (ofModel S).Proper) (h : Canonical S u) :
    Canonical S (unpack S (pack S u)) ∧ meaning (unpack S (pack S u)) = meaning u := by
  obtain ⟨hcanonical, hmeaning⟩ := canonical_unpack (pack S u)
  exact ⟨hcanonical, hmeaning.trans (quantity_pack hS h)⟩

end Unpacked

/-! ### Numbers that are not equal -/

theorem value_nonneg (f : Format) (m : Nat) : 0 ≤ f.value m :=
  mul_nonneg (Nat.cast_nonneg _) (two_zpow_pos _).le

/-- Only zero has the value zero. -/
theorem value_pos {m : Nat} (hm : m ≠ 0) : 0 < f.value m := by
  obtain ⟨s, k, hnormal, rfl⟩ := f.exists_isNormal m
  rw [value_eq hnormal]
  exact mul_pos (Nat.cast_pos.mpr (hnormal.pos hm)) (two_zpow_pos _)

/-- Every number of a format is a multiple of its least positive one. -/
theorem exists_multiple (f : Format) (bits : Nat) :
    ∃ n : Int, f.number bits = n * 2 ^ f.leastExponent := by
  obtain ⟨s, k, hnormal, hmagnitude⟩ := f.exists_isNormal (f.magnitude bits)
  have hvalue : f.value (f.magnitude bits) = ((s * 2 ^ k : Nat) : Int) * 2 ^ f.leastExponent := by
    rw [hmagnitude, value_eq hnormal, zpow_add₀ two_ne_zero, zpow_natCast]
    push_cast
    ring
  unfold number
  rw [hvalue]
  cases f.isNegative bits with
  | true => exact ⟨-(s * 2 ^ k : Nat), by rw [Int.cast_neg, neg_mul]; rfl⟩
  | false => exact ⟨(s * 2 ^ k : Nat), rfl⟩

/-- A multiple of the least positive number is not rounded away. -/
theorem rounded_multiple_ne_zero (hf : f.Proper) {n : Nat} (hn : 0 < n) :
    f.rounded (n * 2 ^ f.leastExponent) ≠ 0 := by
  obtain ⟨hlow, hhigh⟩ := log2_bounds hn
  obtain ⟨j, hj⟩ := f.exists_steps (n.log2 + f.leastExponent)
  have hrounded : f.rounded (n * 2 ^ f.leastExponent) =
      min f.infinity (j * 2 ^ f.fractionBits + roundDiv n (2 ^ j)) := by
    refine rounded_of_log (l := n.log2 + f.leastExponent) (Nat.two_pow_pos j) ?_ ?_ hj ?_
    · rw [zpow_add₀ two_ne_zero]
      exact mul_le_mul_of_nonneg_right hlow (two_zpow_pos _).le
    · rw [add_right_comm, zpow_add₀ two_ne_zero]
      exact mul_lt_mul_of_pos_right hhigh (two_zpow_pos _)
    · rw [zpow_add₀ two_ne_zero, zpow_natCast, Nat.cast_pow, Nat.cast_ofNat,
        mul_comm ((2 : ℚ) ^ f.leastExponent), mul_div_mul_right _ _ (two_zpow_pos _).ne']
  -- On the finest grid nothing is rounded, and every coarser one begins above zero.
  have hpos : 0 < j * 2 ^ f.fractionBits + roundDiv n (2 ^ j) := by
    rcases Nat.eq_zero_or_pos j with rfl | hj
    · have hwhole : roundDiv n (2 ^ 0) = n := by simp [roundDiv, Nat.mod_one]
      omega
    · exact Nat.add_pos_left (Nat.mul_pos hj (Nat.two_pow_pos _)) _
  rw [hrounded]
  exact (lt_min (infinity_pos hf) hpos).ne'

/-- **Only equal numbers** have a difference that is rounded to zero. -/
theorem rounded_sub_eq_zero_iff (hf : f.Proper) (x y : Nat) :
    f.rounded (f.number x - f.number y) = 0 ↔ f.number x = f.number y := by
  refine ⟨fun hzero => ?_, fun heq => by rw [heq, sub_self, rounded_zero]⟩
  obtain ⟨n, hn⟩ := f.exists_multiple x
  obtain ⟨m, hm⟩ := f.exists_multiple y
  rw [hn, hm] at hzero ⊢
  rw [← sub_mul, ← Int.cast_sub] at hzero
  by_contra hne
  -- The difference is a multiple other than zero of the least number.
  have hpos : 0 < (n - m).natAbs := Int.natAbs_pos.mpr fun h => hne (by rw [sub_eq_zero.mp h])
  refine rounded_multiple_ne_zero hf hpos ?_
  rcases Int.natAbs_eq (n - m) with heq | heq
  · rwa [heq, Int.cast_natCast] at hzero
  · rwa [heq, Int.cast_neg, Int.cast_natCast, neg_mul, rounded_neg] at hzero

end Format

/-! ### Floats -/

open Format

/-- What a float stands for. -/
def Quantity.ofFloat (a : Float) : Quantity :=
  meaning a.toModel.unpack

namespace Quantity

open Float.Model.UnpackedFloat

/-- A float is kept as a pattern, so its unpacked form is canonical. -/
theorem canonical_float (a : Float) : Canonical Float.Model.Format.binary64 a.toModel.unpack :=
  (canonical_unpack (S := Float.Model.Format.binary64) a.toModel.toBits.toBitVec).1

/-- A float stands for what its pattern does. -/
theorem ofFloat_ofBits (b : UInt64) : ofFloat (Float.ofBits b) = double.quantity b.toNat := by
  obtain ⟨hcanonical, hmeaning⟩ := canonical_unpack (S := Float.Model.Format.binary64) b.toBitVec
  exact (hcanonical.repacked (S := Float.Model.Format.binary64) double_proper).2.trans hmeaning

/-- **Subtracting floats.** -/
theorem ofFloat_sub (a b : Float) : ofFloat (a - b) = double.difference (ofFloat a) (ofFloat b) :=
  (canonical_unpack (S := Float.Model.Format.binary64) _).2.trans
    (quantity_pack_sub (S := Float.Model.Format.binary64) double_proper (canonical_float a)
      (canonical_float b))

/-- **The absolute value of a float.** -/
theorem ofFloat_abs (a : Float) : ofFloat a.abs = (ofFloat a).abs := by
  obtain ⟨hcanonical, hmeaning⟩ := (canonical_float a).abs
  exact (hcanonical.repacked (S := Float.Model.Format.binary64) double_proper).2.trans hmeaning

/-- **Comparing floats.** -/
theorem lt_iff_less (a b : Float) : a < b ↔ (ofFloat a).Less (ofFloat b) := by
  refine Iff.trans ?_ (lt_canonical (canonical_float a) (canonical_float b))
  exact decide_eq_true_iff (p := a.toModel.unpack.lt b.toModel.unpack = true)

end Quantity

/-- What a number of thirty-two bits stands for. -/
def Single.quantity (x : Single) : Quantity :=
  single.quantity x.bits.toNat

/-- What a number of sixty-four bits stands for. -/
def Double.quantity (x : Double) : Quantity :=
  double.quantity x.bits.toNat

/-- Going over to sixty-four bits keeps the number. -/
theorem Single.quantity_toDouble (x : Single) : x.toDouble.quantity = x.quantity := by
  unfold Double.quantity
  rw [bits_toDouble]
  exact single_widens.quantity_convert _

/-- **Numbers are apart** if the bound is below the absolute value of their difference. -/
theorem Double.apart_iff (x y bound : Double) : apart x y bound = true ↔
    bound.quantity.Less (double.difference x.quantity y.quantity).abs := by
  -- The three operations of the comparison, from the outside to the inside.
  rw [apart, decide_eq_true_iff, Quantity.lt_iff_less, Quantity.ofFloat_abs, Quantity.ofFloat_sub,
    Quantity.ofFloat_ofBits, Quantity.ofFloat_ofBits, Quantity.ofFloat_ofBits]
  rfl

end EngineHost
