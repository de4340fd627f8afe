import EngineHost.Proofs.NumberConversions

/-!
# The arithmetic of floats

Sums of patterns are computed by the machine's floats, and what a float is in the logic is
`Float32.Model` with its unpacked form, a sign, a mantissa and an exponent. This file says what that
model does in the terms of `Format`, once for all widths.

* `Format.rounded` — the magnitude nearest to a rational number. `Format.ofRatio` gives it whatever
  the ratio is written as (`Format.ofRatio_eq_rounded`).
* `Format.Tracks` — a mantissa that is shifted to the right keeps in two bits what its remainder is,
  so rounding it is rounding the quotient.
* `Format.toNat_pack_round` — packing what was rounded gives the rounded magnitude.
* `Format.unpack_eq` — the unpacked form of a finite pattern, and back (`Format.pack_unpack`).

`Format.isNearest_add` puts these together: the sum of two finite patterns is the magnitude nearest
to the sum of their numbers, with its sign. `Single.isNearest_add` is the case of thirty-two bits.
-/

namespace EngineHost

/-! ### Rounding a rational number -/

/-- A factor common to both sides of a quotient does not change what it is rounded to. -/
theorem roundDiv_mul_right (n d : Nat) {c : Nat} (hc : 0 < c) :
    roundDiv (n * c) (d * c) = roundDiv n d := by
  have hup : d * c < 2 * (n % d * c) ↔ d < 2 * (n % d) := by
    rw [← Nat.mul_assoc, Nat.mul_lt_mul_right hc]
  have htie : 2 * (n % d * c) = d * c ↔ 2 * (n % d) = d := by
    rw [← Nat.mul_assoc, Nat.mul_right_cancel_iff hc]
  unfold roundDiv
  dsimp only
  rw [Nat.mul_div_mul_right _ _ hc, Nat.mul_mod_mul_right]
  simp only [hup, htie]

/-- Rounding sees nothing but the quotient. -/
theorem roundDiv_congr {n d n' d' : Nat} (hd : 0 < d) (hd' : 0 < d')
    (heq : (n : ℚ) / d = (n' : ℚ) / d') : roundDiv n d = roundDiv n' d' := by
  have hcross : n * d' = n' * d := by
    rw [div_eq_div_iff (by exact_mod_cast hd.ne') (by exact_mod_cast hd'.ne')] at heq
    exact_mod_cast heq
  rw [← roundDiv_mul_right n d hd', hcross, Nat.mul_comm d, roundDiv_mul_right n' d' hd]

/-- A logarithm is determined by the powers of two around it. -/
theorem ratioLog_eq {num den : Nat} {l : Int} (hden : 0 < den)
    (hlow : (2 : ℚ) ^ l ≤ (num : ℚ) / den)
    (hhigh : (num : ℚ) / den < 2 ^ (l + 1)) : ratioLog num den = l := by
  -- The two powers of two around the quotient are those around its logarithm, too.
  have hden' : (0 : ℚ) < den := by exact_mod_cast hden
  have hnum : 0 < num := by
    have hpos := (two_zpow_pos l).trans_le hlow
    rw [lt_div_iff₀ hden', zero_mul] at hpos
    exact_mod_cast hpos
  obtain ⟨hlow', hhigh'⟩ := ratioLog_bounds hnum hden
  have habove := two_zpow_lt_iff.mp (hlow.trans_lt hhigh')
  have hbelow := two_zpow_lt_iff.mp (hlow'.trans_lt hhigh)
  omega

@[simp] theorem signed_zero (negative : Bool) : signed negative 0 = 0 := by
  cases negative <;> simp [signed]

theorem signed_mul (negative : Bool) (x y : ℚ) :
    signed negative x * y = signed negative (x * y) := by
  cases negative <;> simp [signed]

namespace Format

variable {f : Format}

/-- The magnitude nearest to a rational number, whatever its sign. -/
def rounded (f : Format) (x : ℚ) : Nat :=
  f.ofRatio x.num.natAbs x.den

theorem ofRatio_le_infinity (f : Format) (num den : Nat) : f.ofRatio num den ≤ f.infinity := by
  unfold ofRatio
  split
  · exact Nat.zero_le _
  · exact min_le_left _ _

theorem rounded_le_infinity (f : Format) (x : ℚ) : f.rounded x ≤ f.infinity :=
  f.ofRatio_le_infinity _ _

@[simp] theorem rounded_zero (f : Format) : f.rounded 0 = 0 := by
  unfold rounded ofRatio
  exact if_pos rfl

@[simp] theorem rounded_neg (f : Format) (x : ℚ) : f.rounded (-x) = f.rounded x := by
  rw [rounded, rounded, Rat.num_neg_eq_neg_num, Int.natAbs_neg, Rat.den_neg_eq_den]

/-- **What rounding comes to** in the binade of a number: the quotient by the unit of its grid,
rounded. -/
theorem ofRatio_of_log {num den n d j : Nat} {l : Int} (hden : 0 < den) (hd : 0 < d)
    (hlow : (2 : ℚ) ^ l ≤ (num : ℚ) / den) (hhigh : (num : ℚ) / den < 2 ^ (l + 1))
    (hj : max (l - f.fractionBits) f.leastExponent = f.leastExponent + j)
    (hscaled : (n : ℚ) / d = (num : ℚ) / den / 2 ^ (f.leastExponent + j)) :
    f.ofRatio num den = min f.infinity (j * 2 ^ f.fractionBits + roundDiv n d) := by
  have hnum : num ≠ 0 := by
    rintro rfl
    rw [Nat.cast_zero, zero_div] at hlow
    exact absurd hlow (two_zpow_pos l).not_ge
  refine ofRatio_of_grid hnum (by rw [ratioLog_eq hden hlow hhigh, hj]) rfl ?_
  exact roundDiv_congr (scaleRatio_pos hden _ _) hd ((scaleRatio_eq _ _ _).trans hscaled.symm)

theorem natAbs_num_div_den {x : ℚ} (hx : 0 ≤ x) : (x.num.natAbs : ℚ) / x.den = x := by
  have habs : ((x.num.natAbs : Int) : ℚ) = x.num := by
    rw [Int.natAbs_of_nonneg (Rat.num_nonneg.mpr hx)]
  rw [← Int.cast_natCast, habs, Rat.num_div_den]

theorem rounded_of_log {x : ℚ} {n d j : Nat} {l : Int} (hd : 0 < d) (hlow : (2 : ℚ) ^ l ≤ x)
    (hhigh : x < 2 ^ (l + 1)) (hj : max (l - f.fractionBits) f.leastExponent = f.leastExponent + j)
    (hscaled : (n : ℚ) / d = x / 2 ^ (f.leastExponent + j)) :
    f.rounded x = min f.infinity (j * 2 ^ f.fractionBits + roundDiv n d) := by
  have hx := natAbs_num_div_den ((two_zpow_pos l).le.trans hlow)
  rw [← hx] at hlow hhigh hscaled
  exact ofRatio_of_log x.den_pos hd hlow hhigh hj hscaled

/-- The grid of a binade counts its steps from the least exponent. -/
theorem exists_steps (f : Format) (l : Int) :
    ∃ j : Nat, max (l - f.fractionBits) f.leastExponent = f.leastExponent + j :=
  ⟨(max (l - f.fractionBits) f.leastExponent - f.leastExponent).toNat, by omega⟩

/-- A ratio is rounded like the rational number that it is. -/
theorem ofRatio_eq_rounded {num den : Nat} (hden : 0 < den) :
    f.ofRatio num den = f.rounded ((num : ℚ) / den) := by
  -- Both sides are the same number on the same grid.
  by_cases hnum : num = 0
  · rw [hnum, Nat.cast_zero, zero_div, rounded_zero, ofRatio, if_pos rfl]
  obtain ⟨hlow, hhigh⟩ := ratioLog_bounds (Nat.pos_of_ne_zero hnum) hden
  obtain ⟨j, hj⟩ := f.exists_steps (ratioLog num den)
  have hpos := scaleRatio_pos hden num (f.leastExponent + j)
  rw [ofRatio_of_log hden hpos hlow hhigh hj (scaleRatio_eq _ _ _),
    rounded_of_log hpos hlow hhigh hj (scaleRatio_eq _ _ _)]

/-- Rounding a number that the format holds gives its magnitude. -/
theorem rounded_value {m : Nat} (hm : m < f.infinity) : f.rounded (f.value m) = m := by
  -- A number that the format holds is some ratio, and ratios are rounded as they are.
  have hratio : ∃ num den : Nat, 0 < den ∧ (num : ℚ) / den = f.value m := by
    refine ⟨(scaleRatio (f.parts m).1 1 (-(f.parts m).2)).1,
      (scaleRatio (f.parts m).1 1 (-(f.parts m).2)).2, scaleRatio_pos Nat.one_pos _ _, ?_⟩
    rw [scaleRatio_eq, Nat.cast_one, div_one, zpow_neg, div_inv_eq_mul]
    rfl
  obtain ⟨num, den, hden, hvalue⟩ := hratio
  rw [← hvalue, ← ofRatio_eq_rounded hden, ofRatio_value hden hm hvalue]

/-! ### Numbers with a sign -/

@[simp] theorem rounded_signed (f : Format) (negative : Bool) (x : ℚ) :
    f.rounded (signed negative x) = f.rounded x := by
  cases negative <;> simp [signed]

theorem number_withSign (negative : Bool) {m : Nat} (hm : m < f.signWeight) :
    f.number (f.withSign negative m) = signed negative (f.value m) := by
  rw [number, magnitude_withSign negative hm, isNegative_withSign negative hm]

/-- **A pattern that is nearest to a number**: the rounded magnitude with the sign of the number. A
zero may have either sign. -/
def IsNearest (f : Format) (x : ℚ) (bits : Nat) : Prop :=
  ∃ negative, bits = f.withSign negative (f.rounded x) ∧ (x ≠ 0 → negative = decide (x < 0))

/-- The rounded magnitude of a number, with a sign, is nearest to the number with that sign. -/
theorem isNearest_signed (f : Format) (negative : Bool) {x : ℚ} (hx : 0 ≤ x) :
    f.IsNearest (signed negative x) (f.withSign negative (f.rounded x)) := by
  refine ⟨negative, by rw [rounded_signed], fun hne => ?_⟩
  cases negative with
  | true =>
    have hpos : 0 < x := lt_of_le_of_ne hx fun h => hne (h ▸ neg_zero)
    exact (decide_eq_true (neg_lt_zero.mpr hpos)).symm
  | false => exact (decide_eq_false hx.not_gt).symm

theorem isNearest_zero (f : Format) (negative : Bool) : f.IsNearest 0 (f.withSign negative 0) :=
  ⟨negative, by rw [rounded_zero], fun hne => absurd rfl hne⟩

/-! ### Shifted mantissas -/

section Shifted

open Float.Model.UnpackedFloat

/-- **What a shifted mantissa knows** of a number that went `n` places to the right: the quotient,
and in two bits how twice the remainder compares with the divisor. -/
structure Tracks (em : ExtendedMantissa) (m n : Nat) : Prop where
  mantissa : em.mantissa = m / 2 ^ n
  roundBit : em.roundBit = true ↔ 2 ^ n ≤ 2 * (m % 2 ^ n)
  stickyBit : em.stickyBit = true ↔ 2 * (m % 2 ^ n) ≠ if em.roundBit then 2 ^ n else 0

/-- Without a shift there is no remainder. -/
theorem tracks_zero (m : Nat) : Tracks ⟨m, false, false⟩ m 0 where
  mantissa := by simp
  roundBit := by simp [Nat.mod_one]
  stickyBit := by simp [Nat.mod_one]

/-- **One place to the right.** The bits so far become what the new ones are told apart by. -/
theorem Tracks.shiftRightOne {em : ExtendedMantissa} {m n : Nat} (h : Tracks em m n) :
    Tracks em.shiftRightOne m (n + 1) := by
  have hpow : 2 ^ (n + 1) = 2 * 2 ^ n := by rw [Nat.pow_succ, Nat.mul_comm]
  have hlt : m % 2 ^ n < 2 ^ n := Nat.mod_lt m (Nat.two_pow_pos n)
  -- The bit that leaves the mantissa is the highest one of the remainder.
  have hmod : m % 2 ^ (n + 1) = m % 2 ^ n + 2 ^ n * (m / 2 ^ n % 2) := Nat.mod_pow_succ
  have hbit : m / 2 ^ n % 2 = 0 ∨ m / 2 ^ n % 2 = 1 := Nat.mod_two_eq_zero_or_one _
  have hround := h.roundBit
  have hsticky := h.stickyBit
  refine ⟨?_, ?_, ?_⟩
  · change em.mantissa / 2 = _
    rw [h.mantissa, Nat.div_div_eq_div_mul, hpow, Nat.mul_comm]
  · change (em.mantissa % 2 != 0) = true ↔ _
    rw [bne_iff_ne, h.mantissa, hmod, hpow]
    rcases hbit with hbit | hbit <;> rw [hbit] <;> omega
  · change (em.roundBit || em.stickyBit) = true ↔ 2 * (m % 2 ^ (n + 1)) ≠
      if (em.mantissa % 2 != 0) = true then 2 ^ (n + 1) else 0
    rw [Bool.or_eq_true, hsticky, h.mantissa, hmod, hpow]
    -- Four cases of two old bits, each with a half that was dropped or not.
    cases hr : em.roundBit <;> rw [hr] at hround <;> rcases hbit with hbit | hbit <;> rw [hbit] <;>
      simp at hround ⊢ <;> omega

/-- However far a mantissa is shifted, its two bits tell how the remainder compares. -/
theorem tracks_shiftRight (m n : Nat) :
    Tracks ((⟨m, false, false⟩ : ExtendedMantissa) >>> n) m n := by
  induction n with
  | zero => exact tracks_zero m
  | succ n ih => exact ih.shiftRightOne

/-- Rounding a shifted mantissa by its two bits is rounding the quotient. -/
theorem Tracks.roundedMantissa {em : ExtendedMantissa} {m n : Nat} (h : Tracks em m n) :
    em.roundedMantissa = roundDiv m (2 ^ n) := by
  have hpos : 0 < 2 ^ n := Nat.two_pow_pos n
  obtain ⟨mantissa, round, sticky⟩ := em
  obtain ⟨rfl, hround, hsticky⟩ := h
  dsimp only at hround hsticky
  unfold roundDiv
  dsimp only
  -- The two bits say whether the remainder is nothing, below the half, the half or above it.
  cases round <;> cases sticky <;> simp at hround hsticky
  · change m / 2 ^ n = _
    rw [if_neg (by omega)]
  · change m / 2 ^ n = _
    rw [if_neg (by omega)]
  · -- Just half way: the parity decides.
    change m / 2 ^ n + m / 2 ^ n % 2 = _
    split <;> omega
  · change m / 2 ^ n + 1 = _
    rw [if_pos (by omega)]

end Shifted

/-! ### Packing -/

section Packing

open Float.Model.UnpackedFloat

/-- The widths of a format of floats. -/
def ofModel (S : Float.Model.Format) : Format :=
  ⟨S.mantissaBitsWithoutImplicit, S.exponentBits⟩

/-- Is it the sign of negative numbers? -/
def isMinus : Sign → Bool
  | .negative => true
  | .positive => false

/-- An unpacked number that may be zero. -/
def unpacked (sign : Sign) (m : Nat) (e : Int) : Float.Model.UnpackedFloat :=
  if h : m = 0 then .zero sign else .finite sign m e (Nat.pos_of_ne_zero h)

variable {S : Float.Model.Format}

theorem unpacked_of_pos {sign : Sign} {m : Nat} (hm : 0 < m) (e : Int) :
    unpacked sign m e = .finite sign m e hm :=
  dif_neg hm.ne'

theorem finite_congr {sign : Sign} {m m' : Nat} {e e' : Int} (hm : 0 < m) (hm' : 0 < m')
    (h : m = m')
    (he : e = e') : Float.Model.UnpackedFloat.finite sign m e hm = .finite sign m' e' hm' := by
  subst h he
  rfl

/-- What a number other than zero is packed to. -/
theorem pack_finite (sign : Sign) {m : Nat} (e : Int) (hm : 0 < m) :
    pack S (.finite sign m e hm) =
      if 2 ^ S.exponentBits ≤ (e + S.exponentBias + S.mantissaBitsWithoutImplicit).toNat + 1 then
        packedInfinity S sign
      else if m.log2 + 1 = S.mantissaBits then
        packComponents S sign (.ofNat _ (e + S.exponentBias + S.mantissaBitsWithoutImplicit).toNat)
          (.ofNat _ m)
      else packComponents S sign 0#S.exponentBits (.ofNat _ m) :=
  rfl

theorem toNat_append {v w : Nat} (x : BitVec v) (y : BitVec w) :
    (x ++ y).toNat = x.toNat * 2 ^ w + y.toNat := by
  rw [BitVec.toNat_append, ← Nat.shiftLeft_add_eq_or_of_lt y.isLt, Nat.shiftLeft_eq]

/-- The fields of a pattern, put side by side, are its sign and its magnitude. -/
theorem toNat_packComponents (sign : Sign) (e : BitVec S.exponentBits)
    (m : BitVec S.mantissaBitsWithoutImplicit) : (packComponents S sign e m).toNat =
      (ofModel S).withSign (isMinus sign)
        (e.toNat * 2 ^ S.mantissaBitsWithoutImplicit + m.toNat) := by
  rw [packComponents, toNat_append, toNat_append]
  cases sign with
  | negative =>
    change (1 * 2 ^ S.exponentBits + e.toNat) * 2 ^ S.mantissaBitsWithoutImplicit + m.toNat =
      2 ^ (S.exponentBits + S.mantissaBitsWithoutImplicit) + _
    rw [Nat.pow_add]
    ring
  | positive =>
    change (0 * 2 ^ S.exponentBits + e.toNat) * 2 ^ S.mantissaBitsWithoutImplicit + m.toNat = _
    rw [Nat.zero_mul, Nat.zero_add]
    rfl

theorem toNat_packedZero (sign : Sign) :
    (packedZero S sign).toNat = (ofModel S).withSign (isMinus sign) 0 := by
  rw [packedZero, toNat_packComponents]
  simp

theorem toNat_packedInfinity (sign : Sign) :
    (packedInfinity S sign).toNat = (ofModel S).withSign (isMinus sign) (ofModel S).infinity := by
  rw [packedInfinity, toNat_packComponents, BitVec.neg_one_eq_allOnes, BitVec.toNat_allOnes]
  rfl

/-- The magnitudes from infinity on are those with too many steps. -/
theorem IsNormal.infinity_le_iff (hf : f.Proper) {s k : Nat} (h : f.IsNormal s k) :
    f.infinity ≤ k * 2 ^ f.fractionBits + s ↔ 2 ^ f.exponentBits ≤ k + 1 + 1 := by
  obtain ⟨htwice, htwo⟩ := two_pow_exponentBits hf
  have hlt := h.lt
  rw [infinity_eq]
  constructor
  · intro hle
    -- One step less would leave room for all of the significand below infinity.
    by_contra hsmall
    have hroom : (k + 2) * 2 ^ f.fractionBits ≤ (2 ^ f.exponentBits - 1) * 2 ^ f.fractionBits :=
      Nat.mul_le_mul_right _ (by omega)
    rw [Nat.add_mul] at hroom
    omega
  · intro hle
    have hs := h.le (by omega)
    calc (2 ^ f.exponentBits - 1) * 2 ^ f.fractionBits
        ≤ (k + 1) * 2 ^ f.fractionBits := Nat.mul_le_mul_right _ (by omega)
      _ ≤ k * 2 ^ f.fractionBits + s := by rw [Nat.succ_mul]; omega

/-- **Packing** puts the steps and the significand together, or gives infinity. -/
theorem toNat_pack_unpacked (hS : (ofModel S).Proper) (sign : Sign) {s k : Nat}
    (h : (ofModel S).IsNormal s k) :
    (pack S (unpacked sign s ((ofModel S).leastExponent + k))).toNat =
      (ofModel S).withSign (isMinus sign)
        (min (ofModel S).infinity (k * 2 ^ (ofModel S).fractionBits + s)) := by
  obtain ⟨htwice, htwo⟩ := two_pow_exponentBits hS
  have hlt := h.lt
  rcases Nat.eq_zero_or_pos s with rfl | hpos
  · obtain rfl : k = 0 := h.steps_eq_zero (by positivity)
    change (packedZero S sign).toNat = _
    rw [toNat_packedZero]
    simp
  -- The exponent field counts from one, for the numbers that have their highest bit.
  have hbiased : ((ofModel S).leastExponent + k + S.exponentBias +
      S.mantissaBitsWithoutImplicit).toNat = k + 1 := by
    have hbias : (S.exponentBias : Int) = (2 ^ ((ofModel S).exponentBits - 1) : Nat) - 1 := by
      change ((2 ^ ((ofModel S).exponentBits - 1) - 1 : Nat) : Int) = _
      omega
    have hfraction : S.mantissaBitsWithoutImplicit = (ofModel S).fractionBits := rfl
    rw [leastExponent_eq, hbias, hfraction]
    omega
  -- A significand has its highest bit just where it is as long as a mantissa can be.
  have hhighest : s.log2 + 1 = S.mantissaBits ↔ 2 ^ (ofModel S).fractionBits ≤ s := by
    have hlog : s.log2 < (ofModel S).fractionBits + 1 := by
      rw [Nat.log2_lt hpos.ne', Nat.pow_succ, Nat.mul_comm]
      exact hlt
    rw [← Nat.le_log2 hpos.ne']
    change s.log2 + 1 = 1 + (ofModel S).fractionBits ↔ _
    omega
  rw [unpacked_of_pos hpos, pack_finite, hbiased]
  by_cases hlarge : 2 ^ S.exponentBits ≤ k + 1 + 1
  · rw [if_pos hlarge, toNat_packedInfinity, min_eq_left ((h.infinity_le_iff hS).mpr hlarge)]
  rw [if_neg hlarge, min_eq_right (Nat.not_le.mp (mt (h.infinity_le_iff hS).mp hlarge)).le]
  by_cases hnormal : 2 ^ (ofModel S).fractionBits ≤ s
  · -- The highest bit of the significand is the one that the exponent field counts.
    obtain ⟨r, rfl⟩ := Nat.exists_eq_add_of_le hnormal
    have hexponent : (k + 1) % 2 ^ S.exponentBits = k + 1 := Nat.mod_eq_of_lt (by omega)
    have hmantissa : (2 ^ (ofModel S).fractionBits + r) % 2 ^ S.mantissaBitsWithoutImplicit = r :=
      (Nat.add_mod_left _ _).trans (Nat.mod_eq_of_lt (by omega))
    rw [if_pos (hhighest.mpr hnormal), toNat_packComponents, BitVec.toNat_ofNat, BitVec.toNat_ofNat,
      hexponent, hmantissa]
    congr 1
    change (k + 1) * 2 ^ (ofModel S).fractionBits + r = _
    ring
  · -- Without its highest bit the number is below all binades, where there are no steps.
    obtain rfl : k = 0 := h.steps_eq_zero (Nat.not_le.mp hnormal)
    have hmantissa : s % 2 ^ S.mantissaBitsWithoutImplicit = s :=
      Nat.mod_eq_of_lt (Nat.not_le.mp hnormal)
    rw [if_neg (mt hhighest.mp hnormal), toNat_packComponents, BitVec.toNat_ofNat,
      BitVec.toNat_ofNat, hmantissa]
    simp

/-! ### Rounding an unpacked number -/

/-- The exponent that a mantissa is brought to is the grid of its binade. -/
theorem targetExponent_eq (S : Float.Model.Format) (m : Nat) (e : Int) :
    S.targetExponent (Float.Model.totalExponent m e) =
      max (m.log2 + e - (ofModel S).fractionBits) (ofModel S).leastExponent := by
  have hleast : S.minExponent = (ofModel S).leastExponent := by
    change (3 : Int) - 2 ^ (S.exponentBits - 1) - (1 + S.mantissaBitsWithoutImplicit : Nat) =
      2 - ((2 ^ (S.exponentBits - 1) : Nat) : Int) - S.mantissaBitsWithoutImplicit
    push_cast
    ring
  have htotal : Float.Model.totalExponent m e - S.mantissaBits =
      m.log2 + e - (ofModel S).fractionBits := by
    change (m.log2 + 1 + e : Int) - (1 + S.mantissaBitsWithoutImplicit : Nat) =
      m.log2 + e - S.mantissaBitsWithoutImplicit
    push_cast
    ring
  rw [Float.Model.Format.targetExponent, hleast, htotal]

/-- A rounded significand that has become too long is shifted once more; the steps take the
carry. -/
theorem carried (f : Format) {s j : Nat} (hs : s ≤ 2 * 2 ^ f.fractionBits)
    (hj : 0 < j → 2 ^ f.fractionBits ≤ s) :
    ∃ d, (max (s.log2 + (f.leastExponent + j) - f.fractionBits) f.leastExponent -
        (f.leastExponent + j)).toNat = d ∧ f.IsNormal (s / 2 ^ d) (j + d) ∧
      (j + d) * 2 ^ f.fractionBits + s / 2 ^ d = j * 2 ^ f.fractionBits + s := by
  -- Only a significand that has become a power of two is too long.
  rcases hs.lt_or_eq with hlt | rfl
  · have hlog : s.log2 ≤ f.fractionBits := by
      by_cases hzero : s = 0
      · rw [hzero]
        exact Nat.zero_le _
      · rw [← Nat.lt_succ_iff, Nat.log2_lt hzero, Nat.pow_succ, Nat.mul_comm]
        exact hlt
    refine ⟨0, by omega, ?_, ?_⟩
    · rw [Nat.pow_zero, Nat.div_one]
      exact ⟨hlt, hj⟩
    · rw [Nat.pow_zero, Nat.div_one, Nat.add_zero]
  · have hlog : (2 * 2 ^ f.fractionBits).log2 = f.fractionBits + 1 := by
      rw [Nat.mul_comm, ← Nat.pow_succ, Nat.log2_two_pow]
    have hhalf : 2 * 2 ^ f.fractionBits / 2 ^ 1 = 2 ^ f.fractionBits := by
      rw [Nat.pow_one, Nat.mul_div_cancel_left _ two_pos]
    have hpos : 0 < 2 ^ f.fractionBits := Nat.two_pow_pos _
    refine ⟨1, by omega, ?_, ?_⟩
    · rw [hhalf]
      exact ⟨by omega, fun _ => le_rfl⟩
    · rw [hhalf]
      ring

/-- Bringing a mantissa to an exponent divides it, and rounds it by what the division leaves. -/
theorem shiftToExponent_exact (m : Nat) (e t : Int) :
    (shiftToExponent m e .exact t).1.mantissa = m / 2 ^ (t - e).toNat ∧
      (shiftToExponent m e .exact t).1.roundedMantissa = roundDiv m (2 ^ (t - e).toNat) ∧
      (shiftToExponent m e .exact t).2 = e + (t - e).toNat := by
  have htracks := tracks_shiftRight m (t - e).toNat
  exact ⟨htracks.mantissa, htracks.roundedMantissa, rfl⟩

/-- A mantissa of its binade is rounded to a significand, or to the power of two behind them. -/
theorem roundDiv_le_of_log {m d : Nat} (h : m.log2 ≤ f.fractionBits + d) :
    roundDiv m (2 ^ d) ≤ 2 * 2 ^ f.fractionBits := by
  have hpos : (0 : ℚ) < (2 ^ d : Nat) := by exact_mod_cast Nat.two_pow_pos d
  refine roundDiv_le (Nat.two_pow_pos d) ?_
  rw [div_lt_iff₀ hpos]
  have hlt : m < 2 * 2 ^ f.fractionBits * 2 ^ d := by
    calc m < 2 ^ (m.log2 + 1) := Nat.lt_log2_self
      _ ≤ 2 ^ (f.fractionBits + d + 1) := Nat.pow_le_pow_right two_pos (by omega)
      _ = 2 * 2 ^ f.fractionBits * 2 ^ d := by ring
  exact_mod_cast hlt

/-- A mantissa of its binade keeps its highest bit in rounding. -/
theorem le_roundDiv_of_log {m d : Nat} (hm : 0 < m) (h : f.fractionBits + d ≤ m.log2) :
    2 ^ f.fractionBits ≤ roundDiv m (2 ^ d) := by
  have hle : 2 ^ f.fractionBits ≤ m / 2 ^ d := by
    rw [Nat.le_div_iff_mul_le (Nat.two_pow_pos d), ← Nat.pow_add, ← Nat.le_log2 hm.ne']
    exact h
  unfold roundDiv
  dsimp only
  split <;> omega

/-- The steps of rounding: to the grid, and a second time for the carry. -/
theorem roundWithAccuracy_eq (sign : Sign) (m : Nat) (e : Int) :
    roundWithAccuracy S sign m e .exact =
      let first := shiftToExponent m e .exact (S.targetExponent (Float.Model.totalExponent m e))
      let second := shiftToExponent first.1.roundedMantissa first.2 .exact
        (S.targetExponent (Float.Model.totalExponent first.1.roundedMantissa first.2))
      unpacked sign second.1.mantissa second.2 :=
  rfl

/-- **Rounding an unpacked number** on the grid of its binade. -/
theorem roundWithAccuracy_exact (sign : Sign) {m : Nat} {e : Int} {d j : Nat} (hm : 0 < m)
    (hgrid : max (m.log2 + e - (ofModel S).fractionBits) (ofModel S).leastExponent =
      (ofModel S).leastExponent + j) (hd : e + d = (ofModel S).leastExponent + j) :
    ∃ s k, (ofModel S).IsNormal s k ∧
      k * 2 ^ (ofModel S).fractionBits + s = j * 2 ^ (ofModel S).fractionBits + roundDiv m (2 ^ d) ∧
      roundWithAccuracy S sign m e .exact = unpacked sign s ((ofModel S).leastExponent + k) := by
  -- The first shift rounds to the grid; the second one takes the carry, if there is one.
  have hs := roundDiv_le_of_log (f := ofModel S) (m := m) (d := d) (by omega)
  have hhighest : 0 < j → 2 ^ (ofModel S).fractionBits ≤ roundDiv m (2 ^ d) :=
    fun hj => le_roundDiv_of_log hm (by omega)
  obtain ⟨c, hc, hnormal, hcarry⟩ := carried (ofModel S) hs hhighest
  refine ⟨_, _, hnormal, hcarry, ?_⟩
  obtain ⟨-, hrounded, hexponent⟩ := shiftToExponent_exact m e ((ofModel S).leastExponent + j)
  have hshift : ((ofModel S).leastExponent + j - e).toNat = d := by omega
  rw [hshift] at hrounded hexponent
  rw [hd] at hexponent
  obtain ⟨hmantissa, -, hlast⟩ := shiftToExponent_exact (roundDiv m (2 ^ d))
    ((ofModel S).leastExponent + j)
      (max ((roundDiv m (2 ^ d)).log2 + ((ofModel S).leastExponent + j) -
      (ofModel S).fractionBits) (ofModel S).leastExponent)
  rw [hc] at hmantissa hlast
  rw [roundWithAccuracy_eq]
  dsimp only
  rw [targetExponent_eq, hgrid, hrounded, hexponent, targetExponent_eq]
  rw [hmantissa, hlast, Int.add_assoc, ← Int.natCast_add]

/-- Appending zeros adds to the length. -/
theorem log2_shiftLeft {m : Nat} (hm : 0 < m) (a : Nat) : (m <<< a).log2 = m.log2 + a := by
  have hpos : 0 < m <<< a := by
    rw [Nat.shiftLeft_eq]
    exact Nat.mul_pos hm (Nat.two_pow_pos a)
  rw [Nat.log2_eq_iff hpos.ne', Nat.shiftLeft_eq, Nat.pow_add, Nat.add_right_comm, Nat.pow_add]
  exact ⟨Nat.mul_le_mul_right _ (Nat.log2_self_le hm.ne'),
    Nat.mul_lt_mul_of_pos_right Nat.lt_log2_self (Nat.two_pow_pos a)⟩

/-- Lowering an exponent keeps the number. -/
theorem decreaseExponent_value (m : Nat) (e t : Int) :
    ((decreaseExponent m e t).1 : ℚ) * 2 ^ (decreaseExponent m e t).2 = m * 2 ^ e := by
  change ((m <<< (e - t).toNat : Nat) : ℚ) * 2 ^ (e - ((e - t).toNat : Int)) = _
  rw [Nat.shiftLeft_eq, Nat.cast_mul, Nat.cast_pow, Nat.cast_ofNat, mul_assoc, ← zpow_natCast,
    ← zpow_add₀ two_ne_zero]
  congr 2
  ring

/-- **Packing what was rounded** gives the nearest magnitude. -/
theorem toNat_pack_round (hS : (ofModel S).Proper) (sign : Sign) {m : Nat} (hm : 0 < m) (e : Int) :
    (pack S (Float.Model.UnpackedFloat.round S sign m e)).toNat =
      (ofModel S).withSign (isMinus sign) ((ofModel S).rounded (m * 2 ^ e)) := by
  obtain ⟨hlow, hhigh⟩ := log2_bounds hm
  -- The mantissa may have been given with an exponent above the grid, so it is lowered first.
  obtain ⟨j, hj⟩ := (ofModel S).exists_steps (m.log2 + e)
  obtain ⟨m', hm'⟩ : ∃ m', m' = (decreaseExponent m e ((ofModel S).leastExponent + j)).1 := ⟨_, rfl⟩
  obtain ⟨e', he'⟩ : ∃ e', e' = (decreaseExponent m e ((ofModel S).leastExponent + j)).2 := ⟨_, rfl⟩
  have hround : Float.Model.UnpackedFloat.round S sign m e =
      roundWithAccuracy S sign m' e' .exact := by
    rw [Float.Model.UnpackedFloat.round, targetExponent_eq, hj, hm', he']
  have hvalue : (m' : ℚ) * 2 ^ e' = m * 2 ^ e := by
    rw [hm', he', decreaseExponent_value]
  -- Afterwards the exponent is at the grid or below it, and the binade is the same.
  have hlog : (m'.log2 : Int) + e' = m.log2 + e := by
    rw [hm', he']
    change ((m <<< (e - ((ofModel S).leastExponent + j)).toNat).log2 : Int) +
      (e - ((e - ((ofModel S).leastExponent + j)).toNat : Int)) = _
    rw [log2_shiftLeft hm]
    omega
  have hpos : 0 < m' := by
    have hpositive : (0 : ℚ) < m' * 2 ^ e' := by
      rw [hvalue]
      exact mul_pos (by exact_mod_cast hm) (two_zpow_pos e)
    exact_mod_cast pos_of_mul_pos_left hpositive (two_zpow_pos e').le
  obtain ⟨d, hd⟩ : ∃ d : Nat, e' + d = (ofModel S).leastExponent + j := by
    refine ⟨((ofModel S).leastExponent + j - e').toNat, ?_⟩
    have hle : e' = e - ((e - ((ofModel S).leastExponent + j)).toNat : Int) := he'
    omega
  obtain ⟨s, k, hnormal, hsum, heq⟩ :=
    roundWithAccuracy_exact sign hpos (by rw [hlog, hj]) hd
  rw [hround, heq, toNat_pack_unpacked hS sign hnormal, hsum]
  congr 1
  refine (rounded_of_log (l := m.log2 + e) (Nat.two_pow_pos d) ?_ ?_ hj ?_).symm
  · rw [zpow_add₀ two_ne_zero]
    exact mul_le_mul_of_nonneg_right hlow (two_zpow_pos e).le
  · rw [add_right_comm, zpow_add₀ two_ne_zero]
    exact mul_lt_mul_of_pos_right hhigh (two_zpow_pos e)
  · rw [← hvalue, ← hd, zpow_add₀ two_ne_zero, zpow_natCast, Nat.cast_pow, Nat.cast_ofNat,
      mul_comm (2 ^ e' : ℚ), mul_div_mul_right _ _ (two_zpow_pos e').ne']

/-- **Packing a mantissa with a sign** gives the nearest pattern. -/
theorem isNearest_normalize (hS : (ofModel S).Proper) (m e : Int) (zeroSign : Sign) :
    (ofModel S).IsNearest (m * 2 ^ e)
      (pack S (Float.Model.UnpackedFloat.normalize S m e zeroSign)).toNat := by
  have hrounded (sign : Sign) {n : Nat} (hn : 0 < n) : (ofModel S).IsNearest
      (signed (isMinus sign) (n * 2 ^ e))
        (pack S (Float.Model.UnpackedFloat.round S sign n e)).toNat := by
    rw [toNat_pack_round hS sign hn]
    exact isNearest_signed _ _ (mul_nonneg (Nat.cast_nonneg _) (two_zpow_pos _).le)
  -- The sign goes to the pattern, and the magnitude is rounded; a zero has the sign that is asked
  -- for.
  rcases lt_trichotomy m 0 with hneg | rfl | hpos
  · obtain ⟨n, hn, rfl⟩ : ∃ n : Nat, 0 < n ∧ m = -(n : Int) := ⟨m.natAbs, by omega, by omega⟩
    rw [Float.Model.UnpackedFloat.normalize, Int.compare_eq_lt.mpr hneg, Int.cast_neg,
      Int.cast_natCast, neg_mul]
    dsimp only
    rw [Int.neg_neg, Int.toNat_natCast]
    exact hrounded .negative hn
  · rw [Int.cast_zero, zero_mul]
    change (ofModel S).IsNearest 0 (packedZero S zeroSign).toNat
    rw [toNat_packedZero]
    exact isNearest_zero _ _
  · obtain ⟨n, hn, rfl⟩ : ∃ n : Nat, 0 < n ∧ m = n := ⟨m.natAbs, by omega, by omega⟩
    rw [Float.Model.UnpackedFloat.normalize, Int.compare_eq_gt.mpr hpos, Int.cast_natCast]
    dsimp only
    rw [Int.toNat_natCast]
    exact hrounded .positive hn

/-! ### Unpacking -/

section Fields

variable (b : BitVec S.numBits)

/-- The lowest bits are the mantissa. -/
theorem toNat_unpackMantissa :
    (unpackMantissa b).toNat = b.toNat % 2 ^ (ofModel S).fractionBits := by
  have hwidth : S.mantissaBitsWithoutImplicit - 1 - 0 + 1 = S.mantissaBitsWithoutImplicit := by
    have := S.hm
    omega
  rw [unpackMantissa, BitVec.toNat_cast, BitVec.extractLsb_toNat, hwidth, Nat.shiftRight_zero]
  rfl

/-- The bits above the mantissa are the exponent. -/
theorem toNat_unpackExponent : (unpackExponent b).toNat =
    b.toNat / 2 ^ (ofModel S).fractionBits % 2 ^ (ofModel S).exponentBits := by
  have hwidth : S.mantissaBitsWithoutImplicit + S.exponentBits - 1 -
      S.mantissaBitsWithoutImplicit + 1 = S.exponentBits := by
    have := S.he
    omega
  rw [unpackExponent, BitVec.toNat_cast, BitVec.extractLsb_toNat, hwidth, Nat.shiftRight_eq_div_pow]
  rfl

theorem toNat_lt_signWeight : b.toNat < 2 * (ofModel S).signWeight := by
  have hlt : b.toNat < 2 ^ (1 + S.exponentBits + S.mantissaBitsWithoutImplicit) := b.isLt
  rwa [Nat.add_assoc, Nat.pow_add, Nat.pow_one] at hlt

/-- The highest bit is the sign. -/
theorem isMinus_unpackSign :
    isMinus (Sign.ofBitVec (unpackSign b)) = (ofModel S).isNegative b.toNat := by
  have hbit : (unpackSign b).toNat = b.toNat / (ofModel S).signWeight := by
    change (BitVec.extractLsb (S.mantissaBitsWithoutImplicit + S.exponentBits)
      (S.mantissaBitsWithoutImplicit + S.exponentBits) b).toNat = _
    rw [BitVec.extractLsb_toNat, Nat.sub_self, Nat.zero_add, Nat.pow_one,
      Nat.shiftRight_eq_div_pow, Nat.add_comm S.mantissaBitsWithoutImplicit]
    refine Nat.mod_eq_of_lt (Nat.div_lt_of_lt_mul ?_)
    rw [Nat.mul_comm]
    exact toNat_lt_signWeight b
  unfold Sign.ofBitVec
  split
  next hzero =>
    rw [hzero] at hbit
    have hsmall := (Nat.div_eq_zero_iff_lt (Nat.two_pow_pos _)).mp hbit.symm
    exact (decide_eq_false (Nat.not_le.mpr hsmall)).symm
  next hone =>
    refine (decide_eq_true ?_).symm
    by_contra hsmall
    rw [Nat.div_eq_of_lt (Nat.not_le.mp hsmall)] at hbit
    exact hone (BitVec.toNat_inj.mp hbit)

/-- The magnitude is what the two fields say. -/
theorem magnitude_eq_fields : (ofModel S).magnitude b.toNat =
    (unpackExponent b).toNat * 2 ^ (ofModel S).fractionBits + (unpackMantissa b).toNat := by
  rw [toNat_unpackExponent, toNat_unpackMantissa, magnitude, signWeight_eq, Nat.pow_add,
    Nat.mul_comm, Nat.mod_mul]
  ring

end Fields

/-- **Unpacking** a finite pattern gives its sign, its significand and its steps. -/
theorem unpack_eq {b : BitVec S.numBits} (hb : (ofModel S).isFinite b.toNat = true) :
    ∃ sign s k, isMinus sign = (ofModel S).isNegative b.toNat ∧ (ofModel S).IsNormal s k ∧
      (ofModel S).magnitude b.toNat = k * 2 ^ (ofModel S).fractionBits + s ∧
      unpack S b = unpacked sign s ((ofModel S).leastExponent + k) := by
  have hfinite : (ofModel S).magnitude b.toNat < (ofModel S).infinity := of_decide_eq_true hb
  have hmantissa : (unpackMantissa b).toNat < 2 ^ (ofModel S).fractionBits :=
    (unpackMantissa b).isLt
  have hfields := magnitude_eq_fields b
  have hbias : (S.exponentBias : Int) + S.mantissaBitsWithoutImplicit =
      1 - (ofModel S).leastExponent := by
    have hone : 1 ≤ 2 ^ (S.exponentBits - 1) := Nat.one_le_two_pow
    change ((2 ^ (S.exponentBits - 1) - 1 : Nat) : Int) + S.mantissaBitsWithoutImplicit =
      1 - (2 - ((2 ^ (S.exponentBits - 1) : Nat) : Int) - S.mantissaBitsWithoutImplicit)
    omega
  -- A full exponent field stands for infinity and for what is no number.
  have hnotFull : unpackExponent b ≠ -1#_ := by
    intro hfull
    rw [hfields, hfull, BitVec.neg_one_eq_allOnes, BitVec.toNat_allOnes, infinity_eq] at hfinite
    exact absurd hfinite (Nat.not_lt.mpr (Nat.le_add_right _ _))
  refine ⟨Sign.ofBitVec (unpackSign b), ?_⟩
  unfold unpack
  dsimp only
  rw [if_neg hnotFull]
  by_cases hzero : unpackExponent b = 0#_
  · -- No steps: the mantissa is the significand.
    rw [hzero, BitVec.toNat_zero, Nat.zero_mul, Nat.zero_add] at hfields
    refine ⟨(unpackMantissa b).toNat, 0, isMinus_unpackSign b, ⟨by omega, by omega⟩,
      by rw [hfields, Nat.zero_mul, Nat.zero_add], ?_⟩
    have hexponent : (((0#S.exponentBits).toNat : Int) - (1 - (ofModel S).leastExponent) + 1) =
        (ofModel S).leastExponent + (0 : Nat) := by
      rw [BitVec.toNat_zero]
      omega
    rw [if_pos hzero]
    by_cases hnone : unpackMantissa b = 0#_
    · rw [dif_pos hnone, hnone]
      rfl
    · have hpos : 0 < (unpackMantissa b).toNat :=
        Nat.pos_of_ne_zero fun h => hnone (BitVec.toNat_inj.mp h)
      rw [dif_neg hnone, unpacked_of_pos hpos]
      exact finite_congr _ _ rfl (by rw [hzero, hbias, hexponent])
  · -- The exponent field counts one step more, for the bit that is not kept.
    have hpos : 0 < (unpackExponent b).toNat :=
      Nat.pos_of_ne_zero fun h => hzero (BitVec.toNat_inj.mp h)
    have hsignificand : (1#1 ++ unpackMantissa b).toNat =
        2 ^ (ofModel S).fractionBits + (unpackMantissa b).toNat := by
      rw [toNat_append]
      change 1 * 2 ^ (ofModel S).fractionBits + _ = _
      rw [Nat.one_mul]
    refine ⟨2 ^ (ofModel S).fractionBits + (unpackMantissa b).toNat, (unpackExponent b).toNat - 1,
      isMinus_unpackSign b, ⟨by omega, by omega⟩, ?_, ?_⟩
    · obtain ⟨k, hk⟩ := Nat.exists_eq_succ_of_ne_zero hpos.ne'
      rw [hfields, hk, Nat.succ_sub_one, Nat.succ_mul, Nat.add_assoc]
    · have hexponent : (((unpackExponent b).toNat : Int) - (1 - (ofModel S).leastExponent)) =
          (ofModel S).leastExponent + ((unpackExponent b).toNat - 1 : Nat) := by
        omega
      rw [if_neg hzero, unpacked_of_pos (by omega)]
      exact finite_congr _ _ hsignificand (by rw [hbias, hexponent])

/-- A finite pattern is packed from its unpacked form. -/
theorem pack_unpack (hS : (ofModel S).Proper) {b : BitVec S.numBits}
    (hb : (ofModel S).isFinite b.toNat = true) : pack S (unpack S b) = b := by
  obtain ⟨sign, s, k, hsign, hnormal, hmagnitude, hunpack⟩ := unpack_eq hb
  have hfinite : (ofModel S).magnitude b.toNat < (ofModel S).infinity := of_decide_eq_true hb
  apply BitVec.eq_of_toNat_eq
  rw [hunpack, toNat_pack_unpacked hS sign hnormal, ← hmagnitude, min_eq_right hfinite.le, hsign]
  exact withSign_magnitude (toNat_lt_signWeight b)

end Packing

/-! ### Sums -/

section Sums

open Float.Model.UnpackedFloat

variable {S : Float.Model.Format}

/-- A mantissa that was brought to a lower exponent, with its sign. -/
theorem cast_aligned (sign : Sign) (m : Nat) {e t : Int} (ht : t ≤ e) :
    ((sign.apply (decreaseExponent m e t).1 : Int) : ℚ) * 2 ^ t =
      signed (isMinus sign) (m * 2 ^ e) := by
  have hexponent : (decreaseExponent m e t).2 = t := by
    change e - ((e - t).toNat : Int) = t
    omega
  have happly (n : Nat) : ((sign.apply n : Int) : ℚ) = signed (isMinus sign) n := by
    cases sign with
    | negative => exact (Int.cast_neg _).trans (congrArg _ (Int.cast_natCast n))
    | positive => exact Int.cast_natCast n
  have hvalue := decreaseExponent_value m e t
  rw [hexponent] at hvalue
  rw [happly, signed_mul, hvalue]

/-- Two numbers other than zero are brought to the lower of their exponents and added there. -/
theorem isNearest_add_finite (hS : (ofModel S).Proper) (sign sign' : Sign) {m m' : Nat} (e e' : Int)
    (hm : 0 < m) (hm' : 0 < m') : (ofModel S).IsNearest
      (signed (isMinus sign) (m * 2 ^ e) + signed (isMinus sign') (m' * 2 ^ e'))
      (pack S (add S (.finite sign m e hm) (.finite sign' m' e' hm'))).toNat := by
  rw [← cast_aligned sign m (min_le_left e e'), ← cast_aligned sign' m' (min_le_right e e'),
    ← add_mul, ← Int.cast_add]
  exact isNearest_normalize hS _ _ _

/-- **The sum of two unpacked numbers** is packed to the pattern nearest to the sum. -/
theorem isNearest_add_unpacked (hS : (ofModel S).Proper) (sign sign' : Sign) {s k s' k' : Nat}
    (hnormal : (ofModel S).IsNormal s k) (hnormal' : (ofModel S).IsNormal s' k')
    (hfinite : k * 2 ^ (ofModel S).fractionBits + s < (ofModel S).infinity)
    (hfinite' : k' * 2 ^ (ofModel S).fractionBits + s' < (ofModel S).infinity) :
    (ofModel S).IsNearest (signed (isMinus sign) (s * 2 ^ ((ofModel S).leastExponent + k)) +
        signed (isMinus sign') (s' * 2 ^ ((ofModel S).leastExponent + k')))
      (pack S (add S (unpacked sign s ((ofModel S).leastExponent + k))
        (unpacked sign' s' ((ofModel S).leastExponent + k')))).toNat := by
  -- A number alone is packed to its own pattern.
  have halone (sign : Sign) {s k : Nat} (hnormal : (ofModel S).IsNormal s k)
      (hfinite : k * 2 ^ (ofModel S).fractionBits + s < (ofModel S).infinity) :
      (ofModel S).IsNearest (signed (isMinus sign) (s * 2 ^ ((ofModel S).leastExponent + k)))
        (pack S (unpacked sign s ((ofModel S).leastExponent + k))).toNat := by
    rw [toNat_pack_unpacked hS sign hnormal, min_eq_right hfinite.le, ← value_eq hnormal]
    nth_rewrite 2 [← rounded_value hfinite]
    exact isNearest_signed _ _ (mul_nonneg (Nat.cast_nonneg _) (two_zpow_pos _).le)
  have hx := halone sign hnormal hfinite
  have hy := halone sign' hnormal' hfinite'
  -- A zero gives the other number back; what is left are two numbers other than zero.
  rcases Nat.eq_zero_or_pos s with rfl | hs
  · rw [Nat.cast_zero, zero_mul, signed_zero, zero_add]
    rcases Nat.eq_zero_or_pos s' with rfl | hs'
    · rw [Nat.cast_zero, zero_mul, signed_zero]
      change (ofModel S).IsNearest 0
        (pack S (if sign == sign' then .zero sign else .zero .positive)).toNat
      split
      · exact toNat_packedZero (S := S) sign ▸ isNearest_zero _ _
      · exact toNat_packedZero (S := S) .positive ▸ isNearest_zero _ _
    · rwa [unpacked_of_pos hs'] at hy ⊢
  · rcases Nat.eq_zero_or_pos s' with rfl | hs'
    · rw [Nat.cast_zero, zero_mul, signed_zero, add_zero]
      rwa [unpacked_of_pos hs] at hx ⊢
    · rw [unpacked_of_pos hs, unpacked_of_pos hs']
      exact isNearest_add_finite hS sign sign' _ _ hs hs'

/-- **The sum of two finite patterns** is the pattern nearest to the sum of their numbers. -/
theorem isNearest_add (hS : (ofModel S).Proper) {x y : BitVec S.numBits}
    (hx : (ofModel S).isFinite x.toNat = true) (hy : (ofModel S).isFinite y.toNat = true) :
    (ofModel S).IsNearest ((ofModel S).number x.toNat + (ofModel S).number y.toNat)
      (pack S (add S (unpack S x) (unpack S y))).toNat := by
  have hfinite : (ofModel S).magnitude x.toNat < (ofModel S).infinity := of_decide_eq_true hx
  have hfinite' : (ofModel S).magnitude y.toNat < (ofModel S).infinity := of_decide_eq_true hy
  obtain ⟨sign, s, k, hsign, hnormal, hmagnitude, hunpack⟩ := unpack_eq hx
  obtain ⟨sign', s', k', hsign', hnormal', hmagnitude', hunpack'⟩ := unpack_eq hy
  rw [hmagnitude] at hfinite
  rw [hmagnitude'] at hfinite'
  rw [number, hmagnitude, value_eq hnormal, ← hsign, hunpack, number, hmagnitude',
    value_eq hnormal', ← hsign', hunpack']
  exact isNearest_add_unpacked hS sign sign' hnormal hnormal' hfinite hfinite'

end Sums

end Format

namespace Single

open Format

/-- The number that a finite pattern stands for. -/
def number (x : Single) : ℚ :=
  single.number x.bits.toNat

open Float.Model.UnpackedFloat in
/-- The float of a finite pattern is unpacked as the pattern is. -/
theorem unpack_ofBits {x : Single} (hx : x.isFinite = true) :
    (Float32.ofBits x.bits).toModel.unpack = unpack Float.Model.Format.binary32 x.bits.toBitVec :=
  congrArg (unpack Float.Model.Format.binary32)
    (pack_unpack (S := Float.Model.Format.binary32) single_proper hx)

theorem isNaN_of_isFinite {x : Single} (hx : x.isFinite = true) : x.isNaN = false :=
  decide_eq_false (of_decide_eq_true hx).le.not_gt

open Float.Model.UnpackedFloat in
/-- **The sum of two finite numbers** is the nearest number to their sum. -/
theorem isNearest_add {x y : Single} (hx : x.isFinite = true) (hy : y.isFinite = true) :
    single.IsNearest (x.number + y.number) (x.add y).bits.toNat := by
  have hsum : single.IsNearest (x.number + y.number)
      (Float32.ofBits x.bits + Float32.ofBits y.bits).toBits.toNat := by
    change single.IsNearest _ (pack Float.Model.Format.binary32
      (Float.Model.UnpackedFloat.add Float.Model.Format.binary32
        (Float32.ofBits x.bits).toModel.unpack (Float32.ofBits y.bits).toModel.unpack)).toNat
    rw [unpack_ofBits hx, unpack_ofBits hy]
    exact Format.isNearest_add (S := Float.Model.Format.binary32) single_proper hx hy
  -- What was rounded is a number.
  have hnumber : isNaN ⟨(Float32.ofBits x.bits + Float32.ofBits y.bits).toBits⟩ = false := by
    obtain ⟨negative, hbits, -⟩ := hsum
    have hle := single.rounded_le_infinity (x.number + y.number)
    refine decide_eq_false ?_
    rw [hbits, magnitude_withSign negative (hle.trans_lt single.infinity_lt_signWeight)]
    exact hle.not_gt
  -- No operand is one that is passed on as it is, so the result is the sum.
  rw [add, lift, isNaN_of_isFinite hx, isNaN_of_isFinite hy]
  dsimp only
  rw [hnumber]
  exact hsum

end Single

end EngineHost
