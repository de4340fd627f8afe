import EngineHost.Proofs.Rounding

/-!
# Conversions between numbers

Which conversions lose nothing. A format that is wider in both fields holds every finite number of a
narrower one, so a number that is widened and then rounded is the number itself
(`Format.convert_convert`, and for the three formats `Half.toSingle_toHalf` and
`Single.toDouble_toSingle`).

An integer need not be a number of a format: what `Format.Represents` says is that its significand
fits. Rounded to the format and cut back to an integer it is the same exactly in this case, for
whatever the way back gives is represented (`Double.toInt64_ofInt_iff`, `Single.toInt32_ofInt_iff`).
-/

namespace EngineHost

/-- A number behind an optional minus sign. -/
def signed (negative : Bool) (x : ℚ) : ℚ :=
  if negative then -x else x

namespace Format

variable {f g : Format}

/-! ### Signs -/

theorem signWeight_eq (f : Format) : f.signWeight = 2 ^ (f.exponentBits + f.fractionBits) :=
  rfl

/-- Below the sign there is room for a full exponent field. -/
theorem infinity_lt_signWeight (f : Format) : f.infinity < f.signWeight := by
  rw [infinity_eq, signWeight_eq, Nat.pow_add]
  refine Nat.mul_lt_mul_of_pos_right ?_ (by positivity)
  have : 0 < 2 ^ f.exponentBits := by positivity
  omega

/-- The quiet bit is none of the bits of infinity. -/
theorem infinity_lt_quiet (f : Format) (hf : f.Proper) :
    f.infinity < f.infinity ||| 2 ^ (f.fractionBits - 1) := by
  -- Infinity has no bit of the fraction, and the quiet bit is the highest of them.
  refine lt_of_le_of_ne Nat.left_le_or fun heq => ?_
  have hbit := congrArg (Nat.testBit · (f.fractionBits - 1)) heq
  have hbelow : ¬f.fractionBits ≤ f.fractionBits - 1 :=
    Nat.not_le.mpr (Nat.sub_lt hf.fraction one_pos)
  rw [infinity_eq] at hbit
  simp [Nat.testBit_mul_two_pow, Nat.testBit_two_pow_self, hbelow] at hbit

/-- The magnitude of a number with a sign. -/
theorem magnitude_withSign (negative : Bool) {m : Nat} (hm : m < f.signWeight) :
    f.magnitude (f.withSign negative m) = m := by
  cases negative with
  | false => exact Nat.mod_eq_of_lt hm
  | true => exact (Nat.add_mod_left _ _).trans (Nat.mod_eq_of_lt hm)

/-- The sign of a number with a sign. -/
theorem isNegative_withSign (negative : Bool) {m : Nat} (hm : m < f.signWeight) :
    f.isNegative (f.withSign negative m) = negative := by
  cases negative with
  | false => exact decide_eq_false (Nat.not_le.mpr hm)
  | true => exact decide_eq_true (Nat.le_add_right _ _)

theorem withSign_lt (negative : Bool) {m : Nat} (hm : m < f.signWeight) :
    f.withSign negative m < 2 * f.signWeight := by
  cases negative with
  | false => exact lt_of_lt_of_le hm (Nat.le_mul_of_pos_left _ two_pos)
  | true =>
    change f.signWeight + m < 2 * f.signWeight
    omega

/-- A pattern is its sign and its magnitude. -/
theorem withSign_magnitude {bits : Nat} (hbits : bits < 2 * f.signWeight) :
    f.withSign (f.isNegative bits) (f.magnitude bits) = bits := by
  unfold withSign isNegative magnitude
  by_cases hle : f.signWeight ≤ bits
  · rw [if_pos (decide_eq_true hle), Nat.mod_eq_sub_mod hle, Nat.mod_eq_of_lt (by omega)]
    omega
  · rw [if_neg (by simpa using hle), Nat.mod_eq_of_lt (by omega)]

/-- A sign keeps a number finite. -/
theorem isFinite_withSign (negative : Bool) {m : Nat} (hm : m < f.infinity) :
    f.isFinite (f.withSign negative m) = true := by
  unfold isFinite
  rw [magnitude_withSign negative (hm.trans f.infinity_lt_signWeight)]
  exact decide_eq_true hm

/-- The number that a pattern stands for. -/
def number (f : Format) (bits : Nat) : ℚ :=
  signed (f.isNegative bits) (f.value (f.magnitude bits))

/-! ### Other formats -/

/-- A finite number that another format holds is converted to it. -/
theorem convert_eq {bits m : Nat} (hbits : f.isFinite bits = true) (hm : m < g.infinity)
    (hvalue : f.value (f.magnitude bits) = g.value m) :
    f.convert g bits = g.withSign (f.isNegative bits) m := by
  have hfinite : f.magnitude bits < f.infinity := of_decide_eq_true hbits
  unfold convert
  dsimp only
  rw [if_neg hfinite.le.not_gt, if_neg hfinite.ne, ofScaled_value hm hvalue]

/-- A format that is wider than another one, in both fields. -/
structure Widens (f g : Format) : Prop where
  proper : f.Proper
  fraction : f.fractionBits ≤ g.fractionBits
  exponent : f.exponentBits ≤ g.exponentBits

theorem Widens.wide (h : f.Widens g) : g.Proper :=
  ⟨h.proper.fraction.trans_le h.fraction, h.proper.exponent.trans h.exponent⟩

/-- **A wider format holds what a narrower one holds.** -/
theorem Widens.exists_value (h : f.Widens g) {m : Nat} (hm : m < f.infinity) :
    ∃ n < g.infinity, g.value n = f.value m := by
  -- The significand and the exponent are the same; there is more room for both.
  obtain ⟨s, k, hnormal, rfl⟩ := f.exists_isNormal m
  have hexponent : 2 ^ (f.exponentBits - 1) ≤ 2 ^ (g.exponentBits - 1) :=
    Nat.pow_le_pow_right two_pos (Nat.sub_le_sub_right h.exponent 1)
  have hlimit : f.limit ≤ g.limit := two_zpow_le_iff.mpr (by exact_mod_cast hexponent)
  have hlt := value_lt_limit h.proper hm
  rw [value_eq hnormal] at hlt ⊢
  refine Format.exists_value h.wide ?_ ?_ (hlt.trans_le hlimit)
  · refine hnormal.lt.trans_le (Nat.mul_le_mul_left 2 ?_)
    exact Nat.pow_le_pow_right two_pos h.fraction
  · have hfraction := h.fraction
    rw [leastExponent_eq, leastExponent_eq]
    omega

/-- A finite number, widened. -/
theorem Widens.convert_eq (h : f.Widens g) {bits : Nat} (hbits : f.isFinite bits = true) :
    ∃ m < g.infinity, g.value m = f.value (f.magnitude bits) ∧
      f.convert g bits = g.withSign (f.isNegative bits) m := by
  obtain ⟨m, hm, hvalue⟩ := h.exists_value (of_decide_eq_true hbits)
  exact ⟨m, hm, hvalue, Format.convert_eq hbits hm hvalue.symm⟩

/-- A finite number stays finite if it is widened. -/
theorem isFinite_convert (h : f.Widens g) {bits : Nat} (hbits : f.isFinite bits = true) :
    g.isFinite (f.convert g bits) = true ∧ f.convert g bits < 2 * g.signWeight := by
  obtain ⟨m, hm, -, hconvert⟩ := h.convert_eq hbits
  rw [hconvert]
  exact ⟨isFinite_withSign _ hm, withSign_lt _ (hm.trans g.infinity_lt_signWeight)⟩

/-- **What is no finite number** is converted to a pattern with a full exponent field. Its fraction
is empty for an infinity, and else it is not. -/
theorem convert_of_not_isFinite (hg : g.Proper) {bits : Nat} (hbits : f.isFinite bits = false) :
    ∃ m, g.infinity ≤ m ∧ m < g.signWeight ∧ (g.infinity < m ↔ f.isNaN bits = true) ∧
      f.convert g bits = g.withSign (f.isNegative bits) m := by
  have hlarge : f.infinity ≤ f.magnitude bits := Nat.not_lt.mp (of_decide_eq_false hbits)
  unfold convert isNaN
  dsimp only
  by_cases hnan : f.infinity < f.magnitude bits
  · rw [if_pos hnan]
    have hle : g.infinity ||| 2 ^ (g.fractionBits - 1) ≤ g.infinity ||| 2 ^ (g.fractionBits - 1) |||
        (f.magnitude bits % 2 ^ f.fractionBits) <<< g.fractionBits >>> f.fractionBits :=
          Nat.left_le_or
    have hquiet := g.infinity_lt_quiet hg
    refine ⟨_, (hquiet.trans_le hle).le, ?_, ?_, rfl⟩
    · -- All three parts fit below the sign: infinity, the quiet bit and the fraction.
      rw [signWeight_eq]
      refine Nat.or_lt_two_pow (Nat.or_lt_two_pow ?_ ?_) ?_
      · exact g.infinity_lt_signWeight
      · exact Nat.pow_lt_pow_right one_lt_two (by have := hg.fraction; omega)
      · -- The fraction keeps its high bits, as many as there is room for.
        have hmod : f.magnitude bits % 2 ^ f.fractionBits < 2 ^ f.fractionBits :=
          Nat.mod_lt _ (by positivity)
        rw [Nat.shiftRight_eq_div_pow, Nat.shiftLeft_eq]
        refine lt_of_lt_of_le (Nat.div_lt_of_lt_mul (Nat.mul_lt_mul_of_pos_right hmod ?_)) ?_
        · positivity
        · exact Nat.pow_le_pow_right two_pos (Nat.le_add_left _ _)
    · exact iff_of_true (hquiet.trans_le hle) (decide_eq_true hnan)
  · -- An infinity stays one.
    rw [if_neg hnan, if_pos (by omega)]
    exact ⟨g.infinity, le_rfl, g.infinity_lt_signWeight,
      iff_of_false (lt_irrefl _) (by rw [decide_eq_true_eq]; exact hnan), rfl⟩

/-- What is no finite number is converted to no finite number. -/
theorem not_isFinite_convert (hg : g.Proper) {bits : Nat} (hbits : f.isFinite bits = false) :
    g.isFinite (f.convert g bits) = false ∧ f.convert g bits < 2 * g.signWeight := by
  obtain ⟨m, hle, hlt, -, hconvert⟩ := convert_of_not_isFinite hg hbits
  rw [hconvert]
  refine ⟨?_, withSign_lt _ hlt⟩
  unfold isFinite
  rw [magnitude_withSign _ hlt]
  exact decide_eq_false (Nat.not_lt.mpr hle)

/-- Widening keeps finite numbers apart from the others. -/
theorem Widens.isFinite_convert_eq (h : f.Widens g) (bits : Nat) :
    g.isFinite (f.convert g bits) = f.isFinite bits ∧ f.convert g bits < 2 * g.signWeight := by
  cases hbits : f.isFinite bits with
  | true => exact isFinite_convert h hbits
  | false => exact not_isFinite_convert h.wide hbits

/-- **Widening loses nothing**: rounded back, a finite number is itself. -/
theorem convert_convert (h : f.Widens g) {bits : Nat} (hlt : bits < 2 * f.signWeight)
    (hbits : f.isFinite bits = true) : g.convert f (f.convert g bits) = bits := by
  obtain ⟨m, hm, hvalue, hconvert⟩ := h.convert_eq hbits
  have hsign := hm.trans g.infinity_lt_signWeight
  have hfinite : f.magnitude bits < f.infinity := of_decide_eq_true hbits
  rw [hconvert, Format.convert_eq (isFinite_withSign _ hm) hfinite
    (by rw [magnitude_withSign _ hsign, hvalue]), isNegative_withSign _ hsign]
  exact withSign_magnitude hlt

/-! ### Integers -/

/-- **An integer that a format holds**: its significand fits, whatever its exponent is. -/
def Represents (f : Format) (n : Int) : Prop :=
  ∃ s e : Nat, s < 2 * 2 ^ f.fractionBits ∧ n.natAbs = s * 2 ^ e

/-- A represented integer below the limit is the value of a magnitude. -/
theorem Represents.exists_value {n : Int} (h : f.Represents n) (hf : f.Proper)
    (hlt : (n.natAbs : ℚ) < f.limit) : ∃ m < f.infinity, f.value m = n.natAbs := by
  obtain ⟨s, e, hs, heq⟩ := h
  -- The whole number as a significand and an exponent of the format.
  have hvalue : (n.natAbs : ℚ) = s * 2 ^ (e : Int) := by
    rw [zpow_natCast]
    exact_mod_cast heq
  obtain ⟨-, htwo⟩ := two_pow_exponentBits hf
  have hleast : f.leastExponent ≤ e := by
    rw [leastExponent_eq]
    omega
  rw [hvalue] at hlt ⊢
  exact Format.exists_value hf hs hleast hlt

/-- Cutting a number that is whole gives the number. -/
theorem truncate_withSign (negative : Bool) {m n : Nat} (hm : m < f.infinity)
    (hvalue : f.value m = n) :
    f.truncate (f.withSign negative m) = if negative then -(n : Int) else n := by
  have hsign := hm.trans f.infinity_lt_signWeight
  -- The quotient is exact, since the number is whole.
  have hpos := scaleRatio_pos Nat.one_pos (f.parts m).1 (-(f.parts m).2)
  have hquotient : (scaleRatio (f.parts m).1 1 (-(f.parts m).2)).1 /
      (scaleRatio (f.parts m).1 1 (-(f.parts m).2)).2 = n := by
    have hscaled := scaleRatio_eq (f.parts m).1 1 (-(f.parts m).2)
    rw [Nat.cast_one, div_one, zpow_neg, div_inv_eq_mul, ← value, hvalue,
      div_eq_iff (by exact_mod_cast hpos.ne')] at hscaled
    have hmul : (scaleRatio (f.parts m).1 1 (-(f.parts m).2)).1 =
        n * (scaleRatio (f.parts m).1 1 (-(f.parts m).2)).2 := by exact_mod_cast hscaled
    rw [hmul, Nat.mul_div_cancel _ hpos]
  unfold truncate
  dsimp only
  rw [magnitude_withSign _ hsign, isNegative_withSign _ hsign, hquotient]

/-- A cut number is represented: a number with a fraction has few bits in front of it. -/
theorem represents_truncate (f : Format) (bits : Nat) : f.Represents (f.truncate bits) := by
  obtain ⟨s, k, hnormal, hparts⟩ := f.exists_isNormal (f.magnitude bits)
  have habs : (f.truncate bits).natAbs = (scaleRatio s 1 (-(f.leastExponent + k))).1 /
      (scaleRatio s 1 (-(f.leastExponent + k))).2 := by
    unfold truncate
    dsimp only
    rw [hparts, parts_eq hnormal]
    split
    · rw [Int.natAbs_neg, Int.natAbs_natCast]
    · rw [Int.natAbs_natCast]
  unfold Represents
  rw [habs]
  unfold scaleRatio
  split
  · -- With a fraction, what is left of the significand is smaller still.
    refine ⟨s / 1 <<< (-(f.leastExponent + k)).toNat, 0, ?_, (Nat.mul_one _).symm⟩
    exact (Nat.div_le_self _ _).trans_lt hnormal.lt
  · -- Without one, the significand is shifted up.
    refine ⟨s, (- -(f.leastExponent + k)).toNat, hnormal.lt, ?_⟩
    rw [Nat.div_one, Nat.shiftLeft_eq]

/-- What is out of range becomes the least number, so all that is given is represented. -/
theorem represents_toRange {low : Int} (hlow : f.Represents low) (high : Int) (bits : Nat) :
    f.Represents (f.toRange low high bits) := by
  unfold toRange
  dsimp only
  split
  · split
    · exact f.represents_truncate bits
    · exact hlow
  · exact hlow

/-- A conversion gives nothing out of its range. -/
theorem toRange_bounds {low high : Int} (hle : low ≤ high) (bits : Nat) :
    low ≤ f.toRange low high bits ∧ f.toRange low high bits ≤ high := by
  unfold toRange
  dsimp only
  split
  · split
    next h => exact h
    next => exact ⟨le_rfl, hle⟩
  · exact ⟨le_rfl, hle⟩

/-- An integer that is well below the limit is rounded to a finite number. -/
theorem isFinite_ofInt (hf : f.Proper) {n : Int} {t : Nat} (hn : n.natAbs < 2 ^ t)
    (ht : t < 2 ^ (f.exponentBits - 1)) :
    f.isFinite (f.ofInt n) = true ∧ f.ofInt n < 2 * f.signWeight := by
  have hlt : f.ofRatio n.natAbs 1 < f.infinity := by
    refine ofRatio_lt_infinity hf Nat.one_pos ?_ ht
    rw [Nat.cast_one, div_one, zpow_natCast]
    exact_mod_cast hn
  exact ⟨isFinite_withSign _ hlt, withSign_lt _ (hlt.trans f.infinity_lt_signWeight)⟩

/-- **A represented integer comes back.** -/
theorem toRange_ofInt (hf : f.Proper) {n low high : Int} (hrepresents : f.Represents n) {t : Nat}
    (hn : n.natAbs < 2 ^ t) (ht : t < 2 ^ (f.exponentBits - 1)) (hlow : low ≤ n)
    (hhigh : n ≤ high) :
    f.toRange low high (f.ofInt n) = n := by
  have hlimit : (n.natAbs : ℚ) < f.limit := by
    calc (n.natAbs : ℚ) < 2 ^ t := by exact_mod_cast hn
      _ = 2 ^ (t : Int) := (zpow_natCast 2 t).symm
      _ ≤ f.limit := two_zpow_le_iff.mpr (by exact_mod_cast ht.le)
  obtain ⟨m, hm, hvalue⟩ := hrepresents.exists_value hf hlimit
  -- The integer is a value of the format, so that rounding it is exact.
  have hround : f.ofRatio n.natAbs 1 = m :=
    ofRatio_value Nat.one_pos hm (by rw [hvalue, Nat.cast_one, div_one])
  have htruncate : f.truncate (f.ofInt n) = n := by
    unfold ofInt
    rw [hround, truncate_withSign _ hm hvalue]
    by_cases hneg : n < 0
    · rw [if_pos (decide_eq_true hneg)]
      omega
    · rw [if_neg (by simpa using hneg)]
      omega
  unfold toRange
  dsimp only
  rw [if_pos (isFinite_ofInt hf hn ht).1, htruncate, if_pos ⟨hlow, hhigh⟩]

end Format

/-! ### The three formats -/

open Format

theorem half_widens : half.Widens single := ⟨half_proper, by decide, by decide⟩

theorem single_widens : single.Widens double := ⟨single_proper, by decide, by decide⟩

theorem half_bits_lt (x : UInt16) : x.toNat < 2 * half.signWeight := x.toNat_lt

theorem single_bits_lt (x : UInt32) : x.toNat < 2 * single.signWeight := x.toNat_lt

theorem double_bits_lt (x : UInt64) : x.toNat < 2 * double.signWeight := x.toNat_lt

theorem Half.bits_toSingle (x : Half) :
    x.toSingle.bits.toNat = half.convert single x.bits.toNat :=
  UInt32.toNat_ofNat_of_lt' (half_widens.isFinite_convert_eq x.bits.toNat).2

theorem Single.bits_toDouble (x : Single) :
    x.toDouble.bits.toNat = single.convert double x.bits.toNat :=
  UInt64.toNat_ofNat_of_lt' (single_widens.isFinite_convert_eq x.bits.toNat).2

theorem Half.isFinite_toSingle (x : Half) :
    x.toSingle.isFinite = half.isFinite x.bits.toNat := by
  rw [Single.isFinite, bits_toSingle]
  exact (half_widens.isFinite_convert_eq x.bits.toNat).1

theorem Single.isFinite_toDouble (x : Single) : x.toDouble.isFinite = x.isFinite := by
  rw [Double.isFinite, bits_toDouble]
  exact (single_widens.isFinite_convert_eq x.bits.toNat).1

/-- A number of sixteen bits survives single precision. -/
theorem Half.toSingle_toHalf {x : Half} (hx : half.isFinite x.bits.toNat = true) :
    x.toSingle.toHalf = x := by
  rw [Single.toHalf, bits_toSingle, convert_convert half_widens (half_bits_lt _) hx,
    UInt16.ofNat_toNat]

/-- A number of thirty-two bits survives double precision. -/
theorem Single.toDouble_toSingle {x : Single} (hx : x.isFinite = true) :
    x.toDouble.toSingle = x := by
  rw [Double.toSingle, bits_toDouble, convert_convert single_widens (single_bits_lt _) hx,
    UInt32.ofNat_toNat]

theorem Int32.natAbs_toInt_lt (n : Int32) : n.toInt.natAbs < 2 ^ 32 := by
  have hlow := n.le_toInt
  have hhigh := n.toInt_lt
  omega

theorem Int64.natAbs_toInt_lt (n : Int64) : n.toInt.natAbs < 2 ^ 64 := by
  have hlow := n.le_toInt
  have hhigh := n.toInt_lt
  omega

/-- The pattern of an integer of thirty-two bits. -/
theorem Single.ofInt_int32 (n : Int32) : (Single.ofInt n.toInt).isFinite = true ∧
    (Single.ofInt n.toInt).bits.toNat = single.ofInt n.toInt := by
  obtain ⟨hfinite, hlt⟩ := isFinite_ofInt single_proper (Int32.natAbs_toInt_lt n) (by decide)
  have hbits : (Single.ofInt n.toInt).bits.toNat = single.ofInt n.toInt :=
    UInt32.toNat_ofNat_of_lt' hlt
  refine ⟨?_, hbits⟩
  unfold Single.isFinite
  rw [hbits, hfinite]

/-- The pattern of an integer of sixty-four bits. -/
theorem Double.ofInt_int64 (n : Int64) : (Double.ofInt n.toInt).isFinite = true ∧
    (Double.ofInt n.toInt).bits.toNat = double.ofInt n.toInt := by
  obtain ⟨hfinite, hlt⟩ := isFinite_ofInt double_proper (Int64.natAbs_toInt_lt n) (by decide)
  have hbits : (Double.ofInt n.toInt).bits.toNat = double.ofInt n.toInt :=
    UInt64.toNat_ofNat_of_lt' hlt
  refine ⟨?_, hbits⟩
  unfold Double.isFinite
  rw [hbits, hfinite]

/-- **An integer of thirty-two bits survives single precision** exactly if it is represented
there. -/
theorem Single.toInt32_ofInt_iff (n : Int32) :
    (Single.ofInt n.toInt).toInt32 = n ↔ single.Represents n.toInt := by
  have hlow : single.Represents Int32.minValue.toInt := ⟨1, 31, by decide, by decide⟩
  unfold Single.toInt32
  constructor
  · intro heq
    -- What comes back is represented, and it is the integer.
    have hrange : Int32.minValue.toInt ≤ Int32.maxValue.toInt := by decide
    obtain ⟨hle, hge⟩ := toRange_bounds (f := single) hrange (Single.ofInt n.toInt).bits.toNat
    rw [← heq, Int32.toInt_ofInt_of_le hle (Int.lt_of_le_of_lt hge (by decide))]
    exact represents_toRange hlow _ _
  · intro hrepresents
    rw [(Single.ofInt_int32 n).2, toRange_ofInt single_proper hrepresents
      (Int32.natAbs_toInt_lt n) (by decide) n.minValue_le_toInt n.toInt_le, Int32.ofInt_toInt]

/-- **An integer of sixty-four bits survives double precision** exactly if it is represented
there. -/
theorem Double.toInt64_ofInt_iff (n : Int64) :
    (Double.ofInt n.toInt).toInt64 = n ↔ double.Represents n.toInt := by
  have hlow : double.Represents Int64.minValue.toInt := ⟨1, 63, by decide, by decide⟩
  unfold Double.toInt64
  constructor
  · intro heq
    have hrange : Int64.minValue.toInt ≤ Int64.maxValue.toInt := by decide
    obtain ⟨hle, hge⟩ := toRange_bounds (f := double) hrange (Double.ofInt n.toInt).bits.toNat
    rw [← heq, Int64.toInt_ofInt_of_le hle (Int.lt_of_le_of_lt hge (by decide))]
    exact represents_toRange hlow _ _
  · intro hrepresents
    rw [(Double.ofInt_int64 n).2, toRange_ofInt double_proper hrepresents
      (Int64.natAbs_toInt_lt n) (by decide) n.minValue_le_toInt n.toInt_le, Int64.ofInt_toInt]

end EngineHost
