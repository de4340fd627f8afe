import EngineHost.Proofs.FloatModel

/-!
# Integers in a format

Not every integer is a number of a format, and one that is not is taken for the nearest that is.
`Format.RoundsInteger` says this in integers alone: no represented integer is nearer, and of two
that are equally near the one with more trailing zero bits is taken.

Up to twice the highest bit of a significand nothing changes. Above, the numbers of a binade are the
multiples of its unit, so rounding is rounding a quotient (`roundDiv_nearest`, `roundDiv_even`), and
the represented integers that are no multiples lie below the binade (`Format.Represents.grid`).

`Format.IsNearest.integer` puts this together: the pattern nearest to an integer is finite, and its
number is an integer that the integer is rounded to. Cut back to a range it is that integer, where
it fits (`Format.toRange_of_number`).
-/

namespace EngineHost

/-! ### The nearest multiple -/

/-- The rounded quotient is the whole part or the next number, whichever is nearer. -/
theorem roundDiv_cases (n d : Nat) :
    roundDiv n d = n / d ∧ 2 * (n % d) ≤ d ∨ roundDiv n d = n / d + 1 ∧ d ≤ 2 * (n % d) := by
  unfold roundDiv
  dsimp only
  split
  · exact .inr ⟨rfl, by omega⟩
  · exact .inl ⟨rfl, by omega⟩

/-- **No multiple is nearer** than the one by the rounded quotient. -/
theorem roundDiv_nearest {n d : Nat} (hd : 0 < d) (k : Nat) :
    ((n : Int) - (roundDiv n d * d : Nat)).natAbs ≤ ((n : Int) - (k * d : Nat)).natAbs := by
  have hdiv : n / d * d + n % d = n := Nat.div_add_mod' n d
  have hmod : n % d < d := Nat.mod_lt n hd
  -- Another multiple is at or below the whole part, or a whole divisor above it.
  have hside : k * d ≤ n / d * d ∨ n / d * d + d ≤ k * d := by
    rcases Nat.lt_or_ge (n / d) k with hlt | hge
    · right
      rw [← Nat.succ_mul]
      exact Nat.mul_le_mul_right d hlt
    · exact .inl (Nat.mul_le_mul_right d hge)
  rcases roundDiv_cases n d with ⟨heq, hhalf⟩ | ⟨heq, hhalf⟩
  · rw [heq]
    omega
  · rw [heq, Nat.succ_mul]
    omega

/-- **A tie goes to the even one**, and the other one is odd. -/
theorem roundDiv_even {n d k : Nat} (hd : 0 < d) (hne : k ≠ roundDiv n d)
    (htie : ((n : Int) - (k * d : Nat)).natAbs = ((n : Int) - (roundDiv n d * d : Nat)).natAbs) :
    roundDiv n d % 2 = 0 ∧ k % 2 = 1 := by
  have hdiv : n / d * d + n % d = n := Nat.div_add_mod' n d
  have hmod : n % d < d := Nat.mod_lt n hd
  have hnext : (n / d + 1) * d = n / d * d + d := Nat.succ_mul _ _
  -- Only the whole part and the next number can be that near.
  have hnear : k = n / d ∨ k = n / d + 1 := by
    by_contra hfar
    rw [not_or] at hfar
    have hside : k * d + d ≤ n / d * d ∨ n / d * d + d + d ≤ k * d := by
      rcases Nat.lt_or_ge k (n / d) with hlt | hge
      · left
        rw [← Nat.succ_mul]
        exact Nat.mul_le_mul_right d hlt
      · right
        have hle : n / d + 1 + 1 ≤ k := by omega
        rw [← hnext, ← Nat.succ_mul]
        exact Nat.mul_le_mul_right d hle
    rcases roundDiv_cases n d with ⟨heq, hhalf⟩ | ⟨heq, hhalf⟩ <;> rw [heq] at htie
    · omega
    · rw [hnext] at htie
      omega
  -- One of the two neighbours is taken, so the other one is as near and the number half way.
  have htwice : 2 * (n % d) = d := by
    rcases roundDiv_cases n d with ⟨heq, hhalf⟩ | ⟨heq, hhalf⟩ <;> rw [heq] at htie hne
    · obtain rfl : k = n / d + 1 := by omega
      rw [hnext] at htie
      omega
    · obtain rfl : k = n / d := by omega
      rw [hnext] at htie
      omega
  have hparity : roundDiv n d = n / d + n / d % 2 := by
    unfold roundDiv
    dsimp only
    split <;> omega
  rw [hparity] at hne ⊢
  omega

namespace Format

variable {f : Format}

/-! ### Represented integers -/

/-- **The integer that an integer is rounded to**: represented, with no represented integer nearer,
and divisible by a higher power of two than any other one that is as near. -/
structure RoundsInteger (f : Format) (n r : Int) : Prop where
  represents : f.Represents r
  nearest : ∀ m, f.Represents m → (n - r).natAbs ≤ (n - m).natAbs
  even : ∀ m, f.Represents m → (n - m).natAbs = (n - r).natAbs → m ≠ r →
    ∃ k : Nat, (2 : Int) ^ k ∣ r ∧ ¬(2 : Int) ^ k ∣ m

theorem represents_neg {n : Int} : f.Represents (-n) ↔ f.Represents n := by
  unfold Represents
  rw [Int.natAbs_neg]

theorem represents_zero (f : Format) : f.Represents 0 :=
  ⟨0, 0, by positivity, rfl⟩

/-- Small integers are represented. -/
theorem represents_of_lt {n : Int} (h : n.natAbs < 2 * 2 ^ f.fractionBits) : f.Represents n :=
  ⟨n.natAbs, 0, h, (Nat.mul_one _).symm⟩

/-- Rounding does not depend on the sign. -/
theorem RoundsInteger.neg {n r : Int} (h : f.RoundsInteger n r) : f.RoundsInteger (-n) (-r) := by
  have hflip (m : Int) : (-n - m).natAbs = (n - -m).natAbs := by omega
  refine ⟨represents_neg.mpr h.represents, ?_, ?_⟩
  · intro m hm
    have hle := h.nearest (-m) (represents_neg.mpr hm)
    omega
  · intro m hm htie hne
    obtain ⟨k, hr, hm'⟩ := h.even (-m) (represents_neg.mpr hm) (by omega) (by omega)
    exact ⟨k, (dvd_neg).mpr hr, fun hdvd => hm' ((dvd_neg).mpr hdvd)⟩

/-- A represented integer is rounded to itself. -/
theorem RoundsInteger.eq {n r : Int} (h : f.RoundsInteger n r) (hn : f.Represents n) : r = n := by
  have hle := h.nearest n hn
  omega

/-- What is held is rounded to itself, and nothing else is as near. -/
theorem roundsInteger_self {n : Int} (hn : f.Represents n) : f.RoundsInteger n n := by
  refine ⟨hn, fun m _ => by omega, fun m _ htie hne => ?_⟩
  omega

/-- Rounding at most doubles. -/
theorem RoundsInteger.natAbs_le {n r : Int} (h : f.RoundsInteger n r) :
    r.natAbs ≤ 2 * n.natAbs := by
  have hle := h.nearest 0 f.represents_zero
  omega

/-- **The grid of a binade.** A represented integer is a multiple of the unit, or lies below the
binade. -/
theorem Represents.grid {n : Int} (h : f.Represents n) (d : Nat) :
    (∃ k, n.natAbs = k * 2 ^ d) ∨ n.natAbs < 2 ^ f.fractionBits * 2 ^ d := by
  obtain ⟨s, e, hs, heq⟩ := h
  -- A unit that is a power of two of the binade divides it, or the number is too small for the
  -- binade.
  by_cases he : d ≤ e
  · refine .inl ⟨s * 2 ^ (e - d), ?_⟩
    rw [heq, Nat.mul_assoc, ← Nat.pow_add, Nat.sub_add_cancel he]
  · right
    obtain ⟨c, rfl⟩ : ∃ c, d = c + 1 := Nat.exists_eq_succ_of_ne_zero (by omega)
    calc n.natAbs = s * 2 ^ e := heq
      _ < 2 * 2 ^ f.fractionBits * 2 ^ e := Nat.mul_lt_mul_of_pos_right hs (Nat.two_pow_pos e)
      _ ≤ 2 * 2 ^ f.fractionBits * 2 ^ c :=
          Nat.mul_le_mul_left _ (Nat.pow_le_pow_right two_pos (by omega))
      _ = 2 ^ f.fractionBits * 2 ^ (c + 1) := by ring

/-- A multiple of a unit is divisible by twice the unit exactly if it is an even one. -/
theorem two_pow_succ_dvd_iff (k d : Nat) : (2 : Int) ^ (d + 1) ∣ (k * 2 ^ d : Nat) ↔ k % 2 = 0 := by
  have hcast : (2 : Int) ^ (d + 1) = ((2 * 2 ^ d : Nat) : Int) := by
    push_cast
    ring
  rw [hcast, Int.natCast_dvd_natCast, Nat.mul_dvd_mul_iff_right (Nat.two_pow_pos d),
    Nat.dvd_iff_mod_eq_zero]

/-- A rounded quotient in a binade gives the integer to round to. -/
theorem roundsInteger_of_grid {n d : Nat} (hlow : 2 ^ f.fractionBits * 2 ^ d ≤ n)
    (hhigh : n < 2 * 2 ^ f.fractionBits * 2 ^ d) :
    f.RoundsInteger n (roundDiv n (2 ^ d) * 2 ^ d : Nat) := by
  have hpos : 0 < 2 ^ d := Nat.two_pow_pos d
  have hle : roundDiv n (2 ^ d) ≤ 2 * 2 ^ f.fractionBits := by
    refine roundDiv_le hpos ?_
    rw [div_lt_iff₀ (by exact_mod_cast hpos)]
    exact_mod_cast hhigh
  -- The binade starts at a multiple of its unit.
  have hstart := roundDiv_nearest (n := n) hpos (2 ^ f.fractionBits)
  refine ⟨?_, ?_, ?_⟩
  · -- A quotient that is rounded up to the end of the binade starts the next one.
    rcases hle.lt_or_eq with hlt | heq
    · exact ⟨roundDiv n (2 ^ d), d, hlt, Int.natAbs_natCast _⟩
    · refine ⟨2 ^ f.fractionBits, d + 1, ?_, ?_⟩
      · have := Nat.two_pow_pos f.fractionBits
        omega
      · rw [Int.natAbs_natCast, heq]
        ring
  · intro m hm
    -- The number itself is not negative, so a negative one is farther than the start of the binade.
    by_cases hneg : m < 0
    · omega
    obtain ⟨k, hk⟩ | hbelow := hm.grid d
    · obtain rfl : m = (k * 2 ^ d : Nat) := by omega
      exact roundDiv_nearest hpos k
    · omega
  · intro m hm htie hne
    by_cases hneg : m < 0
    · omega
    obtain ⟨k, hk⟩ | hbelow := hm.grid d
    · obtain rfl : m = (k * 2 ^ d : Nat) := by omega
      have hother : k ≠ roundDiv n (2 ^ d) := by
        rintro rfl
        exact hne rfl
      obtain ⟨heven, hodd⟩ := roundDiv_even hpos hother htie
      refine ⟨d + 1, (two_pow_succ_dvd_iff _ _).mpr heven, ?_⟩
      rw [two_pow_succ_dvd_iff, hodd]
      exact Nat.one_ne_zero
    · omega

/-! ### The nearest pattern -/

/-- The number of a magnitude whose significand may have one bit too many. -/
theorem value_of_le {s j : Nat} (hs : s ≤ 2 * 2 ^ f.fractionBits)
    (hj : 0 < j → 2 ^ f.fractionBits ≤ s) :
    f.value (j * 2 ^ f.fractionBits + s) = s * 2 ^ (f.leastExponent + j) := by
  rcases hs.lt_or_eq with hlt | rfl
  · exact value_eq ⟨hlt, hj⟩
  · -- A significand with one bit too many is the first of the next binade.
    have hpos : 0 < 2 ^ f.fractionBits := Nat.two_pow_pos _
    have hcarry : j * 2 ^ f.fractionBits + 2 * 2 ^ f.fractionBits =
        (j + 1) * 2 ^ f.fractionBits + 2 ^ f.fractionBits := by ring
    rw [hcarry, value_eq ⟨by omega, fun _ => le_rfl⟩, two_zpow_step, Nat.cast_mul, Nat.cast_ofNat]
    ring

section Nearest

variable (hf : f.Proper) {t : Nat} (ht : t < 2 ^ (f.exponentBits - 1))

include hf ht

/-- Numbers up to a power of two within the range are not rounded to infinity. -/
theorem rounded_natCast_lt {n : Nat} (hn : n < 2 ^ t) : f.rounded n < f.infinity := by
  have hratio : f.ofRatio n 1 = f.rounded ((n : ℚ) / (1 : Nat)) := ofRatio_eq_rounded Nat.one_pos
  rw [Nat.cast_one, div_one] at hratio
  rw [← hratio]
  refine ofRatio_lt_infinity hf Nat.one_pos ?_ ht
  rw [Nat.cast_one, div_one, zpow_natCast]
  exact_mod_cast hn

/-- **A natural number is rounded to a natural number.** -/
theorem roundsInteger_natCast {n : Nat} (hn : n < 2 ^ t) :
    ∃ r : Nat, f.RoundsInteger n r ∧ f.value (f.rounded n) = r := by
  have hfinite := rounded_natCast_lt hf ht hn
  by_cases hsmall : n < 2 * 2 ^ f.fractionBits
  · -- A number that is held exactly.
    have hrepresents : f.Represents (n : Int) := represents_of_lt (by rwa [Int.natAbs_natCast])
    have hlimit : (((n : Int).natAbs : Nat) : ℚ) < f.limit := by
      calc (((n : Int).natAbs : Nat) : ℚ) = n := by rw [Int.natAbs_natCast]
        _ < 2 ^ t := by exact_mod_cast hn
        _ = 2 ^ (t : Int) := (zpow_natCast 2 t).symm
        _ ≤ f.limit := two_zpow_le_iff.mpr (by exact_mod_cast ht.le)
    obtain ⟨m, hm, hvalue⟩ := hrepresents.exists_value hf hlimit
    rw [Int.natAbs_natCast] at hvalue
    exact ⟨n, roundsInteger_self hrepresents, by rw [← hvalue, rounded_value hm]⟩
  · -- The unit of its binade is a whole number.
    have hpos : 0 < n := lt_of_lt_of_le (by positivity) (Nat.not_lt.mp hsmall)
    have hlog : f.fractionBits + 1 ≤ n.log2 := by
      rw [Nat.le_log2 hpos.ne', Nat.pow_succ, Nat.mul_comm]
      exact Nat.not_lt.mp hsmall
    obtain ⟨d, hd⟩ := Nat.exists_eq_add_of_le (Nat.le_of_succ_le hlog)
    obtain ⟨j, hj⟩ := f.exists_steps n.log2
    have hunit : f.leastExponent + j = d := by
      obtain ⟨-, htwo⟩ := two_pow_exponentBits hf
      rw [leastExponent_eq] at hj ⊢
      omega
    have hlow : 2 ^ f.fractionBits * 2 ^ d ≤ n := by
      rw [← Nat.pow_add, ← hd]
      exact Nat.log2_self_le hpos.ne'
    have hhigh : n < 2 * 2 ^ f.fractionBits * 2 ^ d := by
      calc n < 2 ^ (n.log2 + 1) := Nat.lt_log2_self
        _ = 2 * 2 ^ f.fractionBits * 2 ^ d := by rw [hd]; ring
    obtain ⟨hbinade, hnext⟩ := log2_bounds hpos
    -- Rounding in the format is rounding the quotient by the unit, which is a whole number here.
    have hrounded : f.rounded n = j * 2 ^ f.fractionBits + roundDiv n (2 ^ d) := by
      have hscaled : (n : ℚ) / (2 ^ d : Nat) = n / 2 ^ (f.leastExponent + j) := by
        rw [hunit, zpow_natCast, Nat.cast_pow, Nat.cast_ofNat]
      rw [rounded_of_log (Nat.two_pow_pos d) hbinade hnext hj hscaled] at hfinite ⊢
      exact min_eq_right (by omega)
    refine ⟨_, roundsInteger_of_grid hlow hhigh, ?_⟩
    rw [hrounded, value_of_le (roundDiv_le_of_log (by omega))
      fun _ => le_roundDiv_of_log hpos (by omega), hunit, zpow_natCast]
    push_cast
    rfl

/-- **The pattern nearest to an integer** is finite, and its number is what the integer is rounded
to. -/
theorem IsNearest.integer {n : Int} {bits : Nat} (hn : n.natAbs < 2 ^ t) (h : f.IsNearest n bits) :
    f.isFinite bits = true ∧ ∃ r : Int, f.RoundsInteger n r ∧ f.number bits = r := by
  obtain ⟨negative, rfl, hsign⟩ := h
  have hfinite := rounded_natCast_lt hf ht hn
  obtain ⟨r, hr, hvalue⟩ := roundsInteger_natCast hf ht hn
  have hweight := hfinite.trans f.infinity_lt_signWeight
  -- The sign of the pattern is that of the number, unless the number is zero.
  rcases lt_trichotomy n 0 with hneg | rfl | hpos
  · have hcast : (n : ℚ) = -(n.natAbs : ℚ) := by
      rw [Nat.cast_natAbs, abs_of_neg hneg, Int.cast_neg, neg_neg]
    have hminus : negative = true :=
      (hsign (by exact_mod_cast hneg.ne)).trans (decide_eq_true (by exact_mod_cast hneg))
    rw [hminus, hcast, rounded_neg, number_withSign _ hweight, hvalue]
    refine ⟨isFinite_withSign _ hfinite, -(r : Int), ?_, ?_⟩
    · have hn' : n = -(n.natAbs : Int) := by omega
      rw [hn']
      exact hr.neg
    · rw [Int.cast_neg, Int.cast_natCast]
      rfl
  · -- Zero has two patterns, and one number.
    have hcast : ((0 : Int) : ℚ) = (((0 : Int).natAbs : Nat) : ℚ) := by simp
    have hzero : (r : ℚ) = 0 := by exact_mod_cast hr.eq f.represents_zero
    rw [hcast, number_withSign _ hweight, hvalue, hzero, signed_zero]
    exact ⟨isFinite_withSign _ hfinite, 0, roundsInteger_self f.represents_zero, Int.cast_zero.symm⟩
  · have hcast : (n : ℚ) = (n.natAbs : ℚ) := by
      rw [Nat.cast_natAbs, abs_of_pos hpos]
    have hplus : negative = false :=
      (hsign (by exact_mod_cast hpos.ne')).trans
        (decide_eq_false (by exact_mod_cast hpos.le.not_gt))
    rw [hplus, hcast, number_withSign _ hweight, hvalue]
    refine ⟨isFinite_withSign _ hfinite, r, ?_, ?_⟩
    · rwa [Int.natAbs_of_nonneg hpos.le] at hr
    · rw [Int.cast_natCast]
      rfl

end Nearest

/-- An integer and its pattern. -/
theorem isNearest_ofInt (f : Format) (n : Int) : f.IsNearest n (f.ofInt n) := by
  have hratio : f.ofRatio n.natAbs 1 = f.rounded ((n.natAbs : ℚ) / (1 : Nat)) :=
    ofRatio_eq_rounded Nat.one_pos
  rw [Nat.cast_one, div_one] at hratio
  -- An integer is its magnitude with its sign.
  have hsigned : signed (decide (n < 0)) (n.natAbs : ℚ) = n := by
    by_cases hneg : n < 0
    · rw [decide_eq_true hneg, Nat.cast_natAbs, abs_of_neg hneg, Int.cast_neg]
      exact neg_neg _
    · rw [decide_eq_false hneg, Nat.cast_natAbs, abs_of_nonneg (Int.not_lt.mp hneg)]
      rfl
  have hnearest := f.isNearest_signed (decide (n < 0)) (Nat.cast_nonneg n.natAbs)
  rwa [hsigned, ← hratio] at hnearest

/-- The pattern of an integer has its sign. -/
theorem isNegative_ofInt (f : Format) (n : Int) : f.isNegative (f.ofInt n) = decide (n < 0) :=
  isNegative_withSign _ ((f.ofRatio_le_infinity _ _).trans_lt f.infinity_lt_signWeight)

/-- The number of a pattern, cut to a range. -/
theorem toRange_of_number {bits : Nat} {r : Int} (low high : Int) (hlt : bits < 2 * f.signWeight)
    (hfinite : f.isFinite bits = true) (hnumber : f.number bits = r) :
    f.toRange low high bits = if low ≤ r ∧ r ≤ high then r else low := by
  have hnonneg : 0 ≤ f.value (f.magnitude bits) :=
    mul_nonneg (Nat.cast_nonneg _) (two_zpow_pos _).le
  have hvalue : f.value (f.magnitude bits) = r.natAbs := by
    rw [number, signed] at hnumber
    rw [Nat.cast_natAbs, Int.cast_abs, ← hnumber]
    split
    · rw [abs_neg, abs_of_nonneg hnonneg]
    · rw [abs_of_nonneg hnonneg]
  -- The number is an integer, so there is nothing to cut off behind the point.
  have htruncate : f.truncate bits = r := by
    rw [← withSign_magnitude hlt, truncate_withSign _ (of_decide_eq_true hfinite) hvalue]
    rw [number, hvalue] at hnumber
    apply (Int.cast_inj (α := ℚ)).mp
    rw [← hnumber, signed]
    split
    · rw [Int.cast_neg, Int.cast_natCast]
    · rw [Int.cast_natCast]
  unfold toRange
  dsimp only
  rw [if_pos hfinite, htruncate]

end Format

end EngineHost
