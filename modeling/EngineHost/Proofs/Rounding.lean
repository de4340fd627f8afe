import EngineHost.Number.Binary
import Mathlib.Tactic.Linarith
import Mathlib.Tactic.Positivity
import Mathlib.Tactic.Ring

/-!
# Rounding to a format

What `Format.ofRatio` computes, over the rational numbers. A finite magnitude has a significand and
a number of steps above the least exponent (`Format.IsNormal`); its pattern is the number of steps
in units of the fraction field, plus the significand, and this is also how `Format.ofRatio` puts its
result together.

* `Format.ofRatio_eq` — a ratio that lies in the interval of a magnitude (`Format.RoundsTo`), which
  reaches half way to either neighbour, is rounded to it;
* `Format.ofRatio_value` — so a ratio that a format holds exactly is not changed;
* `Format.exists_value` — which ratios a format holds.

The interval of the least magnitude of a binade is shorter on its lower side, where the neighbours
stand half as far apart. A ratio there has its logarithm in the binade below, and the carry of its
rounding leads to the magnitude.
-/

namespace EngineHost

/-! ### Quotients -/

/-- A quotient within half a unit of a number is rounded to it; at half a unit, to an even one. -/
theorem roundDiv_eq {n d s : Nat} (hd : 0 < d) (hlow : (s : ℚ) - 1 / 2 ≤ (n : ℚ) / d)
    (hhigh : (n : ℚ) / d ≤ s + 1 / 2)
    (hodd : s % 2 = 1 → (s : ℚ) - 1 / 2 < (n : ℚ) / d ∧ (n : ℚ) / d < s + 1 / 2) :
    roundDiv n d = s := by
  have hd' : (0 : ℚ) < d := by exact_mod_cast hd
  -- The same in natural numbers, doubled.
  rw [le_div_iff₀ hd'] at hlow
  rw [div_le_iff₀ hd'] at hhigh
  rw [lt_div_iff₀ hd', div_lt_iff₀ hd'] at hodd
  have hlow' : 2 * (s * d) ≤ 2 * n + d := by
    have : (2 : ℚ) * (s * d) ≤ 2 * n + d := by linarith
    exact_mod_cast this
  have hhigh' : 2 * n ≤ 2 * (s * d) + d := by
    have : (2 : ℚ) * n ≤ 2 * (s * d) + d := by linarith
    exact_mod_cast this
  have hodd' : s % 2 = 1 → 2 * (s * d) < 2 * n + d ∧ 2 * n < 2 * (s * d) + d := by
    intro hs
    obtain ⟨hl, hh⟩ := hodd hs
    constructor
    · have : (2 : ℚ) * (s * d) < 2 * n + d := by linarith
      exact_mod_cast this
    · have : (2 : ℚ) * n < 2 * (s * d) + d := by linarith
      exact_mod_cast this
  have hdiv : d * (n / d) + n % d = n := Nat.div_add_mod n d
  have hmod : n % d < d := Nat.mod_lt n hd
  -- The whole part is the number itself or the one before it.
  have hle : n / d ≤ s := by
    by_contra hgt
    have : d * (s + 1) ≤ d * (n / d) := Nat.mul_le_mul_left d (by omega)
    rw [Nat.mul_add, Nat.mul_comm d s] at this
    omega
  have hge : s ≤ n / d + 1 := by
    by_contra hlt
    have : d * (n / d + 2) ≤ d * s := Nat.mul_le_mul_left d (by omega)
    rw [Nat.mul_add, Nat.mul_comm d s] at this
    omega
  unfold roundDiv
  dsimp only
  -- If the whole part is the number, nothing is added; if it is the one before, one is.
  rcases Nat.eq_or_lt_of_le hle with heq | hlt
  · rw [Nat.mul_comm d, heq] at hdiv
    rw [heq, if_neg]
    rintro (hup | ⟨htie, hs⟩)
    · omega
    · have := hodd' hs
      omega
  · have heq : s = n / d + 1 := by omega
    have hprod : s * d = d * (n / d) + d := by rw [heq]; ring
    rw [if_pos, heq]
    by_cases hup : d < 2 * (n % d)
    · exact .inl hup
    · refine .inr ⟨by omega, ?_⟩
      by_contra heven
      have := hodd' (by omega)
      omega

/-- A quotient is not rounded above a number that it does not reach. -/
theorem roundDiv_le {n d s : Nat} (hd : 0 < d) (hlt : (n : ℚ) / d < s) : roundDiv n d ≤ s := by
  have hd' : (0 : ℚ) < d := by exact_mod_cast hd
  rw [div_lt_iff₀ hd'] at hlt
  have hlt' : n < s * d := by exact_mod_cast hlt
  have hdiv : n / d < s := (Nat.div_lt_iff_lt_mul hd).mpr hlt'
  unfold roundDiv
  dsimp only
  split <;> omega

/-- Scaling divides by something that is not zero. -/
theorem scaleRatio_pos {den : Nat} (hden : 0 < den) (num : Nat) (e : Int) :
    0 < (scaleRatio num den e).2 := by
  unfold scaleRatio
  split
  · rw [Nat.shiftLeft_eq]
    positivity
  · exact hden

/-- Scaling divides by a power of two. -/
theorem scaleRatio_eq (num den : Nat) (e : Int) :
    ((scaleRatio num den e).1 : ℚ) / (scaleRatio num den e).2 = (num : ℚ) / den / 2 ^ e := by
  unfold scaleRatio
  split
  next he =>
    obtain ⟨k, rfl⟩ := Int.eq_ofNat_of_zero_le he
    simp only [Int.toNat_natCast, Nat.shiftLeft_eq, Nat.cast_mul, Nat.cast_pow, Nat.cast_ofNat,
      zpow_natCast, div_div]
  next he =>
    obtain ⟨k, hk⟩ : ∃ k : Nat, e = -(k : Int) := ⟨(-e).toNat, by omega⟩
    subst hk
    simp only [neg_neg, Int.toNat_natCast, Nat.shiftLeft_eq, Nat.cast_mul, Nat.cast_pow,
      Nat.cast_ofNat, zpow_neg, zpow_natCast, div_inv_eq_mul]
    ring

theorem two_zpow_pos (e : Int) : (0 : ℚ) < 2 ^ e :=
  zpow_pos two_pos e

theorem two_zpow_lt_iff {a b : Int} : (2 : ℚ) ^ a < 2 ^ b ↔ a < b :=
  zpow_lt_zpow_iff_right₀ one_lt_two

theorem two_zpow_le_iff {a b : Int} : (2 : ℚ) ^ a ≤ 2 ^ b ↔ a ≤ b :=
  zpow_le_zpow_iff_right₀ one_lt_two

/-- A positive number lies between the powers of two around its logarithm. -/
theorem log2_bounds {n : Nat} (hn : 0 < n) :
    (2 : ℚ) ^ (n.log2 : Int) ≤ n ∧ (n : ℚ) < 2 ^ ((n.log2 : Int) + 1) := by
  have hlow : 2 ^ n.log2 ≤ n := Nat.log2_self_le hn.ne'
  have hhigh : n < 2 ^ (n.log2 + 1) := Nat.lt_log2_self
  constructor
  · rw [zpow_natCast]
    exact_mod_cast hlow
  · rw [← Nat.cast_succ, zpow_natCast]
    exact_mod_cast hhigh

/-- **The logarithm of a ratio.** -/
theorem ratioLog_bounds {num den : Nat} (hnum : 0 < num) (hden : 0 < den) :
    (2 : ℚ) ^ ratioLog num den ≤ (num : ℚ) / den ∧
      (num : ℚ) / den < 2 ^ (ratioLog num den + 1) := by
  obtain ⟨hnumLow, hnumHigh⟩ := log2_bounds hnum
  obtain ⟨hdenLow, hdenHigh⟩ := log2_bounds hden
  have hden' : (0 : ℚ) < den := by exact_mod_cast hden
  -- The logarithms of the parts leave a choice between two binades.
  have hlow : (2 : ℚ) ^ ((num.log2 : Int) - den.log2 - 1) ≤ (num : ℚ) / den := by
    rw [le_div_iff₀ hden']
    calc (2 : ℚ) ^ ((num.log2 : Int) - den.log2 - 1) * den
        ≤ 2 ^ ((num.log2 : Int) - den.log2 - 1) * 2 ^ ((den.log2 : Int) + 1) :=
          mul_le_mul_of_nonneg_left hdenHigh.le (two_zpow_pos _).le
      _ = 2 ^ (num.log2 : Int) := by rw [← zpow_add₀ two_ne_zero]; congr 1; ring
      _ ≤ num := hnumLow
  have hhigh : (num : ℚ) / den < 2 ^ ((num.log2 : Int) - den.log2 + 1) := by
    rw [div_lt_iff₀ hden']
    calc (num : ℚ) < 2 ^ ((num.log2 : Int) + 1) := hnumHigh
      _ = 2 ^ ((num.log2 : Int) - den.log2 + 1) * 2 ^ (den.log2 : Int) := by
          rw [← zpow_add₀ two_ne_zero]; congr 1; ring
      _ ≤ 2 ^ ((num.log2 : Int) - den.log2 + 1) * den :=
          mul_le_mul_of_nonneg_left hdenLow (two_zpow_pos _).le
  -- The scaled ratio says which of them it is.
  have hscaled := scaleRatio_eq num den ((num.log2 : Int) - den.log2)
  have hpos := scaleRatio_pos hden num ((num.log2 : Int) - den.log2)
  have hpos' : (0 : ℚ) < (scaleRatio num den ((num.log2 : Int) - den.log2)).2 := by
    exact_mod_cast hpos
  have hiff : (scaleRatio num den ((num.log2 : Int) - den.log2)).2 ≤
      (scaleRatio num den ((num.log2 : Int) - den.log2)).1 ↔
      (2 : ℚ) ^ ((num.log2 : Int) - den.log2) ≤ (num : ℚ) / den := by
    rw [← one_le_div (two_zpow_pos _), ← hscaled, one_le_div hpos']
    exact Nat.cast_le.symm
  unfold ratioLog
  dsimp only
  split
  next h => exact ⟨hiff.mp h, hhigh⟩
  next h =>
    refine ⟨hlow, ?_⟩
    rw [sub_add_cancel]
    exact lt_of_not_ge fun hge => h (hiff.mpr hge)

namespace Format

variable {f : Format}

/-! ### Magnitudes -/

/-- Infinity: a full exponent field and an empty fraction. -/
theorem infinity_eq (f : Format) : f.infinity = (2 ^ f.exponentBits - 1) * 2 ^ f.fractionBits :=
  rfl

/-- The exponent of the last bit of the least number. -/
theorem leastExponent_eq (f : Format) :
    f.leastExponent = 2 - (2 ^ (f.exponentBits - 1) : Nat) - f.fractionBits :=
  rfl

/-- A format that has a fraction and more than two exponents. -/
structure Proper (f : Format) : Prop where
  fraction : 0 < f.fractionBits
  exponent : 2 ≤ f.exponentBits

theorem half_proper : half.Proper := ⟨by decide, by decide⟩

theorem single_proper : single.Proper := ⟨by decide, by decide⟩

theorem double_proper : double.Proper := ⟨by decide, by decide⟩

/-- **A significand and the steps above the least exponent**, as the magnitudes of a format have
them: above the least exponent the highest bit of the significand is set. -/
structure IsNormal (f : Format) (s k : Nat) : Prop where
  lt : s < 2 * 2 ^ f.fractionBits
  le : 0 < k → 2 ^ f.fractionBits ≤ s

/-- Without the highest bit there are no steps. -/
theorem IsNormal.steps_eq_zero {s k : Nat} (h : f.IsNormal s k) (hs : s < 2 ^ f.fractionBits) :
    k = 0 := by
  by_contra hk
  have hle := h.le (Nat.pos_of_ne_zero hk)
  omega

/-- A magnitude that is not zero has a significand that is not. -/
theorem IsNormal.pos {s k : Nat} (h : f.IsNormal s k) (hne : k * 2 ^ f.fractionBits + s ≠ 0) :
    0 < s := by
  by_contra hs
  obtain rfl : s = 0 := Nat.eq_zero_of_not_pos hs
  obtain rfl : k = 0 := h.steps_eq_zero (by positivity)
  exact hne (Nat.zero_mul _)

/-- **Every magnitude is normal**, as a significand and steps. -/
theorem exists_isNormal (f : Format) (m : Nat) :
    ∃ s k, f.IsNormal s k ∧ m = k * 2 ^ f.fractionBits + s := by
  have hdiv : 2 ^ f.fractionBits * (m / 2 ^ f.fractionBits) + m % 2 ^ f.fractionBits = m :=
    Nat.div_add_mod m _
  have hmod : m % 2 ^ f.fractionBits < 2 ^ f.fractionBits := Nat.mod_lt _ (by positivity)
  -- An empty exponent field is that of the least binade, and all others have a bit that is not
  -- written.
  cases hexponent : m / 2 ^ f.fractionBits with
  | zero =>
    refine ⟨m % 2 ^ f.fractionBits, 0, ⟨by omega, by omega⟩, ?_⟩
    rw [hexponent] at hdiv
    omega
  | succ k =>
    refine ⟨2 ^ f.fractionBits + m % 2 ^ f.fractionBits, k, ⟨by omega, by omega⟩, ?_⟩
    rw [hexponent, Nat.mul_succ, Nat.mul_comm] at hdiv
    omega

/-- The parts of a magnitude are the ones it is put together from. -/
theorem parts_eq {s k : Nat} (h : f.IsNormal s k) :
    f.parts (k * 2 ^ f.fractionBits + s) = (s, f.leastExponent + k) := by
  have hpos : 0 < 2 ^ f.fractionBits := by positivity
  have hlt := h.lt
  unfold parts
  dsimp only
  -- Below the highest bit there are no steps, so the exponent field is empty.
  by_cases hs : s < 2 ^ f.fractionBits
  · obtain rfl : k = 0 := h.steps_eq_zero hs
    have hdiv : (0 * 2 ^ f.fractionBits + s) / Nat.pow 2 f.fractionBits = 0 := by
      rw [Nat.zero_mul, Nat.zero_add]
      exact Nat.div_eq_of_lt hs
    have hmod : (0 * 2 ^ f.fractionBits + s) % Nat.pow 2 f.fractionBits = s := by
      rw [Nat.zero_mul, Nat.zero_add]
      exact Nat.mod_eq_of_lt hs
    rw [if_pos hdiv, hmod]
    simp
  · obtain ⟨r, rfl⟩ := Nat.exists_eq_add_of_le (Nat.not_lt.mp hs)
    have hr : r < 2 ^ f.fractionBits := by omega
    have hsum : k * 2 ^ f.fractionBits + (2 ^ f.fractionBits + r) =
        r + 2 ^ f.fractionBits * (k + 1) := by
      ring
    have hdiv : (k * 2 ^ f.fractionBits + (2 ^ f.fractionBits + r)) / Nat.pow 2 f.fractionBits =
        k + 1 := by
      rw [hsum]
      exact (Nat.add_mul_div_left r (k + 1) hpos).trans (by rw [Nat.div_eq_of_lt hr, Nat.zero_add])
    have hmod : (k * 2 ^ f.fractionBits + (2 ^ f.fractionBits + r)) % Nat.pow 2 f.fractionBits =
        r := by
      rw [hsum]
      exact (Nat.add_mul_mod_self_left r _ (k + 1)).trans (Nat.mod_eq_of_lt hr)
    rw [hdiv, hmod, if_neg (Nat.succ_ne_zero k)]
    rfl

/-- The number that a magnitude stands for. -/
def value (f : Format) (m : Nat) : ℚ :=
  (f.parts m).1 * 2 ^ (f.parts m).2

/-- The number of a magnitude is its significand in units of its step. -/
theorem value_eq {s k : Nat} (h : f.IsNormal s k) :
    f.value (k * 2 ^ f.fractionBits + s) = s * 2 ^ (f.leastExponent + k) := by
  rw [value, parts_eq h]

/-! ### Rounding -/

/-- **The interval of a magnitude**: the ratios that are rounded to it. It reaches half way to the
neighbours, which stand closer below a power of two, and has its ends if the significand is even. -/
structure RoundsTo (f : Format) (s k : Nat) (x : ℚ) : Prop where
  low : ((s : ℚ) - if s = 2 ^ f.fractionBits ∧ 0 < k then 1 / 4 else 1 / 2) *
    2 ^ (f.leastExponent + k) ≤ x
  high : x ≤ ((s : ℚ) + 1 / 2) * 2 ^ (f.leastExponent + k)
  odd : s % 2 = 1 → ((s : ℚ) - 1 / 2) * 2 ^ (f.leastExponent + k) < x ∧
    x < ((s : ℚ) + 1 / 2) * 2 ^ (f.leastExponent + k)

/-- A magnitude lies in its own interval. -/
theorem roundsTo_self (f : Format) (s k : Nat) :
    f.RoundsTo s k (s * 2 ^ (f.leastExponent + k)) := by
  have hpos := two_zpow_pos (f.leastExponent + k)
  refine ⟨?_, ?_, fun _ => ⟨?_, ?_⟩⟩
  · split <;> nlinarith
  · nlinarith
  · nlinarith
  · nlinarith

/-- What is rounded to a positive number is positive. -/
theorem RoundsTo.pos {s k : Nat} {x : ℚ} (h : f.RoundsTo s k x) (hs : 0 < s) : 0 < x := by
  have hone : (1 : ℚ) ≤ s := by exact_mod_cast hs
  refine lt_of_lt_of_le (mul_pos ?_ (two_zpow_pos _)) h.low
  split <;> linarith

/-- The power of two at the highest bit of a significand. -/
theorem two_zpow_highest (f : Format) (e : Int) :
    (2 : ℚ) ^ (f.fractionBits + e : Int) = (2 ^ f.fractionBits : Nat) * 2 ^ e := by
  rw [zpow_add₀ two_ne_zero, zpow_natCast, Nat.cast_pow, Nat.cast_ofNat]

/-- One step doubles the unit. -/
theorem two_zpow_step (f : Format) (k : Nat) :
    (2 : ℚ) ^ (f.leastExponent + (k + 1 : Nat)) = 2 * 2 ^ (f.leastExponent + k) := by
  rw [Nat.cast_succ, ← add_assoc, zpow_add₀ two_ne_zero _ 1, zpow_one, mul_comm]

/-- The grid of a ratio is not coarser than that of the magnitude it is rounded to. -/
theorem RoundsTo.ratioLog_le {num den s k : Nat} (h : f.RoundsTo s k ((num : ℚ) / den))
    (hnormal : f.IsNormal s k) (hnum : 0 < num) (hden : 0 < den) :
    ratioLog num den ≤ f.fractionBits + (f.leastExponent + k) := by
  -- The significand has room for half a unit before the next power of two.
  have hs : (s : ℚ) + 1 ≤ 2 * (2 ^ f.fractionBits : Nat) := by exact_mod_cast hnormal.lt
  have hpow : (2 : ℚ) ^ ratioLog num den <
      2 ^ (f.fractionBits + (f.leastExponent + (k + 1 : Nat))) := by
    calc (2 : ℚ) ^ ratioLog num den ≤ (num : ℚ) / den := (ratioLog_bounds hnum hden).1
      _ ≤ ((s : ℚ) + 1 / 2) * 2 ^ (f.leastExponent + k) := h.high
      _ < (2 * (2 ^ f.fractionBits : Nat)) * 2 ^ (f.leastExponent + k) :=
          mul_lt_mul_of_pos_right (by linarith) (two_zpow_pos _)
      _ = 2 ^ (f.fractionBits + (f.leastExponent + (k + 1 : Nat))) := by
          rw [two_zpow_highest, two_zpow_step]
          ring
  have hlog := two_zpow_lt_iff.mp hpow
  omega

/-- On the grid of the magnitude the quotient is within half a unit of the significand. -/
theorem RoundsTo.roundDiv_scaled {num den s k : Nat} (h : f.RoundsTo s k ((num : ℚ) / den))
    (hden : 0 < den) :
    roundDiv (scaleRatio num den (f.leastExponent + k)).1
      (scaleRatio num den (f.leastExponent + k)).2 = s := by
  have hunit := two_zpow_pos (f.leastExponent + k)
  refine roundDiv_eq (scaleRatio_pos hden num _) ?_ ?_ fun hs => ?_
  · rw [scaleRatio_eq, le_div_iff₀ hunit]
    refine le_trans (mul_le_mul_of_nonneg_right ?_ hunit.le) h.low
    split <;> linarith
  · rw [scaleRatio_eq, div_le_iff₀ hunit]
    exact h.high
  · rw [scaleRatio_eq, lt_div_iff₀ hunit, div_lt_iff₀ hunit]
    exact h.odd hs

/-- If the highest bit of a ratio is below that of its magnitude, the magnitude is a power of
two. -/
theorem RoundsTo.eq_two_pow {s k : Nat} {x : ℚ} (h : f.RoundsTo s k x) (hnormal : f.IsNormal s k)
    (hk : 0 < k) (hbelow : x < 2 ^ (f.fractionBits + (f.leastExponent + k))) :
    s = 2 ^ f.fractionBits := by
  refine le_antisymm ?_ (hnormal.le hk)
  have hunit := two_zpow_pos (f.leastExponent + k)
  have hlt : ((s : ℚ) - 1 / 2) * 2 ^ (f.leastExponent + k) <
      (2 ^ f.fractionBits : Nat) * 2 ^ (f.leastExponent + k) := by
    calc ((s : ℚ) - 1 / 2) * 2 ^ (f.leastExponent + k)
        ≤ (s - if s = 2 ^ f.fractionBits ∧ 0 < k then 1 / 4 else 1 / 2) *
            2 ^ (f.leastExponent + k) :=
          mul_le_mul_of_nonneg_right (by split <;> linarith) hunit.le
      _ ≤ x := h.low
      _ < 2 ^ (f.fractionBits + (f.leastExponent + k)) := hbelow
      _ = (2 ^ f.fractionBits : Nat) * 2 ^ (f.leastExponent + k) := f.two_zpow_highest _
  have hs : (s : ℚ) < (2 ^ f.fractionBits : Nat) + 1 := by
    have hcancel := lt_of_mul_lt_mul_right hlt hunit.le
    linarith
  exact Nat.lt_succ_iff.mp (by exact_mod_cast hs)

/-- A ratio just below a power of two: its grid is twice as fine, and there the quotient is rounded
up to the power. -/
theorem RoundsTo.finer {num den j : Nat}
    (h : f.RoundsTo (2 ^ f.fractionBits) (j + 1) ((num : ℚ) / den)) (hnum : 0 < num)
    (hden : 0 < den)
    (hbelow : (num : ℚ) / den < 2 ^ (f.fractionBits + (f.leastExponent + (j + 1 : Nat)))) :
    f.fractionBits + (f.leastExponent + j) ≤ ratioLog num den ∧
      roundDiv (scaleRatio num den (f.leastExponent + j)).1
        (scaleRatio num den (f.leastExponent + j)).2 = 2 * 2 ^ f.fractionBits := by
  have hunit := two_zpow_pos (f.leastExponent + j)
  have hone : (1 : ℚ) ≤ (2 ^ f.fractionBits : Nat) := by exact_mod_cast Nat.one_le_two_pow
  -- Below the power the interval reaches a quarter of a unit, which is half a unit of the finer
  -- grid.
  have hlow := h.low
  rw [if_pos ⟨rfl, Nat.succ_pos j⟩, two_zpow_step] at hlow
  rw [two_zpow_highest, two_zpow_step] at hbelow
  constructor
  · have hpow : (2 : ℚ) ^ (f.fractionBits + (f.leastExponent + j)) <
        2 ^ (ratioLog num den + 1) := by
      refine lt_of_le_of_lt (le_trans ?_ hlow) (ratioLog_bounds hnum hden).2
      rw [two_zpow_highest]
      nlinarith
    have hlog := two_zpow_lt_iff.mp hpow
    omega
  · refine roundDiv_eq (scaleRatio_pos hden num _) ?_ ?_ fun hodd => ?_
    · rw [scaleRatio_eq, le_div_iff₀ hunit, Nat.cast_mul, Nat.cast_ofNat]
      linarith
    · rw [scaleRatio_eq, div_le_iff₀ hunit, Nat.cast_mul, Nat.cast_ofNat]
      nlinarith
    · omega

/-- What `ofRatio` computes at a grid. -/
theorem ofRatio_of_grid {num den s : Nat} (hnum : num ≠ 0) {e : Int} {j : Nat}
    (he : max (ratioLog num den - f.fractionBits) f.leastExponent = e)
    (hj : e = f.leastExponent + j)
    (hround : roundDiv (scaleRatio num den e).1 (scaleRatio num den e).2 = s) :
    f.ofRatio num den = min f.infinity (j * 2 ^ f.fractionBits + s) := by
  have hsteps : (e - f.leastExponent).toNat = j := by omega
  unfold ofRatio
  dsimp only
  rw [if_neg hnum, he, hround, hsteps]
  rfl

/-- **Rounding.** A ratio in the interval of a finite magnitude is rounded to it. -/
theorem ofRatio_eq {num den s k : Nat} (hden : 0 < den) (hnormal : f.IsNormal s k)
    (hfinite : k * 2 ^ f.fractionBits + s < f.infinity)
    (hnear : f.RoundsTo s k ((num : ℚ) / den)) :
    f.ofRatio num den = k * 2 ^ f.fractionBits + s := by
  by_cases hnum : num = 0
  · -- Zero is rounded to zero alone.
    obtain rfl : s = 0 := by
      by_contra hs
      have hpos := hnear.pos (Nat.pos_of_ne_zero hs)
      rw [hnum, Nat.cast_zero, zero_div] at hpos
      exact absurd hpos (lt_irrefl 0)
    obtain rfl : k = 0 := hnormal.steps_eq_zero (by positivity)
    unfold ofRatio
    rw [if_pos hnum, Nat.zero_mul]
  have hnum' : 0 < num := Nat.pos_of_ne_zero hnum
  have hlog := hnear.ratioLog_le hnormal hnum' hden
  -- On the grid of the magnitude nothing is carried.
  by_cases hgrid : max (ratioLog num den - f.fractionBits) f.leastExponent = f.leastExponent + k
  · rw [ofRatio_of_grid hnum hgrid rfl (hnear.roundDiv_scaled hden)]
    exact min_eq_right hfinite.le
  · -- On any other grid the ratio lies below a power of two.
    obtain ⟨j, rfl⟩ : ∃ j, k = j + 1 := Nat.exists_eq_succ_of_ne_zero (by omega)
    have hbelow : (num : ℚ) / den < 2 ^ (f.fractionBits + (f.leastExponent + (j + 1 : Nat))) := by
      refine lt_of_lt_of_le (ratioLog_bounds hnum' hden).2 (two_zpow_le_iff.mpr ?_)
      omega
    obtain rfl := hnear.eq_two_pow hnormal (Nat.succ_pos j) hbelow
    obtain ⟨hlogLow, hround⟩ := hnear.finer hnum' hden hbelow
    have hfiner : max (ratioLog num den - f.fractionBits) f.leastExponent =
        f.leastExponent + j := by
      omega
    have hcarry : j * 2 ^ f.fractionBits + 2 * 2 ^ f.fractionBits =
        (j + 1) * 2 ^ f.fractionBits + 2 ^ f.fractionBits := by ring
    rw [ofRatio_of_grid hnum hfiner rfl hround, hcarry]
    exact min_eq_right hfinite.le

/-- **A ratio that a format holds is rounded to itself.** -/
theorem ofRatio_value {num den m : Nat} (hden : 0 < den) (hfinite : m < f.infinity)
    (hvalue : (num : ℚ) / den = f.value m) : f.ofRatio num den = m := by
  obtain ⟨s, k, hnormal, rfl⟩ := f.exists_isNormal m
  refine ofRatio_eq hden hnormal hfinite ?_
  rw [hvalue, value_eq hnormal]
  exact f.roundsTo_self s k

/-- A scaled number that a format holds is rounded to itself. -/
theorem ofScaled_value {s : Nat} {e : Int} {m : Nat} (hfinite : m < f.infinity)
    (hvalue : (s : ℚ) * 2 ^ e = f.value m) : f.ofScaled s e = m := by
  unfold ofScaled
  dsimp only
  refine ofRatio_value (scaleRatio_pos Nat.one_pos s (-e)) hfinite ?_
  rw [scaleRatio_eq, ← hvalue, Nat.cast_one, div_one, zpow_neg, div_inv_eq_mul]

/-! ### What a format holds -/

/-- The power of two above the finite numbers of a format. -/
def limit (f : Format) : ℚ :=
  2 ^ ((2 ^ (f.exponentBits - 1) : Nat) : Int)

/-- Half of the exponents lie on either side. -/
theorem two_pow_exponentBits (hf : f.Proper) :
    2 ^ f.exponentBits = 2 * 2 ^ (f.exponentBits - 1) ∧ 2 ≤ 2 ^ (f.exponentBits - 1) := by
  obtain ⟨k, hk⟩ := Nat.exists_eq_add_of_le hf.exponent
  have hpred : f.exponentBits - 1 = k + 1 := by omega
  have hpos : 0 < 2 ^ k := by positivity
  rw [hpred, show f.exponentBits = k + 1 + 1 by omega, Nat.pow_succ 2 (k + 1), Nat.pow_succ 2 k]
  omega

/-- Every finite magnitude is below the limit. -/
theorem value_lt_limit (hf : f.Proper) {m : Nat} (hm : m < f.infinity) : f.value m < f.limit := by
  obtain ⟨s, k, hnormal, rfl⟩ := f.exists_isNormal m
  obtain ⟨htwice, htwo⟩ := two_pow_exponentBits hf
  rw [infinity_eq] at hm
  -- The steps leave room for one more binade.
  have hsteps : k + 3 ≤ 2 ^ f.exponentBits := by
    rcases Nat.eq_zero_or_pos k with rfl | hk
    · omega
    · have hle := hnormal.le hk
      have hlt : (k + 1) * 2 ^ f.fractionBits < (2 ^ f.exponentBits - 1) * 2 ^ f.fractionBits := by
        refine lt_of_le_of_lt ?_ hm
        rw [Nat.add_mul, Nat.one_mul]
        exact Nat.add_le_add_left hle _
      have := Nat.lt_of_mul_lt_mul_right hlt
      omega
  -- The significand has one bit more than the fraction.
  have hs : (s : ℚ) < 2 ^ ((f.fractionBits : Int) + 1) := by
    rw [← Nat.cast_succ, zpow_natCast, pow_succ, mul_comm]
    exact_mod_cast hnormal.lt
  rw [value_eq hnormal, limit]
  calc (s : ℚ) * 2 ^ (f.leastExponent + k)
      < 2 ^ ((f.fractionBits : Int) + 1) * 2 ^ (f.leastExponent + k) :=
        mul_lt_mul_of_pos_right hs (two_zpow_pos _)
    _ = 2 ^ ((f.fractionBits : Int) + 1 + (f.leastExponent + k)) := (zpow_add₀ two_ne_zero _ _).symm
    _ ≤ 2 ^ ((2 ^ (f.exponentBits - 1) : Nat) : Int) := by
        rw [two_zpow_le_iff, leastExponent_eq]
        omega

/-- A magnitude below the limit is finite. -/
theorem lt_infinity (hf : f.Proper) {s k : Nat} (hnormal : f.IsNormal s k)
    (hlt : (s : ℚ) * 2 ^ (f.leastExponent + k) < f.limit) :
    k * 2 ^ f.fractionBits + s < f.infinity := by
  obtain ⟨htwice, htwo⟩ := two_pow_exponentBits hf
  -- There are fewer steps than the limit has, since the highest bit is set on each of them.
  have hsteps : k + 2 ≤ 2 ^ f.exponentBits - 1 := by
    rcases Nat.eq_zero_or_pos k with rfl | hk
    · omega
    · have hs : (2 : ℚ) ^ (f.fractionBits : Int) ≤ s := by
        rw [zpow_natCast]
        exact_mod_cast hnormal.le hk
      have hpow : (2 : ℚ) ^ ((f.fractionBits : Int) + (f.leastExponent + k)) < f.limit := by
        rw [zpow_add₀ two_ne_zero]
        exact lt_of_le_of_lt (mul_le_mul_of_nonneg_right hs (two_zpow_pos _).le) hlt
      rw [limit, two_zpow_lt_iff, leastExponent_eq] at hpow
      omega
  rw [infinity_eq]
  calc k * 2 ^ f.fractionBits + s < k * 2 ^ f.fractionBits + 2 * 2 ^ f.fractionBits :=
        Nat.add_lt_add_left hnormal.lt _
    _ = (k + 2) * 2 ^ f.fractionBits := (Nat.add_mul _ _ _).symm
    _ ≤ (2 ^ f.exponentBits - 1) * 2 ^ f.fractionBits := Nat.mul_le_mul_right _ hsteps

/-- A significand without its highest bit takes the bit from the exponent, as far as that goes. -/
theorem exists_normalized (f : Format) {s : Nat} (hs : s < 2 * 2 ^ f.fractionBits) (k : Nat) :
    ∃ t j, f.IsNormal t j ∧
      (t : ℚ) * 2 ^ (f.leastExponent + j) = s * 2 ^ (f.leastExponent + k) := by
  -- One bit at a time, until the highest is set or no step is left.
  induction k generalizing s with
  | zero => exact ⟨s, 0, ⟨hs, by omega⟩, rfl⟩
  | succ k ih =>
    by_cases hle : 2 ^ f.fractionBits ≤ s
    · exact ⟨s, k + 1, ⟨hs, fun _ => hle⟩, rfl⟩
    · obtain ⟨t, j, hnormal, hvalue⟩ := ih (s := 2 * s) (by omega)
      refine ⟨t, j, hnormal, ?_⟩
      rw [hvalue, two_zpow_step, Nat.cast_mul, Nat.cast_ofNat]
      ring

/-- **What a format holds**: what has a significand of its width, an exponent that is not below its
least one, and lies below its limit. -/
theorem exists_value (hf : f.Proper) {s : Nat} {e : Int} (hs : s < 2 * 2 ^ f.fractionBits)
    (he : f.leastExponent ≤ e) (hlt : (s : ℚ) * 2 ^ e < f.limit) :
    ∃ m < f.infinity, f.value m = s * 2 ^ e := by
  obtain ⟨k, rfl⟩ := Int.le.dest he
  obtain ⟨t, j, hnormal, hvalue⟩ := f.exists_normalized hs k
  refine ⟨j * 2 ^ f.fractionBits + t, ?_, ?_⟩
  · exact lt_infinity hf hnormal (hvalue ▸ hlt)
  · rw [value_eq hnormal, hvalue]

/-- A ratio that is well below the limit is rounded to a finite number. -/
theorem ofRatio_lt_infinity (hf : f.Proper) {num den t : Nat} (hden : 0 < den)
    (hlt : (num : ℚ) / den < 2 ^ (t : Int)) (ht : t < 2 ^ (f.exponentBits - 1)) :
    f.ofRatio num den < f.infinity := by
  obtain ⟨htwice, htwo⟩ := two_pow_exponentBits hf
  have hpos : 0 < 2 ^ f.fractionBits := by positivity
  -- Zero is finite, and everything else has a logarithm.
  by_cases hnum : num = 0
  · unfold ofRatio
    rw [if_pos hnum, infinity_eq]
    exact Nat.mul_pos (by omega) hpos
  obtain ⟨hlogLow, hlogHigh⟩ := ratioLog_bounds (Nat.pos_of_ne_zero hnum) hden
  have hlog : ratioLog num den < t := two_zpow_lt_iff.mp (lt_of_le_of_lt hlogLow hlt)
  obtain ⟨j, hj⟩ : ∃ j : Nat,
      max (ratioLog num den - f.fractionBits) f.leastExponent = f.leastExponent + j :=
    ⟨(max (ratioLog num den - f.fractionBits) f.leastExponent - f.leastExponent).toNat, by omega⟩
  -- On its grid the ratio has at most as many bits as a significand.
  have hround : roundDiv (scaleRatio num den (f.leastExponent + j)).1
      (scaleRatio num den (f.leastExponent + j)).2 ≤ 2 * 2 ^ f.fractionBits := by
    refine roundDiv_le (scaleRatio_pos hden num _) ?_
    rw [scaleRatio_eq, div_lt_iff₀ (two_zpow_pos _)]
    calc (num : ℚ) / den < 2 ^ (ratioLog num den + 1) := hlogHigh
      _ ≤ 2 ^ ((f.fractionBits : Int) + 1 + (f.leastExponent + j)) := by
          rw [two_zpow_le_iff]
          omega
      _ = ((2 * 2 ^ f.fractionBits : Nat) : ℚ) * 2 ^ (f.leastExponent + j) := by
          rw [zpow_add₀ two_ne_zero, zpow_add₀ two_ne_zero, zpow_natCast, zpow_one]
          push_cast
          ring
  rw [ofRatio_of_grid hnum hj rfl rfl]
  refine lt_of_le_of_lt (min_le_right _ _) ?_
  -- Even with a carry there is a binade left.
  have hsteps : j + 2 < 2 ^ f.exponentBits - 1 := by
    rw [leastExponent_eq] at hj
    omega
  rw [infinity_eq]
  calc j * 2 ^ f.fractionBits + _ ≤ j * 2 ^ f.fractionBits + 2 * 2 ^ f.fractionBits :=
        Nat.add_le_add_left hround _
    _ = (j + 2) * 2 ^ f.fractionBits := (Nat.add_mul _ _ _).symm
    _ < (2 ^ f.exponentBits - 1) * 2 ^ f.fractionBits := Nat.mul_lt_mul_of_pos_right hsteps hpos

end Format

end EngineHost
