import EngineHost.Number.Shortest
import EngineHost.Proofs.Rounding
import Mathlib.Data.Nat.Cast.Order.Field
import Mathlib.Tactic.FieldSimp

/-!
# Shortest decimals are rounded back

The decimal of a positive finite magnitude lies in the interval of the magnitude
(`Shortest.roundsTo_decimal`), so rounding gives the magnitude again.

The search tests grid points and takes none outside the interval, hence only its end is in question:
with twenty digits the step of the grid is smaller than the interval on either side of the number,
whatever its size, and the point below the number lies inside.
-/

namespace EngineHost

namespace Shortest

/-! ### Powers of ten -/

/-- Both parts of a power of ten are positive. -/
theorem tenPower_pos (e : Int) : 0 < (tenPower e).1 ∧ 0 < (tenPower e).2 := by
  have hpow (n : Nat) : 0 < Nat.pow 10 n := Nat.pow_pos (by decide)
  unfold tenPower
  split
  · exact ⟨hpow _, Nat.one_pos⟩
  · exact ⟨Nat.one_pos, hpow _⟩

/-- The parts of a power of ten make up the power. -/
theorem tenPower_eq (e : Int) : ((tenPower e).1 : ℚ) / (tenPower e).2 = 10 ^ e := by
  have hpow (n : Nat) : ((Nat.pow 10 n : Nat) : ℚ) = 10 ^ n := by
    change ((10 ^ n : Nat) : ℚ) = 10 ^ n
    push_cast
    rfl
  unfold tenPower
  split
  next he =>
    obtain ⟨k, rfl⟩ := Int.eq_ofNat_of_zero_le he
    rw [Int.toNat_natCast, zpow_natCast, hpow, Nat.cast_one, div_one]
  next he =>
    obtain ⟨k, hk⟩ : ∃ k : Nat, e = -(k : Int) := ⟨(-e).toNat, by omega⟩
    subst hk
    rw [neg_neg, Int.toNat_natCast, zpow_neg, zpow_natCast, hpow, Nat.cast_one, one_div]

theorem ten_zpow_pos (e : Int) : (0 : ℚ) < 10 ^ e :=
  zpow_pos (by norm_num) e

theorem ten_zpow_lt_iff {a b : Int} : (10 : ℚ) ^ a < 10 ^ b ↔ a < b :=
  zpow_lt_zpow_iff_right₀ (by norm_num)

/-- A positive number lies between the powers of ten that its digits say. -/
theorem decimalLength_bounds {n : Nat} (hn : 0 < n) :
    (10 : ℚ) ^ ((decimalLength n : Int) - 1) ≤ n ∧ (n : ℚ) < 10 ^ (decimalLength n : Int) := by
  have hlen : 0 < decimalLength n := Nat.length_toDigits_pos
  have hhigh : n < 10 ^ decimalLength n :=
    (Nat.length_toDigits_le_iff (by decide) hlen).mp (le_refl (decimalLength n))
  have hlow : 10 ^ (decimalLength n - 1) ≤ n := by
    rcases Nat.eq_zero_or_pos (decimalLength n - 1) with hzero | hpos
    · rw [hzero]
      exact hn
    · -- Below that power of ten it would have a digit less.
      have hnot : ¬decimalLength n ≤ decimalLength n - 1 := by omega
      exact Nat.not_lt.mp (mt (Nat.length_toDigits_le_iff (by decide) hpos).mpr hnot)
  constructor
  · have hcast : (decimalLength n : Int) - 1 = (decimalLength n - 1 : Nat) := by omega
    rw [hcast, zpow_natCast]
    exact_mod_cast hlow
  · rw [zpow_natCast]
    exact_mod_cast hhigh

/-- The leading digit of a ratio stands at a power of ten that the ratio reaches. -/
theorem leadingExponent_le {num den : Nat} (hnum : 0 < num) (hden : 0 < den) :
    (10 : ℚ) ^ leadingExponent num den ≤ (num : ℚ) / den := by
  have hden' : (0 : ℚ) < den := by exact_mod_cast hden
  obtain ⟨hlow, -⟩ := decimalLength_bounds hnum
  obtain ⟨-, hhigh⟩ := decimalLength_bounds hden
  -- The lengths alone give the power below, and a comparison decides about the next one.
  have hbelow : (10 : ℚ) ^ ((decimalLength num : Int) - decimalLength den - 1) ≤
      (num : ℚ) / den := by
    rw [le_div_iff₀ hden']
    calc (10 : ℚ) ^ ((decimalLength num : Int) - decimalLength den - 1) * den
        ≤ 10 ^ ((decimalLength num : Int) - decimalLength den - 1) *
          10 ^ (decimalLength den : Int) :=
          mul_le_mul_of_nonneg_left hhigh.le (ten_zpow_pos _).le
      _ = 10 ^ ((decimalLength num : Int) - 1) := by
          rw [← zpow_add₀ (by norm_num)]
          congr 1
          ring
      _ ≤ num := hlow
  unfold leadingExponent
  dsimp only
  split
  next hle =>
    obtain ⟨-, hpos⟩ := tenPower_pos ((decimalLength num : Int) - decimalLength den)
    rw [← tenPower_eq, div_le_div_iff₀ (by exact_mod_cast hpos) hden']
    exact_mod_cast hle
  next => exact hbelow

/-! ### The interval -/

variable {f : Format}

/-- The denominator of a scaled number does not depend on the number. -/
theorem scaleRatio_den (a b den : Nat) (e : Int) :
    (scaleRatio a den e).2 = (scaleRatio b den e).2 := by
  unfold scaleRatio
  split <;> rfl

/-- **An interval over its denominator.** -/
structure Interval.Spans (i : Interval) (f : Format) (s k : Nat) : Prop where
  den : 0 < i.den
  low : (i.low : ℚ) / i.den = ((s : ℚ) - if s = 2 ^ f.fractionBits ∧ 0 < k then 1 / 4 else 1 / 2) *
    2 ^ (f.leastExponent + k)
  value : (i.value : ℚ) / i.den = s * 2 ^ (f.leastExponent + k)
  high : (i.high : ℚ) / i.den = ((s : ℚ) + 1 / 2) * 2 ^ (f.leastExponent + k)
  closed : i.closed = true ↔ s % 2 = 0

/-- The interval of a magnitude, in quarters of its unit. -/
theorem interval_spans {s k : Nat} (hnormal : f.IsNormal s k) (hs : 0 < s) :
    (interval f (k * 2 ^ f.fractionBits + s)).Spans f s k := by
  have hquarter (n : Nat) : ((scaleRatio n 1 (2 - (f.leastExponent + k))).1 : ℚ) /
      (scaleRatio 1 1 (2 - (f.leastExponent + k))).2 = (n : ℚ) / 4 * 2 ^ (f.leastExponent + k) := by
    rw [scaleRatio_den 1 n, scaleRatio_eq, Nat.cast_one, div_one, zpow_sub₀ two_ne_zero]
    have := two_zpow_pos (f.leastExponent + k)
    field_simp
    norm_num
  -- Only above the lowest binade is the spacing below a power of two halved.
  have hbelow : (f.leastExponent < f.leastExponent + k) ↔ 0 < k := by omega
  unfold interval
  rw [Format.parts_eq hnormal]
  dsimp only
  refine ⟨scaleRatio_pos Nat.one_pos _ _, ?_, ?_, ?_, decide_eq_true_iff⟩
  · rw [hquarter]
    by_cases hpower : s = 2 ^ f.fractionBits ∧ 0 < k
    · rw [if_pos hpower, if_pos ⟨hpower.1, hbelow.mpr hpower.2⟩, Nat.cast_sub (by omega)]
      push_cast
      ring
    · rw [if_neg hpower, if_neg (fun h => hpower ⟨h.1, hbelow.mp h.2⟩), Nat.cast_sub (by omega)]
      push_cast
      ring
  · rw [hquarter]
    push_cast
    ring
  · rw [hquarter]
    push_cast
    ring

/-- What the test for a point of an interval says. -/
theorem Interval.holds_iff {i : Interval} (hden : 0 < i.den) (d : Nat) {un ud : Nat}
    (hud : 0 < ud) : i.holds d un ud = true ↔
      if i.closed = true then
        (i.low : ℚ) / i.den ≤ d * ((un : ℚ) / ud) ∧ d * ((un : ℚ) / ud) ≤ (i.high : ℚ) / i.den
      else (i.low : ℚ) / i.den < d * ((un : ℚ) / ud) ∧
        d * ((un : ℚ) / ud) < (i.high : ℚ) / i.den := by
  have hden' : (0 : ℚ) < i.den := by exact_mod_cast hden
  have hud' : (0 : ℚ) < ud := by exact_mod_cast hud
  unfold Interval.holds
  dsimp only
  rw [← mul_div_assoc, div_le_div_iff₀ hden' hud', div_le_div_iff₀ hud' hden',
    div_lt_div_iff₀ hden' hud', div_lt_div_iff₀ hud' hden']
  split
  · rw [Bool.and_eq_true, decide_eq_true_eq, decide_eq_true_eq]
    exact_mod_cast Iff.rfl
  · rw [Bool.and_eq_true, decide_eq_true_eq, decide_eq_true_eq]
    exact_mod_cast Iff.rfl

/-- A point of the interval is rounded to the magnitude. -/
theorem Interval.Spans.roundsTo (hf : f.Proper) {i : Interval} {s k : Nat} (h : i.Spans f s k)
    {d : Nat} {e : Int} (hholds : i.holds d (tenPower e).1 (tenPower e).2 = true) :
    f.RoundsTo s k (d * 10 ^ e) := by
  rw [Interval.holds_iff h.den d (tenPower_pos e).2, tenPower_eq, h.low, h.high] at hholds
  have hclosed : ((s : ℚ) - if s = 2 ^ f.fractionBits ∧ 0 < k then 1 / 4 else 1 / 2) *
      2 ^ (f.leastExponent + k) ≤ d * 10 ^ e ∧
      (d : ℚ) * 10 ^ e ≤ ((s : ℚ) + 1 / 2) * 2 ^ (f.leastExponent + k) := by
    split at hholds
    · exact hholds
    · exact ⟨hholds.1.le, hholds.2.le⟩
  refine ⟨hclosed.1, hclosed.2, fun hodd => ?_⟩
  -- As the format has a fraction, an odd significand is no power of two, and its interval has two
  -- equal halves.
  have heven : (2 ^ f.fractionBits) % 2 = 0 := by
    rw [← Nat.succ_pred_eq_of_pos hf.fraction, Nat.pow_succ, Nat.mul_mod_left]
  have hopen : ¬i.closed = true := fun hclosed => by
    have := h.closed.mp hclosed
    omega
  rw [if_neg hopen, if_neg (by rintro ⟨rfl, -⟩; omega)] at hholds
  exact hholds

/-! ### The search -/

/-- The search takes points of the interval only. -/
theorem holds_of_onGrid {i : Interval} {step : Int} {d : Nat} (h : onGrid i step = some d) :
    i.holds d (tenPower step).1 (tenPower step).2 = true := by
  unfold onGrid at h
  dsimp only at h
  split at h
  next hfloor hup =>
    split at h
    · cases h
      exact hfloor
    · cases h
      exact hup
  next hfloor _ =>
    cases h
    exact hfloor
  next hup =>
    cases h
    exact hup
  next => cases h

/-- A fine grid has a point in the interval: the one below the number. -/
theorem onGrid_ne_none {i : Interval} {s k : Nat} (h : i.Spans f s k) {step : Int}
    (hfine : (10 : ℚ) ^ step ≤ 2 ^ (f.leastExponent + k) / 4) : onGrid i step ≠ none := by
  obtain ⟨hun, hud⟩ := tenPower_pos step
  have hunit := two_zpow_pos (f.leastExponent + k)
  have hten := ten_zpow_pos step
  -- The number in steps of the grid, as a quotient of whole numbers.
  have hprod : 0 < i.den * (tenPower step).1 := Nat.mul_pos h.den hun
  have hquotient : (s : ℚ) * 2 ^ (f.leastExponent + k) / 10 ^ step =
      (i.value * (tenPower step).2 : Nat) / (i.den * (tenPower step).1 : Nat) := by
    have hden' : (0 : ℚ) < i.den := by exact_mod_cast h.den
    have hun' : (0 : ℚ) < (tenPower step).1 := by exact_mod_cast hun
    have hud' : (0 : ℚ) < (tenPower step).2 := by exact_mod_cast hud
    rw [← h.value, ← tenPower_eq]
    push_cast
    field_simp
  -- The point below the number is less than a step away.
  have hle := Nat.cast_div_le (α := ℚ) (m := i.value * (tenPower step).2)
    (n := i.den * (tenPower step).1)
  have hlt := (Nat.lt_mul_div_succ (i.value * (tenPower step).2) hprod).trans_eq (Nat.mul_comm _ _)
  unfold onGrid
  dsimp only
  generalize i.value * (tenPower step).2 / (i.den * (tenPower step).1) = floor at hle hlt ⊢
  rw [← hquotient, le_div_iff₀ hten] at hle
  have hlt' : (s : ℚ) * 2 ^ (f.leastExponent + k) < floor * 10 ^ step + 10 ^ step := by
    rw [← add_one_mul, ← div_lt_iff₀ hten, hquotient, div_lt_iff₀ (by exact_mod_cast hprod)]
    exact_mod_cast hlt
  have hinside : (i.low : ℚ) / i.den < floor * 10 ^ step ∧
      floor * 10 ^ step < (i.high : ℚ) / i.den := by
    rw [h.low, h.high]
    constructor
    · refine lt_of_le_of_lt ?_ (sub_lt_iff_lt_add.mpr hlt')
      split <;> nlinarith
    · nlinarith
  have hfloor : i.holds floor (tenPower step).1 (tenPower step).2 = true := by
    rw [Interval.holds_iff h.den _ hud, tenPower_eq]
    split
    · exact ⟨hinside.1.le, hinside.2.le⟩
    · exact hinside
  rw [hfloor]
  -- This point is found, or the one above it.
  cases i.holds (floor + 1) (tenPower step).1 (tenPower step).2 with
  | false => exact Option.some_ne_none _
  | true =>
    dsimp only
    split <;> exact Option.some_ne_none _

/-- Twenty digits are enough: behind its leading digit a number of this width needs no more than
nineteen. -/
theorem Interval.Spans.onGrid_ne_none {i : Interval} {s k : Nat} (h : i.Spans f s k)
    (hwidth : 2 ^ (f.fractionBits + 3) ≤ 10 ^ 19) (hnormal : f.IsNormal s k) (hs : 0 < s) :
    onGrid i (leadingExponent i.value i.den + 1 - (1 + 19 : Nat)) ≠ none := by
  have hunit := two_zpow_pos (f.leastExponent + k)
  have hden : (0 : ℚ) < i.den := by exact_mod_cast h.den
  have hvalue : 0 < i.value := by
    have hpos : (0 : ℚ) < (i.value : ℚ) / i.den := by
      rw [h.value]
      exact mul_pos (by exact_mod_cast hs) hunit
    exact Nat.cast_pos.mp ((div_pos_iff_of_pos_right hden).mp hpos)
  have hlead := leadingExponent_le hvalue h.den
  rw [h.value] at hlead
  -- By the width of the format, four times the significand has no more than nineteen digits.
  have hbits : (s : ℚ) * 4 ≤ 10 ^ 19 := by
    have hlt := hnormal.lt
    have hnat : s * 4 ≤ 10 ^ 19 := by
      rw [Nat.pow_add] at hwidth
      omega
    exact_mod_cast hnat
  have hsplit : (10 : ℚ) ^ (leadingExponent i.value i.den + 1 - (1 + 19 : Nat)) =
      10 ^ leadingExponent i.value i.den / 10 ^ 19 := by
    rw [← zpow_natCast 10 19, ← zpow_sub₀ (by norm_num)]
    congr 1
    push_cast
    ring
  refine Shortest.onGrid_ne_none h ?_
  rw [hsplit, div_le_div_iff₀ (by positivity) (by norm_num)]
  nlinarith

/-- **The search ends in the interval**, if a grid within its reach has a point there. -/
theorem search_holds {i : Interval} {lead : Int} {fuel count j : Nat} (hj : j < fuel)
    (hgrid : onGrid i (lead + 1 - (count + j : Nat)) ≠ none) :
    i.holds (search i lead fuel count).1 (tenPower (search i lead fuel count).2).1
      (tenPower (search i lead fuel count).2).2 = true := by
  -- Either the grid at hand has a point, or the one that has is nearer by one digit.
  induction fuel generalizing count j with
  | zero => exact absurd hj (Nat.not_lt_zero j)
  | succ fuel ih =>
    rw [search]
    split
    next d hsome => exact holds_of_onGrid hsome
    next hnone =>
      cases j with
      | zero => exact absurd hnone hgrid
      | succ j =>
        refine ih (j := j) (by omega) ?_
        rwa [Nat.add_assoc, Nat.add_comm 1 j]

/-- Dropping zeros keeps the number. -/
theorem dropZeros_eq (fuel d : Nat) (e : Int) :
    ((dropZeros fuel d e).1 : ℚ) * 10 ^ (dropZeros fuel d e).2 = d * 10 ^ e := by
  induction fuel generalizing d e with
  | zero => rfl
  | succ fuel ih =>
    rw [dropZeros]
    split
    next h =>
      have hd : d = d / 10 * 10 := by omega
      have hcast : (d : ℚ) = (d / 10 : Nat) * 10 := by exact_mod_cast hd
      rw [ih, hcast, zpow_add₀ (by norm_num), zpow_one]
      ring
    next => rfl

end Shortest

/-- The number that a decimal stands for. -/
def Decimal.value (d : Decimal) : ℚ :=
  d.digits * 10 ^ (d.exponent - (Shortest.decimalLength d.digits - 1 : Nat))

namespace Shortest

variable {f : Format}

/-- **The decimal of a magnitude is rounded to it.** -/
theorem roundsTo_decimal (hf : f.Proper) (hwidth : 2 ^ (f.fractionBits + 3) ≤ 10 ^ 19) {s k : Nat}
    (hnormal : f.IsNormal s k) (hs : 0 < s) :
    f.RoundsTo s k (decimal f (k * 2 ^ f.fractionBits + s)).value ∧
      0 < (decimal f (k * 2 ^ f.fractionBits + s)).digits := by
  have hspans := interval_spans hnormal hs
  -- From here on only what the interval spans matters.
  generalize hi : interval f (k * 2 ^ f.fractionBits + s) = i at hspans
  have hholds := search_holds (show 19 < 20 by decide) (hspans.onGrid_ne_none hwidth hnormal hs)
  have hrounds := hspans.roundsTo hf hholds
  -- Zeros at the end are dropped, and the exponent moves to the leading digit.
  have hdecimal : (decimal f (k * 2 ^ f.fractionBits + s)).value =
      ((search i (leadingExponent i.value i.den) 20 1).1 : ℚ) *
        10 ^ (search i (leadingExponent i.value i.den) 20 1).2 := by
    rw [← dropZeros_eq 20]
    unfold decimal Decimal.value
    dsimp only
    rw [hi, add_sub_cancel_right]
  rw [← hdecimal] at hrounds
  exact ⟨hrounds, Nat.cast_pos.mp ((mul_pos_iff_of_pos_right (ten_zpow_pos _)).mp (hrounds.pos hs))⟩

end Shortest

end EngineHost
