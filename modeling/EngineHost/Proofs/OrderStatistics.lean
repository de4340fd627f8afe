import EngineHost.Bench
import Mathlib.Data.List.GetD
import Mathlib.Data.Rat.Floor

/-!
# Order statistics of durations

`Bench.stats` sorts the durations and reads its figures off the sorted list. Sorting forgets the
order in which they came, and the list is ascending, so that each figure can be said of the
durations themselves: the first is the least, the last the largest, and the one at a place is known
by how many are below it (`Bench.ofRank_getElem`). Of two durations of one rank neither is below the
other (`Bench.OfRank.eq`), so a rank names one duration, and a higher rank never a smaller one.

The mean is the sum cut to a whole number toward zero. The sum is taken modulo the range of the
durations, in whatever order, so it is right at the end if it fits there at the end
(`Bench.toInt_total`). The mean then lies between the least and the largest (`Bench.tdiv_between`).
-/

namespace EngineHost

namespace Bench

/-- The durations from the least to the largest. -/
def ascending (durations : List Span) : List Span :=
  durations.mergeSort fun a b => decide (a ≤ b)

/-- **The duration of a rank**: fewer than so many are below it, and at least so many are not above
it. -/
structure OfRank (durations : List Span) (rank : Nat) (v : Span) : Prop where
  mem : v ∈ durations
  below : durations.countP (· < v) < rank
  upTo : rank ≤ durations.countP (· ≤ v)

/-- The nearest rank of a percentage of `n` durations. -/
def nearestRank (p n : Nat) : Nat :=
  ⌈(p * n : ℚ) / 100⌉₊

variable {durations other sorted : List Span}

/-! ### Sorting -/

/-- Sorting keeps the durations. -/
theorem ascending_perm (durations : List Span) : (ascending durations).Perm durations :=
  List.mergeSort_perm _ _

/-- Sorting makes them ascend. -/
theorem pairwise_ascending (durations : List Span) : (ascending durations).Pairwise (· ≤ ·) := by
  refine (List.pairwise_mergeSort ?_ ?_ durations).imp of_decide_eq_true
  · intro a b c hab hbc
    exact decide_eq_true (Int64.le_trans (of_decide_eq_true hab) (of_decide_eq_true hbc))
  · intro a b
    rw [Bool.or_eq_true, decide_eq_true_iff, decide_eq_true_iff]
    exact Int64.le_total a b

/-- The order in which durations came is forgotten. -/
theorem ascending_eq_of_perm (h : durations.Perm other) :
    ascending durations = ascending other := by
  refine List.Perm.eq_of_pairwise ?_ (pairwise_ascending _) (pairwise_ascending _) ?_
  · intro a b _ _ hab hba
    exact Int64.le_antisymm hab hba
  · exact (ascending_perm durations).trans (h.trans (ascending_perm other).symm)

theorem ascending_ne_nil (h : durations ≠ []) : ascending durations ≠ [] := by
  intro hnil
  have hperm := ascending_perm durations
  rw [hnil] at hperm
  exact h hperm.nil_eq.symm

/-- A later place holds no smaller duration. -/
theorem getElem_le_getElem (h : sorted.Pairwise (· ≤ ·)) {i j : Nat} (hij : i ≤ j)
    (hj : j < sorted.length) : sorted[i] ≤ sorted[j] := by
  rcases Nat.eq_or_lt_of_le hij with rfl | hlt
  · exact Int64.le_refl _
  · exact List.pairwise_iff_getElem.mp h i j (by omega) hj hlt

/-! ### Ranks -/

/-- Ranks do not depend on the order. -/
theorem OfRank.perm {rank : Nat} {v : Span} (h : OfRank durations rank v)
    (hperm : durations.Perm other) : OfRank other rank v where
  mem := hperm.mem_iff.mp h.mem
  below := hperm.countP_eq _ ▸ h.below
  upTo := hperm.countP_eq _ ▸ h.upTo

/-- A rank is not held by a duration and by a larger one. -/
theorem OfRank.not_lt {rank : Nat} {v w : Span} (hv : OfRank durations rank v)
    (hw : OfRank durations rank w) : ¬v < w := by
  intro hlt
  -- Whatever is not above the one is below the other.
  have hle : durations.countP (· ≤ v) ≤ durations.countP (· < w) := by
    refine List.countP_mono_left fun d _ hd => ?_
    exact decide_eq_true (Int64.lt_of_le_of_lt (of_decide_eq_true hd) hlt)
  exact absurd (hv.upTo.trans hle) (Nat.not_le.mpr hw.below)

/-- A rank names one duration. -/
theorem OfRank.eq {rank : Nat} {v w : Span} (hv : OfRank durations rank v)
    (hw : OfRank durations rank w) : v = w :=
  Int64.le_antisymm (Int64.not_lt.mp (hw.not_lt hv)) (Int64.not_lt.mp (hv.not_lt hw))

/-- **The place in an ascending list is the rank**: what stands before a place is not above it, and
what stands from there on is not below. -/
theorem ofRank_getElem (h : sorted.Pairwise (· ≤ ·)) {k : Nat} (hk : k < sorted.length) :
    OfRank sorted (k + 1) sorted[k] where
  mem := List.getElem_mem hk
  below := by
    -- Nothing from the place on is below what stands there.
    have hbehind : (sorted.drop k).countP (· < sorted[k]) = 0 := by
      refine List.countP_eq_zero.mpr fun d hd => ?_
      obtain ⟨i, hi, rfl⟩ := List.mem_drop_iff_getElem.mp hd
      have hle := getElem_le_getElem h (Nat.le_add_right k i) (by omega)
      simpa using hle
    have hbefore : (sorted.take k).countP (· < sorted[k]) ≤ k :=
      List.countP_le_length.trans (List.length_take_le k sorted)
    have hsplit : sorted.countP (· < sorted[k]) =
        (sorted.take k).countP (· < sorted[k]) + (sorted.drop k).countP (· < sorted[k]) := by
      rw [← List.countP_append, List.take_append_drop]
    omega
  upTo := by
    -- Everything up to the place is not above what stands there.
    have hall : (sorted.take (k + 1)).countP (· ≤ sorted[k]) = (sorted.take (k + 1)).length := by
      refine List.countP_eq_length.mpr fun d hd => ?_
      obtain ⟨i, hi, rfl⟩ := List.mem_take_iff_getElem.mp hd
      exact decide_eq_true (getElem_le_getElem h (by omega) hk)
    have hpart : (sorted.take (k + 1)).countP (· ≤ sorted[k]) ≤ sorted.countP (· ≤ sorted[k]) :=
      (List.take_sublist _ _).countP_le
    rw [hall, List.length_take] at hpart
    omega

/-! ### Percentiles -/

/-- Rounding up, in whole numbers. -/
theorem div_eq_nearestRank (p n : Nat) : (p * n + 99) / 100 = nearestRank p n := by
  refine eq_of_forall_ge_iff fun k => ?_
  rw [nearestRank, Nat.ceil_le, div_le_iff₀ (by norm_num)]
  norm_cast
  omega

theorem nearestRank_pos {p n : Nat} (hp : 0 < p) (hn : 0 < n) : 0 < nearestRank p n := by
  have := Nat.mul_pos hp hn
  rw [← div_eq_nearestRank]
  omega

theorem nearestRank_mono {p q : Nat} (h : p ≤ q) (n : Nat) : nearestRank p n ≤ nearestRank q n := by
  have := Nat.mul_le_mul_right n h
  rw [← div_eq_nearestRank, ← div_eq_nearestRank]
  omega

theorem nearestRank_le {p : Nat} (h : p ≤ 100) (n : Nat) : nearestRank p n ≤ n := by
  have := Nat.mul_le_mul_right n h
  rw [← div_eq_nearestRank]
  omega

/-- A percentile stands at its nearest rank. -/
theorem percentile_eq {p : Nat} (hp : 0 < p) (hp' : p ≤ 100) (hne : sorted ≠ []) :
    ∃ h : nearestRank p sorted.length - 1 < sorted.length,
      percentile sorted p = sorted[nearestRank p sorted.length - 1] := by
  have hlength := List.length_pos_of_ne_nil hne
  have hpos := nearestRank_pos hp hlength
  have hle := nearestRank_le hp' sorted.length
  refine ⟨by omega, ?_⟩
  have hmax : Nat.max (nearestRank p sorted.length) 1 = nearestRank p sorted.length :=
    Nat.max_eq_left hpos
  rw [percentile, div_eq_nearestRank, hmax]
  exact List.getD_eq_getElem _ _ (by omega)

/-- A percentile is the duration of its nearest rank. -/
theorem ofRank_percentile {p : Nat} (hp : 0 < p) (hp' : p ≤ 100) (hne : durations ≠ []) :
    OfRank durations (nearestRank p durations.length) (percentile (ascending durations) p) := by
  obtain ⟨hk, hat⟩ := percentile_eq hp hp' (ascending_ne_nil hne)
  have hpos := nearestRank_pos hp (List.length_pos_of_ne_nil hne)
  have hrank := ofRank_getElem (pairwise_ascending durations) hk
  rw [← hat, (ascending_perm durations).length_eq, Nat.sub_add_cancel hpos] at hrank
  exact hrank.perm (ascending_perm durations)

/-- A higher percentage gives no smaller percentile. -/
theorem percentile_mono {p q : Nat} (hp : 0 < p) (hpq : p ≤ q) (hq : q ≤ 100)
    (h : sorted.Pairwise (· ≤ ·)) (hne : sorted ≠ []) :
    percentile sorted p ≤ percentile sorted q := by
  obtain ⟨_, hatp⟩ := percentile_eq hp (hpq.trans hq) hne
  obtain ⟨hk, hatq⟩ := percentile_eq (hp.trans_le hpq) hq hne
  rw [hatp, hatq]
  exact getElem_le_getElem h (Nat.sub_le_sub_right (nearestRank_mono hpq _) 1) hk

/-! ### The mean -/

/-- The sum of the durations without a range. -/
def total (durations : List Span) : Int :=
  (durations.map Int64.toInt).sum

theorem total_perm (h : durations.Perm other) : total durations = total other :=
  (h.map _).sum_eq

/-- Sums within the range are the sum cut down to it at the end. -/
theorem toInt_foldl (durations : List Span) (start : Span) :
    (durations.foldl (· + ·) start).toInt = (start.toInt + total durations).bmod (2 ^ 64) := by
  -- The start changes with each duration that is added, so it is arbitrary.
  induction durations generalizing start with
  | nil =>
    rw [total, List.map_nil, List.sum_nil, Int.add_zero, List.foldl_nil]
    exact (Int64.toInt_bmod start).symm
  | cons d more ih =>
    have htotal : total (d :: more) = d.toInt + total more := rfl
    rw [List.foldl_cons, ih, Int64.toInt_add, Int.bmod_add_bmod, htotal, Int.add_assoc]

/-- A sum that fits at the end is exact. -/
theorem toInt_total (hlow : -2 ^ 63 ≤ total durations) (hhigh : total durations < 2 ^ 63) :
    (durations.foldl (· + ·) 0).toInt = total durations := by
  rw [toInt_foldl]
  change (0 + total durations).bmod (2 ^ 64) = _
  rw [Int.zero_add]
  exact Int.bmod_eq_of_le (by omega) (by omega)

/-- A quotient cut toward zero stays between whole numbers that the exact one is between. -/
theorem tdiv_between {a low high : Int} {n : Nat} (hn : 0 < n) (hlow : n * low ≤ a)
    (hhigh : a ≤ n * high) : low ≤ a.tdiv n ∧ a.tdiv n ≤ high := by
  have hpos : (0 : Int) < n := Int.natCast_pos.mpr hn
  rcases Int.le_total 0 a with ha | ha
  · rw [Int.tdiv_eq_ediv_of_nonneg ha]
    constructor
    · exact (Int.le_ediv_iff_mul_le hpos).mpr (by linarith)
    · exact Int.ediv_le_of_le_mul hpos (by linarith)
  · -- Below zero the quotient is cut upward, so the bounds are those of the opposite number.
    obtain ⟨b, rfl⟩ : ∃ b, a = -b := ⟨-a, by omega⟩
    rw [Int.neg_tdiv, Int.tdiv_eq_ediv_of_nonneg (by omega)]
    constructor
    · have := Int.ediv_le_of_le_mul hpos (by linarith : b ≤ -low * n)
      omega
    · have := (Int.le_ediv_iff_mul_le hpos).mpr (by linarith : -high * n ≤ b)
      omega

/-- The sum lies between as many times a lower and an upper bound. -/
theorem total_between {low high : Span} (hlow : ∀ d ∈ durations, low ≤ d)
    (hhigh : ∀ d ∈ durations, d ≤ high) : durations.length * low.toInt ≤ total durations ∧
      total durations ≤ durations.length * high.toInt := by
  induction durations with
  | nil => simp [total]
  | cons d more ih =>
    rw [List.forall_mem_cons] at hlow hhigh
    obtain ⟨ihlow, ihhigh⟩ := ih hlow.2 hhigh.2
    have hdlow := Int64.le_iff_toInt_le.mp hlow.1
    have hdhigh := Int64.le_iff_toInt_le.mp hhigh.1
    have htotal : total (d :: more) = d.toInt + total more := rfl
    rw [List.length_cons, htotal, Nat.cast_succ]
    constructor <;> linarith

/-- **The mean is in between**, if the sum and the number of durations are in range. -/
theorem mean_between {low high : Span} (hne : durations ≠ []) (hlow : ∀ d ∈ durations, low ≤ d)
    (hhigh : ∀ d ∈ durations, d ≤ high) (hlength : durations.length < 2 ^ 63)
    (hmin : -2 ^ 63 ≤ total durations) (hmax : total durations < 2 ^ 63) :
    low ≤ durations.foldl (· + ·) 0 / Int64.ofNat durations.length ∧
      durations.foldl (· + ·) 0 / Int64.ofNat durations.length ≤ high := by
  obtain ⟨hatLeast, hatMost⟩ := total_between hlow hhigh
  obtain ⟨hle, hge⟩ := tdiv_between (List.length_pos_of_ne_nil hne) hatLeast hatMost
  -- In between, the quotient fits and is not cut down.
  have hquotient : (durations.foldl (· + ·) 0 / Int64.ofNat durations.length).toInt =
      (total durations).tdiv durations.length := by
    rw [Int64.toInt_div, toInt_total hmin hmax, Int64.toInt_ofNat_of_lt hlength]
    have hlowest := Int64.le_toInt low
    have hhighest := Int64.toInt_lt high
    exact Int.bmod_eq_of_le (by omega) (by omega)
  rw [Int64.le_iff_toInt_le, Int64.le_iff_toInt_le, hquotient]
  exact ⟨hle, hge⟩

/-! ### The statistics -/

/-- What the statistics read off the sorted durations. -/
theorem stats_eq (hne : durations ≠ []) : stats durations =
    { min := (ascending durations).head (ascending_ne_nil hne)
      max := (ascending durations).getLast (ascending_ne_nil hne)
      mean := (ascending durations).foldl (· + ·) 0 / Int64.ofNat (ascending durations).length
      p50 := percentile (ascending durations) 50
      p95 := percentile (ascending durations) 95 } := by
  obtain ⟨least, more, hsorted⟩ := List.exists_cons_of_ne_nil (ascending_ne_nil hne)
  have hmerged : (durations.mergeSort fun a b => decide (a ≤ b)) = least :: more := hsorted
  unfold stats
  simp only [hsorted]
  rw [hmerged]
  rfl

/-- The statistics look at the sorted durations only. -/
theorem stats_perm (h : durations.Perm other) : stats durations = stats other := by
  have hsorted : (durations.mergeSort fun a b => decide (a ≤ b)) =
      other.mergeSort fun a b => decide (a ≤ b) := ascending_eq_of_perm h
  unfold stats
  rw [hsorted]

/-- The first of the sorted durations is the least. -/
theorem isLeast_min (hne : durations ≠ []) : IsLeast {d | d ∈ durations} (stats durations).min := by
  have hperm := ascending_perm durations
  rw [stats_eq hne]
  refine ⟨hperm.mem_iff.mp (List.head_mem _), fun d hd => ?_⟩
  obtain ⟨i, hi, rfl⟩ := List.mem_iff_getElem.mp (hperm.mem_iff.mpr hd)
  rw [List.head_eq_getElem]
  exact getElem_le_getElem (pairwise_ascending durations) (Nat.zero_le i) hi

/-- The last of the sorted durations is the largest. -/
theorem isGreatest_max (hne : durations ≠ []) :
    IsGreatest {d | d ∈ durations} (stats durations).max := by
  have hperm := ascending_perm durations
  rw [stats_eq hne]
  refine ⟨hperm.mem_iff.mp (List.getLast_mem _), fun d hd => ?_⟩
  obtain ⟨i, hi, rfl⟩ := List.mem_iff_getElem.mp (hperm.mem_iff.mpr hd)
  rw [List.getLast_eq_getElem]
  exact getElem_le_getElem (pairwise_ascending durations) (by omega) (by omega)

/-- **The statistics are order statistics.** They do not depend on the order of the durations. The
extremes are the least and the largest of them, and each percentile is the one duration of its
nearest rank; the percentiles ascend between the extremes. So does the mean, if the sum fits the
range of a duration; the number of durations, by which the sum is divided there, has to fit it as
well. -/
theorem stats_order_statistics (hne : durations ≠ []) :
    (∀ other, durations.Perm other → stats other = stats durations) ∧
    IsLeast {d | d ∈ durations} (stats durations).min ∧
    IsGreatest {d | d ∈ durations} (stats durations).max ∧
    (∀ v, OfRank durations (nearestRank 50 durations.length) v ↔ v = (stats durations).p50) ∧
    (∀ v, OfRank durations (nearestRank 95 durations.length) v ↔ v = (stats durations).p95) ∧
    (stats durations).min ≤ (stats durations).p50 ∧
    (stats durations).p50 ≤ (stats durations).p95 ∧
    (stats durations).p95 ≤ (stats durations).max ∧
    (durations.length < 2 ^ 63 → -2 ^ 63 ≤ total durations → total durations < 2 ^ 63 →
      (stats durations).min ≤ (stats durations).mean ∧
        (stats durations).mean ≤ (stats durations).max) := by
  have hleast := isLeast_min hne
  have hgreatest := isGreatest_max hne
  have hperm := ascending_perm durations
  rw [stats_eq hne] at hleast hgreatest ⊢
  have h50 := ofRank_percentile (by norm_num : 0 < 50) (by norm_num) hne
  have h95 := ofRank_percentile (by norm_num : 0 < 95) (by norm_num) hne
  refine ⟨fun other h => stats_eq hne ▸ (stats_perm h).symm, hleast, hgreatest, ?_, ?_,
    hleast.2 h50.mem, ?_, hgreatest.2 h95.mem, ?_⟩
  · exact fun v => ⟨fun hv => hv.eq h50, fun hv => hv ▸ h50⟩
  · exact fun v => ⟨fun hv => hv.eq h95, fun hv => hv ▸ h95⟩
  · exact percentile_mono (by norm_num) (by norm_num) (by norm_num) (pairwise_ascending _)
      (ascending_ne_nil hne)
  · intro hlength hlow hhigh
    refine mean_between (ascending_ne_nil hne) ?_ ?_ (hperm.length_eq ▸ hlength)
      (total_perm hperm ▸ hlow) (total_perm hperm ▸ hhigh)
    · exact fun d hd => hleast.2 (hperm.mem_iff.mp hd)
    · exact fun d hd => hgreatest.2 (hperm.mem_iff.mp hd)

/-- Durations with a repetition and a negative one: the middle is the second of four, the largest
the ninety-fifth percentile, and the mean is cut toward zero. -/
theorem stats_order_statistics_uneven :
    ([7, -20, 7, 3] : List Span) ≠ [] ∧
    (stats [7, -20, 7, 3]).min = -20 ∧ (stats [7, -20, 7, 3]).p50 = 3 ∧
    (stats [7, -20, 7, 3]).p95 = 7 ∧ (stats [7, -20, 7, 3]).max = 7 ∧
    (stats [7, -20, 7, 3]).mean = 0 ∧
    OfRank [7, -20, 7, 3] (nearestRank 50 4) 3 ∧
    (stats [7, -20, 7, 3]).min ≤ (stats [7, -20, 7, 3]).mean ∧
    (stats [7, -20, 7, 3]).mean ≤ (stats [7, -20, 7, 3]).max := by
  have hne : ([7, -20, 7, 3] : List Span) ≠ [] := by decide
  obtain ⟨-, -, -, hrank, -, -, -, -, hmean⟩ := stats_order_statistics hne
  -- The four are sorted by hand, as another order of the same.
  have hascending : ascending [7, -20, 7, 3] = [-20, 3, 7, 7] :=
    (ascending_eq_of_perm (by decide)).trans (List.mergeSort_of_pairwise (by decide))
  have hstats : stats [7, -20, 7, 3] = { min := -20, max := 7, mean := 0, p50 := 3, p95 := 7 } := by
    rw [stats_eq hne]
    simp only [hascending]
    rfl
  have hbetween := hmean (by decide) (by decide) (by decide)
  rw [hstats] at hrank hbetween ⊢
  exact ⟨hne, rfl, rfl, rfl, rfl, rfl, (hrank 3).mpr rfl, hbetween⟩

end Bench

end EngineHost
