import EngineHost.Number.Layout
import EngineHost.Proofs.NumberConversions
import EngineHost.Proofs.Numerals
import EngineHost.Proofs.ShortestDecimals

/-!
# Numbers that come back from text

A finite number of sixty-four bits is written as a numeral, and the numeral is read as that number
(`Double.text_eq`). Every layout writes the digits of the shortest decimal, only with the point at
another place (`Layout.write_eq`), so the numeral stands for the number of the decimal; the decimal
lies in the interval of the number, and rounding gives the number back.
-/

namespace EngineHost

/-- The number that a numeral stands for, its sign apart. -/
def Numeral.value (n : Numeral) : ℚ :=
  n.significand * 10 ^ n.exponent

/-- A whole number times a power of ten lies between the powers of ten around its leading digit. -/
theorem lead_bounds {m : Nat} (hm : 0 < m) (e : Int) :
    (10 : ℚ) ^ (e + (Shortest.decimalLength m : Int) - 1) ≤ m * 10 ^ e ∧
      (m : ℚ) * 10 ^ e < 10 ^ (e + (Shortest.decimalLength m : Int)) := by
  obtain ⟨hlow, hhigh⟩ := Shortest.decimalLength_bounds hm
  have hten := Shortest.ten_zpow_pos e
  constructor
  · calc (10 : ℚ) ^ (e + (Shortest.decimalLength m : Int) - 1)
        = 10 ^ ((Shortest.decimalLength m : Int) - 1) * 10 ^ e := by
          rw [← zpow_add₀ (by norm_num)]
          congr 1
          ring
      _ ≤ m * 10 ^ e := mul_le_mul_of_nonneg_right hlow hten.le
  · calc (m : ℚ) * 10 ^ e < 10 ^ (Shortest.decimalLength m : Int) * 10 ^ e :=
          mul_lt_mul_of_pos_right hhigh hten
      _ = 10 ^ (e + (Shortest.decimalLength m : Int)) := by
          rw [← zpow_add₀ (by norm_num), add_comm]

/-- The exponent of a decimal is that of its leading digit. -/
theorem Decimal.lead_bounds {d : Decimal} (hd : 0 < d.digits) :
    (10 : ℚ) ^ d.exponent ≤ d.value ∧ d.value < 10 ^ (d.exponent + 1) := by
  -- The number of digits tells the last digit's power from the first one's.
  have hlen : 0 < Shortest.decimalLength d.digits := Nat.length_toDigits_pos
  obtain ⟨hlow, hhigh⟩ :=
    EngineHost.lead_bounds hd (d.exponent - (Shortest.decimalLength d.digits - 1 : Nat))
  have hlead : d.exponent - (Shortest.decimalLength d.digits - 1 : Nat) +
      (Shortest.decimalLength d.digits : Int) = d.exponent + 1 := by omega
  rw [hlead] at hlow hhigh
  rw [add_sub_cancel_right] at hlow
  exact ⟨hlow, hhigh⟩

/-! ### Layouts -/

namespace Numeral

theorem isDigit_of_mem_toDigits {n : Nat} {c : Char} (hc : c ∈ Nat.toDigits 10 n) :
    c.isDigit = true :=
  Nat.isDigit_of_mem_toDigits (by decide) (by decide) hc

theorem isDigit_of_mem_zeros {k : Nat} {c : Char} (hc : c ∈ List.replicate k '0') :
    c.isDigit = true := by
  rw [List.eq_of_mem_replicate hc]
  rfl

/-- The digits of a positive number with a point between them, behind the first `w`. -/
def cut (negative : Bool) {m w : Nat} (hm : 0 < m) (hw : 0 < w) (power : Option Int) : Numeral where
  negative := negative
  whole := (Nat.toDigits 10 m).take w
  fraction := (Nat.toDigits 10 m).drop w
  power := power
  whole_ne_nil := by
    rw [ne_eq, List.take_eq_nil_iff, not_or]
    exact ⟨hw.ne', Nat.toDigits_ne_nil⟩
  lead := by
    rw [List.head?_take, if_neg hw.ne']
    exact .inr (Text.head_toDigits hm)
  whole_digits := fun _ hc => isDigit_of_mem_toDigits (List.mem_of_mem_take hc)
  fraction_digits := fun _ hc => isDigit_of_mem_toDigits (List.mem_of_mem_drop hc)

/-- A point among the digits divides by a power of ten. -/
theorem value_cut (negative : Bool) {m w : Nat} (hm : 0 < m) (hw : 0 < w) (power : Option Int) :
    (cut negative hm hw power).value =
      m * 10 ^ (power.getD 0 - (Shortest.decimalLength m - w : Nat)) := by
  unfold value significand exponent cut
  dsimp only
  rw [List.take_append_drop, Nat.ofDigitChars_ten_toDigits, List.length_drop]
  rfl

/-- The point is written where digits follow it. -/
theorem body_cut (negative : Bool) {m w : Nat} (hm : 0 < m) (hw : 0 < w)
    (hlong : w < Shortest.decimalLength m) :
    (cut negative hm hw none).body =
      (Nat.toDigits 10 m).take w ++ '.' :: (Nat.toDigits 10 m).drop w := by
  have hfraction : (cut negative hm hw none).fraction ≠ [] :=
    mt List.drop_eq_nil_iff.mp (Nat.not_le.mpr hlong)
  rw [body, fractionChars_of_ne_nil hfraction]
  exact congrArg ((Nat.toDigits 10 m).take w ++ ·) (List.append_nil _)

/-- The digits of a number behind a point and zeros. -/
def small (negative : Bool) (zeros m : Nat) : Numeral where
  negative := negative
  whole := ['0']
  fraction := List.replicate zeros '0' ++ Nat.toDigits 10 m
  whole_ne_nil := List.cons_ne_nil _ _
  lead := .inl rfl
  whole_digits := fun c hc => by
    rw [List.mem_singleton.mp hc]
    rfl
  fraction_digits := fun _ hc =>
    (List.mem_append.mp hc).elim isDigit_of_mem_zeros isDigit_of_mem_toDigits

/-- Zeros behind the point divide by further powers of ten. -/
theorem value_small (negative : Bool) (zeros m : Nat) :
    (small negative zeros m).value =
      m * 10 ^ (-((zeros + Shortest.decimalLength m : Nat) : Int)) := by
  have hspelled : Nat.ofDigitChars 10 (['0'] ++ (List.replicate zeros '0' ++ Nat.toDigits 10 m)) 0 =
      m := by
    have hzero : Nat.ofDigitChars 10 ['0'] 0 = 0 := rfl
    rw [Nat.ofDigitChars_append, Nat.ofDigitChars_append, hzero, Nat.ofDigitChars_replicate_zero,
      Nat.mul_zero, Nat.ofDigitChars_ten_toDigits]
  unfold value significand exponent small
  dsimp only
  rw [hspelled, List.length_append, List.length_replicate, Option.getD_none, zero_sub]
  rfl

/-- There is always a digit behind this point. -/
theorem body_small (negative : Bool) (zeros m : Nat) : (small negative zeros m).body =
    ['0'] ++ '.' :: (List.replicate zeros '0' ++ Nat.toDigits 10 m) := by
  have hfraction : (small negative zeros m).fraction ≠ [] :=
    List.append_ne_nil_of_right_ne_nil _ Nat.toDigits_ne_nil
  rw [body, fractionChars_of_ne_nil hfraction]
  exact congrArg (['0'] ++ ·) (List.append_nil _)

/-- The digits of a positive number with zeros behind them. -/
def large (negative : Bool) {m : Nat} (hm : 0 < m) (zeros : Nat) : Numeral where
  negative := negative
  whole := Nat.toDigits 10 m ++ List.replicate zeros '0'
  whole_ne_nil := List.append_ne_nil_of_left_ne_nil Nat.toDigits_ne_nil _
  lead := by
    rw [List.head?_append_of_ne_nil _ Nat.toDigits_ne_nil]
    exact .inr (Text.head_toDigits hm)
  whole_digits := fun _ hc =>
    (List.mem_append.mp hc).elim isDigit_of_mem_toDigits isDigit_of_mem_zeros
  fraction_digits := isDigit_of_mem_nil

/-- Zeros in front of the point multiply by powers of ten. -/
theorem value_large (negative : Bool) {m : Nat} (hm : 0 < m) (zeros : Nat) :
    (large negative hm zeros).value = m * 10 ^ (zeros : Int) := by
  unfold value significand exponent large
  dsimp only
  rw [List.append_nil, Nat.ofDigitChars_append, Nat.ofDigitChars_ten_toDigits,
    Nat.ofDigitChars_replicate_zero, Option.getD_none, List.length_nil, Nat.cast_zero, sub_zero,
    zpow_zero, mul_one, zpow_natCast]
  push_cast
  ring

end Numeral

namespace Layout

/-- The point stands where there is a fraction. -/
theorem point_eq (m : Nat) :
    (if Shortest.decimalLength m ≤ 1 then "" else ".").toList ++ (Nat.toDigits 10 m).drop 1 =
      Numeral.fractionChars ((Nat.toDigits 10 m).drop 1) := by
  unfold Numeral.fractionChars
  by_cases hone : Shortest.decimalLength m ≤ 1
  · rw [if_pos hone, if_pos (List.drop_eq_nil_of_le hone), List.drop_eq_nil_of_le hone]
    rfl
  · rw [if_neg hone, if_neg (mt List.drop_eq_nil_iff.mp hone)]
    rfl

/-- Exponents in JSON are not padded. -/
theorem zeroPad_exponent (n : Nat) :
    zeroPad json.exponentWidth (toString n) = String.ofList (Nat.toDigits 10 n) := by
  have hdigits : 0 < (Nat.toDigits 10 n).length := Nat.length_toDigits_pos
  have hnone : json.exponentWidth - (Nat.toDigits 10 n).length = 0 := Nat.sub_eq_zero_of_le hdigits
  rw [zeroPad, Nat.toString_eq_ofList_toDigits, String.length_ofList, hnone]
  exact String.empty_append

/-- **A written decimal is a numeral** that stands for the same number. Its power, if it has one, is
the exponent of the decimal. -/
theorem write_eq (negative : Bool) {d : Decimal} (hd : 0 < d.digits) :
    ∃ n : Numeral, n.negative = negative ∧ json.write d = String.ofList n.body ∧
      n.value = d.value ∧ ∀ e ∈ n.power, e = d.exponent := by
  have hlen : 0 < Shortest.decimalLength d.digits := Nat.length_toDigits_pos
  have hlength : (Nat.toDigits 10 d.digits).length = Shortest.decimalLength d.digits := rfl
  unfold Layout.write
  dsimp only
  rw [hlength]
  split
  next hpower =>
    -- One digit, the others behind the point, and the power.
    refine ⟨.cut negative hd Nat.one_pos (some d.exponent), rfl, ?_, ?_, ?_⟩
    · have hsign : (if d.exponent < 0 then "-" else "+").toList =
          [if d.exponent < 0 then '-' else '+'] := by
        split <;> rfl
      rw [zeroPad_exponent, ← String.toList_inj]
      simp only [String.toList_append, String.toList_ofList, hsign, Numeral.body, Numeral.cut,
        Numeral.powerChars, ← point_eq, List.append_assoc]
      rfl
    · rw [Numeral.value_cut, Option.getD_some, Decimal.value]
    · rintro e ⟨⟩
      rfl
  next hpositional =>
  split
  next hneg =>
    -- Below one: a zero, the point, and more zeros in front of the digits.
    refine ⟨.small negative (d.exponent.natAbs - 1) d.digits, rfl, ?_, ?_, ?_⟩
    · rw [Numeral.body_small, ← String.toList_inj]
      simp only [String.toList_append, String.toList_ofList, Text.times, List.append_assoc]
      rfl
    · rw [Numeral.value_small, Decimal.value]
      congr 2
      omega
    · rintro e ⟨⟩
  next hnonneg =>
  split
  next hshort =>
    -- Whole: the digits, and zeros up to the point.
    refine ⟨.large negative hd (d.exponent.toNat + 1 - Shortest.decimalLength d.digits),
      rfl, ?_, ?_, ?_⟩
    · rw [← String.toList_inj]
      simp only [String.toList_append, String.toList_ofList, Text.times, Numeral.body,
        Numeral.large, Numeral.fractionChars, if_true, Numeral.powerChars, List.append_nil]
    · rw [Numeral.value_large, Decimal.value]
      congr 2
      omega
    · rintro e ⟨⟩
  next hlong =>
    -- The point stands among the digits.
    have hwhole : 0 < d.exponent.toNat + 1 := Nat.succ_pos _
    refine ⟨.cut negative hd hwhole none, rfl, ?_, ?_, ?_⟩
    · rw [Numeral.body_cut negative hd hwhole (Nat.not_le.mp hlong), ← String.toList_inj]
      simp only [String.toList_append, String.toList_ofList, List.append_assoc]
      rfl
    · rw [Numeral.value_cut, Decimal.value, Option.getD_none]
      congr 2
      omega
    · rintro e ⟨⟩

end Layout

/-! ### Reading -/

/-- Powers of two are smaller than powers of ten, three for one. -/
theorem two_zpow_le_ten_zpow (n : Nat) : (2 : ℚ) ^ (3 * n : Int) ≤ 10 ^ (n : Int) := by
  have hcube : (2 : ℚ) ^ (3 * n : Int) = 8 ^ n := by
    rw [zpow_mul, zpow_natCast]
    norm_num
  rw [hcube, zpow_natCast]
  exact pow_le_pow_left₀ (by norm_num) (by norm_num) n

/-- What is rounded to a positive finite number has at most four hundred digits on either side of
the point. -/
theorem Format.RoundsTo.within {s k : Nat} {x : ℚ} (h : Format.double.RoundsTo s k x)
    (hnormal : Format.double.IsNormal s k) (hs : 0 < s)
    (hfinite : k * 2 ^ Format.double.fractionBits + s < Format.double.infinity) :
    (10 : ℚ) ^ (-400 : Int) < x ∧ x < 10 ^ (400 : Int) := by
  have hone : (1 : ℚ) ≤ s := by exact_mod_cast hs
  have hunit := two_zpow_pos (Format.double.leastExponent + k)
  have hlimit := Format.value_lt_limit Format.double_proper hfinite
  rw [Format.value_eq hnormal] at hlimit
  constructor
  · -- Half of the least unit is still above the bound.
    have hleast : (2 : ℚ) ^ (-1200 : Int) < 2 ^ (Format.double.leastExponent + k) / 2 := by
      rw [div_eq_mul_inv, ← zpow_neg_one, ← zpow_add₀ two_ne_zero, two_zpow_lt_iff]
      have : Format.double.leastExponent = -1074 := by decide
      omega
    calc (10 : ℚ) ^ (-400 : Int) = (10 ^ (400 : Int))⁻¹ := zpow_neg 10 400
      _ ≤ (2 ^ (1200 : Int))⁻¹ := inv_anti₀ (two_zpow_pos 1200) (two_zpow_le_ten_zpow 400)
      _ = 2 ^ (-1200 : Int) := (zpow_neg 2 1200).symm
      _ < 2 ^ (Format.double.leastExponent + k) / 2 := hleast
      _ ≤ ((s : ℚ) - if s = 2 ^ Format.double.fractionBits ∧ 0 < k then 1 / 4 else 1 / 2) *
            2 ^ (Format.double.leastExponent + k) := by
          split <;> nlinarith
      _ ≤ x := h.low
  · calc x ≤ ((s : ℚ) + 1 / 2) * 2 ^ (Format.double.leastExponent + k) := h.high
      _ ≤ 2 * (s * 2 ^ (Format.double.leastExponent + k)) := by nlinarith
      _ < 2 * Format.double.limit := by linarith
      _ = 2 ^ (1025 : Int) := by
          have hexponent : ((2 ^ (Format.double.exponentBits - 1) : Nat) : Int) = 1024 := by decide
          rw [Format.limit, hexponent, show (1025 : Int) = 1 + 1024 by norm_num,
            zpow_add₀ two_ne_zero, zpow_one]
      _ ≤ 2 ^ (1200 : Int) := two_zpow_le_iff.mpr (by norm_num)
      _ ≤ 10 ^ (400 : Int) := two_zpow_le_ten_zpow 400

/-- A decimal in the interval of a number is rounded to it. -/
theorem Literal.round_decimal (negative : Bool) {m s k : Nat} {e : Int} (hm : 0 < m)
    (hnormal : Format.double.IsNormal s k) (hs : 0 < s)
    (hfinite : k * 2 ^ Format.double.fractionBits + s < Format.double.infinity)
    (hrounds : Format.double.RoundsTo s k (m * 10 ^ e)) :
    (Literal.decimal negative m e).round .double =
      (Format.double.withSign negative (k * 2 ^ Format.double.fractionBits + s), true) := by
  obtain ⟨hlow, hhigh⟩ := hrounds.within hnormal hs hfinite
  obtain ⟨hleadLow, hleadHigh⟩ := lead_bounds hm e
  -- Nothing is cut off: the leading digit stands where a number of sixty-four bits can have it.
  have hupper : e + (Shortest.decimalLength m : Int) - 1 < 400 :=
    Shortest.ten_zpow_lt_iff.mp (hleadLow.trans_lt hhigh)
  have hlower : -400 < e + (Shortest.decimalLength m : Int) :=
    Shortest.ten_zpow_lt_iff.mp (hlow.trans hleadHigh)
  have hratio : Format.double.ofRatio (m * (Shortest.tenPower e).1) (Shortest.tenPower e).2 =
      k * 2 ^ Format.double.fractionBits + s := by
    refine Format.ofRatio_eq (Shortest.tenPower_pos e).2 hnormal hfinite ?_
    rw [Nat.cast_mul, mul_div_assoc, Shortest.tenPower_eq]
    exact hrounds
  unfold Literal.round
  dsimp only
  rw [if_neg hm.ne', if_neg (by omega), if_neg (by omega), hratio, decide_eq_true hfinite]

/-- A positive magnitude is written as a numeral that is rounded to it. -/
theorem Layout.exists_numeral (negative : Bool) {m : Nat} (hm : m ≠ 0)
    (hfinite : m < Format.double.infinity) :
    ∃ n : Numeral, n.negative = negative ∧
      json.write (Shortest.decimal .double m) = String.ofList n.body ∧
      (∀ e ∈ n.power, e.natAbs < 10000) ∧
      (Literal.decimal n.negative n.significand n.exponent).round .double =
        (Format.double.withSign negative m, true) := by
  obtain ⟨s, k, hnormal, rfl⟩ := Format.double.exists_isNormal m
  have hs := hnormal.pos hm
  -- The shortest decimal lies in the interval of the number.
  obtain ⟨hrounds, hdigits⟩ := Shortest.roundsTo_decimal Format.double_proper (by decide) hnormal hs
  obtain ⟨n, rfl, hwrite, hvalue, hpower⟩ := write_eq negative hdigits
  refine ⟨n, rfl, hwrite, ?_, ?_⟩
  · -- The power is the exponent of the leading digit.
    intro e he
    rw [hpower e he]
    obtain ⟨hlow, hhigh⟩ := hrounds.within hnormal hs hfinite
    obtain ⟨hleadLow, hleadHigh⟩ := Decimal.lead_bounds hdigits
    have hupper := Shortest.ten_zpow_lt_iff.mp (hleadLow.trans_lt hhigh)
    have hlower := Shortest.ten_zpow_lt_iff.mp (hlow.trans hleadHigh)
    omega
  · rw [← hvalue] at hrounds
    -- A significand of zero would stand for zero, which is not in the interval.
    have hpos : 0 < n.significand :=
      Nat.cast_pos.mp ((mul_pos_iff_of_pos_right (Shortest.ten_zpow_pos _)).mp (hrounds.pos hs))
    exact Literal.round_decimal n.negative hpos hnormal hs hfinite hrounds

namespace Double

/-- Reading ends with a number, once the literal is rounded to its pattern. -/
theorem read_numeral {x : Double} {n : Numeral} (hpower : ∀ e ∈ n.power, e.natAbs < 10000)
    (hround : (Literal.decimal n.negative n.significand n.exponent).round .double =
      (x.bits.toNat, true)) : Double.read (String.ofList n.chars) = .ok x := by
  unfold Double.read readNumber
  rw [String.toList_ofList, Literal.read?_numeral n hpower]
  dsimp only
  rw [hround]
  change Except.ok (⟨UInt64.ofNat x.bits.toNat⟩ : Double) = .ok x
  rw [UInt64.ofNat_toNat]

/-- **A finite number is written as a numeral that is read as it.** -/
theorem text_eq {x : Double} (hx : x.isFinite = true) :
    ∃ n : Numeral, x.text .json = String.ofList n.chars ∧
      Double.read (String.ofList n.chars) = .ok x := by
  have hfinite : Format.double.magnitude x.bits.toNat < Format.double.infinity :=
    of_decide_eq_true hx
  have hbits := Format.withSign_magnitude (double_bits_lt x.bits)
  have hsign (negative : Bool) : (if negative = true then "-" else "").toList =
      Numeral.signChars negative := by
    cases negative <;> rfl
  unfold Double.text Layout.number
  dsimp only
  rw [if_neg hfinite.le.not_gt, if_neg hfinite.ne]
  by_cases hzero : Format.double.magnitude x.bits.toNat = 0
  · -- Zero is a numeral of its own, with either sign.
    refine ⟨.ofNat (Format.double.isNegative x.bits.toNat) 0, ?_, read_numeral (by rintro e ⟨⟩) ?_⟩
    · rw [if_pos hzero, ← String.toList_inj, String.toList_append, hsign, Numeral.chars_ofNat]
      exact String.toList_ofList.symm
    · rw [hzero] at hbits
      exact congrArg (·, true) hbits
  · obtain ⟨n, hnegative, hwrite, hpower, hround⟩ :=
      Layout.exists_numeral (Format.double.isNegative x.bits.toNat) hzero hfinite
    rw [hbits] at hround
    refine ⟨n, ?_, read_numeral hpower hround⟩
    rw [if_neg hzero, hwrite, ← String.toList_inj, String.toList_append, hsign,
      String.toList_ofList, String.toList_ofList, Numeral.chars, hnegative]

end Double

end EngineHost
