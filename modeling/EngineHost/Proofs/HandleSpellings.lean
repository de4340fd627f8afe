import EngineHost.Proofs.HandleReload
import EngineHost.Proofs.NumberText

/-!
# Every spelling of a handle

An export format may hand the fields of a handle back in another form: a value inside a list of one,
the payload as octets instead of base64, binding names in as many pieces as it likes, the flag as a
truth value, as a number of any type or as a digit between blanks, an empty text as nothing at all,
a field without its name. `Handle.Spells` says what the content of a field may come back as, and
`Handle.Presents` adds the lists of one and the pieces. Whatever mixture the ten fields come in,
reading gives the handle that was exported (`Handle.deserialize_presented`).

All of this is a matter of reading one field at a time, and only the flag has to be computed with. A
number is the flag if its value is zero or one: `Format.number` is that value for a pattern,
`Literal.number?` for a number that kept its spelling. Either way there is one pattern for each sign
(`Format.bits_of_number`, `Double.read_of_number`), and a minus sign stands before zero only.
-/

namespace EngineHost

/-! ### The values of numbers -/

/-- A minus sign makes no natural number of anything but zero. -/
theorem eq_of_signed {negative : Bool} {x : ℚ} {n : Nat} (hx : 0 ≤ x) (h : signed negative x = n) :
    x = n ∧ (negative = true → n = 0) := by
  cases negative with
  | false => exact ⟨h, Bool.noConfusion⟩
  | true =>
    have hneg : -x = n := h
    -- A number that is not negative and equals one that is not positive is zero.
    have hn : (0 : ℚ) ≤ n := Nat.cast_nonneg n
    have hzero : (n : ℚ) = 0 := by linarith
    exact ⟨by linarith, fun _ => by exact_mod_cast hzero⟩

namespace Format

variable {f : Format}

/-- **The patterns of a natural number**: what it is rounded to, behind a sign if it is zero. -/
theorem bits_of_number {bits n : Nat} (hbits : bits < 2 * f.signWeight)
    (hfinite : f.isFinite bits = true) (hnumber : f.number bits = n) :
    ∃ negative : Bool, (negative = true → n = 0) ∧ bits = f.withSign negative (f.ofRatio n 1) := by
  have hm : f.magnitude bits < f.infinity := of_decide_eq_true hfinite
  have hnonneg : 0 ≤ f.value (f.magnitude bits) :=
    mul_nonneg (Nat.cast_nonneg _) (two_zpow_pos _).le
  obtain ⟨hvalue, hsign⟩ := eq_of_signed hnonneg hnumber
  have hround : f.ofRatio n 1 = f.magnitude bits :=
    ofRatio_value Nat.one_pos hm (by rw [hvalue, Nat.cast_one, div_one])
  refine ⟨f.isNegative bits, hsign, ?_⟩
  rw [hround, withSign_magnitude hbits]

end Format

namespace Literal

/-- Does a literal start with a minus sign? -/
def isNegative : Literal → Bool
  | .notANumber => false
  | .infinite negative => negative
  | .decimal negative _ _ => negative
  | .binary negative _ _ => negative

/-- The number behind the sign of a literal, if there is one. -/
def magnitude? : Literal → Option ℚ
  | .notANumber => none
  | .infinite _ => none
  | .decimal _ m e => some (m * 10 ^ e)
  | .binary _ m e => some (m * 2 ^ e)

/-- The number that a literal says, if it says one. -/
def number? (l : Literal) : Option ℚ :=
  l.magnitude?.map (signed l.isNegative)

/-- What stands behind the sign is not negative. -/
theorem magnitude?_nonneg {l : Literal} {x : ℚ} (h : l.magnitude? = some x) : 0 ≤ x := by
  cases l with
  | notANumber => cases h
  | infinite negative => cases h
  | decimal negative m e =>
    obtain rfl := Option.some.inj h
    exact mul_nonneg (Nat.cast_nonneg m) (Shortest.ten_zpow_pos e).le
  | binary negative m e =>
    obtain rfl := Option.some.inj h
    exact mul_nonneg (Nat.cast_nonneg m) (two_zpow_pos e).le

/-- Powers of ten are smaller than powers of two, one for four. -/
theorem ten_zpow_le_two_zpow (n : Nat) : (10 : ℚ) ^ (n : Int) ≤ 2 ^ (4 * n : Int) := by
  have hfourth : (2 : ℚ) ^ (4 * n : Int) = 16 ^ n := by
    rw [zpow_mul, zpow_natCast]
    norm_num
  rw [hfourth, zpow_natCast]
  exact pow_le_pow_left₀ (by norm_num) (by norm_num) n

/-- The leading bit of a product that is rounded to a positive finite number stands within the reach
of the format. -/
theorem lead_within {m s k : Nat} {e : Int} (hm : 0 < m)
    (hrounds : Format.double.RoundsTo s k (m * 2 ^ e)) (hnormal : Format.double.IsNormal s k)
    (hs : 0 < s) (hfinite : k * 2 ^ Format.double.fractionBits + s < Format.double.infinity) :
    -2000 ≤ e + (m.log2 : Int) ∧ e + (m.log2 : Int) ≤ 2000 := by
  obtain ⟨hlow, hhigh⟩ := hrounds.within hnormal hs hfinite
  obtain ⟨hleadLow, hleadHigh⟩ := log2_bounds hm
  have hunit := two_zpow_pos e
  have hten : (10 : ℚ) ^ (400 : Int) ≤ 2 ^ (1600 : Int) := ten_zpow_le_two_zpow 400
  constructor
  · -- The format reaches from ten to the minus 400 to ten to the 400, and so do powers of two.
    have hbelow : (2 : ℚ) ^ (-1600 : Int) < 2 ^ ((m.log2 : Int) + 1 + e) :=
      calc (2 : ℚ) ^ (-1600 : Int) = (2 ^ (1600 : Int))⁻¹ := zpow_neg 2 1600
        _ ≤ (10 ^ (400 : Int))⁻¹ := inv_anti₀ (Shortest.ten_zpow_pos 400) hten
        _ = 10 ^ (-400 : Int) := (zpow_neg 10 400).symm
        _ < m * 2 ^ e := hlow
        _ < 2 ^ ((m.log2 : Int) + 1) * 2 ^ e := mul_lt_mul_of_pos_right hleadHigh hunit
        _ = 2 ^ ((m.log2 : Int) + 1 + e) := (zpow_add₀ two_ne_zero _ _).symm
    have := two_zpow_lt_iff.mp hbelow
    omega
  · have habove : (2 : ℚ) ^ ((m.log2 : Int) + e) < 2 ^ (1600 : Int) :=
      calc (2 : ℚ) ^ ((m.log2 : Int) + e) = 2 ^ (m.log2 : Int) * 2 ^ e := zpow_add₀ two_ne_zero _ _
        _ ≤ m * 2 ^ e := mul_le_mul_of_nonneg_right hleadLow hunit.le
        _ < 10 ^ (400 : Int) := hhigh
        _ ≤ 2 ^ (1600 : Int) := hten
    have := two_zpow_lt_iff.mp habove
    omega

/-- A positive product is rounded to a number whose significand is not zero. -/
theorem significand_pos {m s k : Nat} {u : ℚ} (hm : 0 < m) (hu : 0 < u)
    (hvalue : m * u = s * 2 ^ (Format.double.leastExponent + k)) : 0 < s := by
  have hpos : (0 : ℚ) < s * 2 ^ (Format.double.leastExponent + k) := by
    rw [← hvalue]
    exact mul_pos (Nat.cast_pos.mpr hm) hu
  exact Nat.cast_pos.mp ((mul_pos_iff_of_pos_right (two_zpow_pos _)).mp hpos)

/-- **A literal is rounded to the number it says**, if there is one of sixty-four bits. -/
theorem round_held {l : Literal} {n : Nat} (hn : n < Format.double.infinity)
    (hl : l.magnitude? = some (Format.double.value n)) :
    l.round .double = (Format.double.withSign l.isNegative n, true) := by
  obtain ⟨s, k, hnormal, rfl⟩ := Format.double.exists_isNormal n
  have hself := Format.double.roundsTo_self s k
  rw [Format.value_eq hnormal] at hl
  -- Zero has no leading digit and is taken first; it has the zero pattern only.
  have hzero (h : (0 : ℚ) = s * 2 ^ (Format.double.leastExponent + k)) :
      k * 2 ^ Format.double.fractionBits + s = 0 := by
    rw [← Format.value_eq hnormal] at h
    exact (@Format.ofRatio_value _ 0 1 _ Nat.one_pos hn (by simpa using h)).symm
  cases l with
  | notANumber => cases hl
  | infinite negative => cases hl
  | decimal negative m e =>
    have hvalue : (m : ℚ) * 10 ^ e = s * 2 ^ (Format.double.leastExponent + k) := Option.some.inj hl
    by_cases hm : m = 0
    · subst hm
      rw [hzero (by rw [← hvalue, Nat.cast_zero, zero_mul])]
      rfl
    · have hm : 0 < m := Nat.pos_of_ne_zero hm
      have hs := significand_pos hm (Shortest.ten_zpow_pos e) hvalue
      exact round_decimal negative hm hnormal hs hn (hvalue ▸ hself)
  | binary negative m e =>
    have hvalue : (m : ℚ) * 2 ^ e = s * 2 ^ (Format.double.leastExponent + k) := Option.some.inj hl
    by_cases hm : m = 0
    · subst hm
      rw [hzero (by rw [← hvalue, Nat.cast_zero, zero_mul])]
      rfl
    · have hpos : 0 < m := Nat.pos_of_ne_zero hm
      have hs := significand_pos hpos (two_zpow_pos e) hvalue
      obtain ⟨hlower, hupper⟩ := lead_within hpos (hvalue ▸ hself) hnormal hs hn
      -- A product with a power of two needs no search for its rounding, only that it is not far
      -- out.
      have hscaled : Format.double.ofScaled m e = k * 2 ^ Format.double.fractionBits + s :=
        Format.ofScaled_value hn (by rw [hvalue, Format.value_eq hnormal])
      unfold round
      dsimp only
      rw [if_neg hm, if_neg (by omega), if_neg (by omega), hscaled, decide_eq_true hn]
      rfl

end Literal

/-- **A number that kept its spelling** is read as the natural number it says, up to the width of
the significand. -/
theorem Double.read_of_number {spelling : String} {l : Literal} {n : Nat} (hn : n < 2 ^ 53)
    (hread : Literal.read? spelling.toList = some l) (hnumber : l.number? = some (n : ℚ)) :
    ∃ negative : Bool, (negative = true → n = 0) ∧ Double.read spelling =
      .ok ⟨UInt64.ofNat (Format.double.withSign negative (Format.double.ofRatio n 1))⟩ := by
  obtain ⟨x, hx, hsigned⟩ := Option.map_eq_some_iff.mp hnumber
  obtain ⟨rfl, hsign⟩ := eq_of_signed (Literal.magnitude?_nonneg hx) hsigned
  -- The number has a magnitude of its own, and that is what it is rounded to on either way.
  have hrepresents : Format.double.Represents (n : Int) :=
    ⟨n, 0, hn, by rw [Int.natAbs_natCast, pow_zero, Nat.mul_one]⟩
  have hlimit : (((n : Int).natAbs : Nat) : ℚ) < Format.double.limit := by
    rw [Int.natAbs_natCast]
    calc (n : ℚ) < 2 ^ 53 := by exact_mod_cast hn
      _ = 2 ^ (53 : Int) := (zpow_natCast 2 53).symm
      _ ≤ Format.double.limit := two_zpow_le_iff.mpr (by decide)
  obtain ⟨m, hm, hvalue⟩ := hrepresents.exists_value Format.double_proper hlimit
  rw [Int.natAbs_natCast] at hvalue
  have hratio : Format.double.ofRatio n 1 = m :=
    Format.ofRatio_value Nat.one_pos hm (by rw [hvalue, Nat.cast_one, div_one])
  have hround := Literal.round_held hm (hx.trans (congrArg some hvalue.symm))
  refine ⟨l.isNegative, hsign, ?_⟩
  unfold Double.read readNumber
  rw [hread]
  dsimp only
  rw [hround, hratio]
  rfl

/-! ### The flag -/

/-- The number that a flag is. -/
def flagNumber (flag : Bool) : Nat :=
  if flag then 1 else 0

namespace Handle

/-- **What a flag may be spelled as**: a truth value, zero or one in any type of numbers, or its
digit between blanks. -/
inductive SpellsFlag (flag : Bool) : FieldValue → Prop
  | truth : SpellsFlag flag (.bool flag)
  | int (type : IntType) : SpellsFlag flag (.int type (flagNumber flag))
  | float32 {x : Single} (hfinite : x.isFinite = true)
      (hnumber : Format.single.number x.bits.toNat = flagNumber flag) : SpellsFlag flag (.float32 x)
  | float64 {x : Double} (hfinite : x.isFinite = true)
      (hnumber : Format.double.number x.bits.toNat = flagNumber flag) : SpellsFlag flag (.float64 x)
  | number {spelling : String} {l : Literal} (hread : Literal.read? spelling.toList = some l)
      (hnumber : l.number? = some (flagNumber flag : ℚ)) : SpellsFlag flag (.number spelling)
  | digit {before after : List Char} (hbefore : ∀ c ∈ before, Text.isBlank c = true)
      (hafter : ∀ c ∈ after, Text.isBlank c = true) :
      SpellsFlag flag (.string (String.ofList (before ++ (flagText flag).toList ++ after)))

/-- Blanks around a text that has none are dropped. -/
theorem trim_between_blanks {before middle after : List Char}
    (hbefore : ∀ c ∈ before, Text.isBlank c = true) (hafter : ∀ c ∈ after, Text.isBlank c = true)
    (hne : middle ≠ []) (hmiddle : ∀ c ∈ middle, Text.isBlank c = false) :
    Text.trim (String.ofList (before ++ middle ++ after)) = String.ofList middle := by
  -- From the front: blanks, then something that starts with none, then anything.
  have hstart (cs : List Char) (hcs : ∀ c ∈ cs, Text.isBlank c = true) {rest : List Char}
      (hrest : rest ≠ []) (hplain : ∀ c ∈ rest, Text.isBlank c = false) (more : List Char) :
      (cs ++ (rest ++ more)).dropWhile Text.isBlank = rest ++ more := by
    obtain ⟨c, tail, rfl⟩ := List.exists_cons_of_ne_nil hrest
    rw [List.dropWhile_append_of_pos hcs, List.cons_append,
      List.dropWhile_cons_of_neg (by rw [hplain c List.mem_cons_self]; decide)]
  rw [Text.trim, String.toList_ofList, Text.trimChars, List.append_assoc,
    hstart before hbefore hne hmiddle, Text.trimEndChars, List.reverse_append]
  -- The other end is the same, seen from behind.
  have hend := hstart after.reverse (fun c hc => hafter c (List.mem_reverse.mp hc))
    (List.reverse_ne_nil_iff.mpr hne) (fun c hc => hmiddle c (List.mem_reverse.mp hc)) []
  rw [List.append_nil] at hend
  rw [hend, List.reverse_reverse]

/-- The patterns of a flag of sixty-four bits. -/
theorem readNumberFlag_double {flag negative : Bool}
    (hsign : negative = true → flagNumber flag = 0) : readNumberFlag ⟨UInt64.ofNat
      (Format.double.withSign negative (Format.double.ofRatio (flagNumber flag) 1))⟩ =
        .ok flag := by
  -- A set flag has no minus sign; the other patterns are three.
  cases flag <;> cases negative
  · decide +kernel
  · decide +kernel
  · decide +kernel
  · exact absurd (hsign rfl) (by decide)

/-- The patterns of a flag of thirty-two bits. -/
theorem readNumberFlag_single {flag negative : Bool}
    (hsign : negative = true → flagNumber flag = 0) : readNumberFlag (Single.toDouble ⟨UInt32.ofNat
      (Format.single.withSign negative (Format.single.ofRatio (flagNumber flag) 1))⟩) =
        .ok flag := by
  cases flag <;> cases negative
  · decide +kernel
  · decide +kernel
  · decide +kernel
  · exact absurd (hsign rfl) (by decide)

/-- **A flag is read in every spelling.** -/
theorem SpellsFlag.readFlag {flag : Bool} {v : FieldValue} (h : SpellsFlag flag v) :
    Handle.readFlag v = .ok flag := by
  -- By the spelling: only numbers are computed with, and they have one pattern for each sign.
  cases h with
  | truth => rfl
  | int type => cases flag <;> rfl
  | @float32 x hfinite hnumber =>
    obtain ⟨negative, hsign, hbits⟩ :=
      Format.bits_of_number (single_bits_lt x.bits) hfinite hnumber
    have hx : x = ⟨UInt32.ofNat
        (Format.single.withSign negative (Format.single.ofRatio (flagNumber flag) 1))⟩ := by
      rw [← hbits, UInt32.ofNat_toNat]
    rw [hx]
    exact readNumberFlag_single hsign
  | @float64 x hfinite hnumber =>
    obtain ⟨negative, hsign, hbits⟩ :=
      Format.bits_of_number (double_bits_lt x.bits) hfinite hnumber
    have hx : x = ⟨UInt64.ofNat
        (Format.double.withSign negative (Format.double.ofRatio (flagNumber flag) 1))⟩ := by
      rw [← hbits, UInt64.ofNat_toNat]
    rw [hx]
    exact readNumberFlag_double hsign
  | number hread hnumber =>
    have hsmall : flagNumber flag < 2 ^ 53 := by
      cases flag <;> norm_num [flagNumber]
    obtain ⟨negative, hsign, hdouble⟩ := Double.read_of_number hsmall hread hnumber
    unfold Handle.readFlag
    dsimp only
    rw [hdouble]
    exact readNumberFlag_double hsign
  | @digit before after hbefore hafter =>
    have hplain : ∀ c ∈ (flagText flag).toList, Text.isBlank c = false := by
      cases flag <;> simp [flagText, Text.isBlank]
    have htrim := trim_between_blanks hbefore hafter (by cases flag <;> decide) hplain
    unfold Handle.readFlag
    dsimp only
    rw [htrim, String.ofList_toList]
    cases flag <;> rfl

/-- A flag is never spelled as a list. -/
theorem SpellsFlag.unwrapSingle {flag : Bool} {v : FieldValue} (h : SpellsFlag flag v) :
    v.unwrapSingle = v := by
  cases h <;> rfl

/-! ### All fields -/

/-- The binding names that a field holds. -/
def bindingNames? (h : Handle) : Slot → Option (List String)
  | .inputNames => some h.inputNames
  | .outputNames => some h.outputNames
  | _ => none

/-- **What the content of a scalar field may come back as.** -/
inductive Spells (h : Handle) : Slot → FieldValue → Prop
  | text {slot : Slot} (hscalar : h.bindingNames? slot = none) :
      Spells h slot (.string (h.fieldText slot))
  | octets : Spells h .engine (.bytes h.engine)
  | base64 {s : String} (hs : Base64.decode s = .ok h.engine) : Spells h .engine (.string s)
  | flag {v : FieldValue} (hv : SpellsFlag h.hardwareCompatible v) : Spells h .hardwareCompatible v
  | noMetadata (hempty : h.metadata.isEmpty = true) : Spells h .metadata .null
  | noReserved (hempty : h.reserved = "") : Spells h .reserved .null

/-- **What a field may come back as**: a scalar one as it is or in a list of one, binding names in
one text or in pieces. Between the pieces may be empty ones. -/
inductive Presents (h : Handle) (slot : Slot) : FieldValue → Prop
  | bare {v : FieldValue} (hv : h.Spells slot v) : Presents h slot v
  | wrapped {v : FieldValue} (hv : h.Spells slot v) : Presents h slot (.list [v])
  | wrappedText {s : String} (hs : h.Spells slot (.string s)) : Presents h slot (.strings [s])
  | joined {names : List String} (hnames : h.bindingNames? slot = some names) :
      Presents h slot (.string (joinNames names))
  | pieces {names parts : List String} (hnames : h.bindingNames? slot = some names)
      (hparts : (parts.filter (· ≠ "")).flatMap (Text.split bindingDelim) = names) :
      Presents h slot (.strings parts)
  | items {names parts : List String} (hnames : h.bindingNames? slot = some names)
      (hparts : (parts.filter (· ≠ "")).flatMap (Text.split bindingDelim) = names) :
      Presents h slot (.list (parts.map .string))

variable {h : Handle}

/-- Empty pieces are no names. -/
theorem splitNames_eq (parts : List String) :
    splitNames parts = (parts.filter (· ≠ "")).flatMap (Text.split bindingDelim) := by
  induction parts with
  | nil => rfl
  | cons p more ih =>
    rw [splitNames, List.flatMap_cons, ← splitNames, ih]
    by_cases hp : p = ""
    · rw [if_pos hp, List.filter_cons_of_neg (by simpa using hp), List.nil_append]
    · rw [if_neg hp, List.filter_cons_of_pos (by simpa using hp), List.flatMap_cons]

/-- Texts in a list are read as they are; the place stands in failures only. -/
theorem readTexts_strings (slot : Slot) (i : Nat) (parts : List String) :
    readTexts slot i (parts.map .string) = .ok parts := by
  induction parts generalizing i with
  | nil => rfl
  | cons p more ih =>
    rw [List.map_cons, readTexts, ih]
    rfl

/-- Only scalar fields have a content. -/
theorem Spells.scalar {slot : Slot} {v : FieldValue} (hv : h.Spells slot v) :
    h.bindingNames? slot = none := by
  cases hv with
  | text hscalar => exact hscalar
  | octets | base64 | flag | noMetadata | noReserved => rfl

/-- **Binding names are read in every spelling.** -/
theorem Presents.readNames {slot : Slot} {v : FieldValue} {names : List String}
    (hv : h.Presents slot v) (hnames : h.bindingNames? slot = some names)
    (hchecked : splitNames [joinNames names] = names) : Handle.readNames slot v = .ok names := by
  -- Whatever pieces there are hold the names of this field.
  have hsame {names' : List String} (hnames' : h.bindingNames? slot = some names') :
      names' = names :=
    Option.some.inj (hnames'.symm.trans hnames)
  cases hv with
  | bare hv | wrapped hv | wrappedText hv =>
    rw [hv.scalar] at hnames
    cases hnames
  | joined hjoined =>
    rw [hsame hjoined]
    exact congrArg Except.ok hchecked
  | @pieces _ parts hpieces hparts =>
    rw [hsame hpieces] at hparts
    exact congrArg Except.ok ((splitNames_eq parts).trans hparts)
  | @items _ parts hitems hparts =>
    rw [hsame hitems] at hparts
    unfold Handle.readNames
    dsimp only
    rw [readTexts_strings]
    exact congrArg Except.ok ((splitNames_eq parts).trans hparts)

/-- No content is a list, so taking a value out of a list of one leaves the content. -/
theorem Spells.unwrapSingle {slot : Slot} {v : FieldValue} (hv : h.Spells slot v) :
    v.unwrapSingle = v := by
  cases hv with
  | flag hv => exact hv.unwrapSingle
  | text | octets | base64 | noMetadata | noReserved => rfl

/-- A scalar field, taken out of a list of one, is its content. -/
theorem Presents.unwrapSingle {slot : Slot} {v : FieldValue} (hv : h.Presents slot v)
    (hscalar : h.bindingNames? slot = none) : h.Spells slot v.unwrapSingle := by
  cases hv with
  | bare hv => rwa [hv.unwrapSingle]
  | wrapped hv => exact hv
  | wrappedText hv => exact hv
  | joined hnames | pieces hnames | items hnames =>
    rw [hscalar] at hnames
    cases hnames

/-- The payload is read in every spelling. -/
theorem Presents.readEngine {v : FieldValue} (hv : h.Presents .engine v) :
    Handle.readEngine v = .ok h.engine := by
  have hcontent := hv.unwrapSingle rfl
  unfold Handle.readEngine
  -- Only the content matters from here on.
  generalize v.unwrapSingle = w at hcontent
  cases hcontent with
  | text =>
    dsimp only [fieldText]
    rw [Base64.decode_encode]
  | octets => rfl
  | base64 hs =>
    dsimp only
    rw [hs]

/-- A field that holds a text and may be taken out of a list twice. -/
theorem Spells.readText {slot : Slot} {v : FieldValue} (hv : h.Spells slot v)
    (hengine : slot ≠ .engine) (hflag : slot ≠ .hardwareCompatible) :
    Handle.readText slot v = .ok (h.fieldText slot) := by
  cases hv with
  | text => rfl
  | octets | base64 => exact absurd rfl hengine
  | flag => exact absurd rfl hflag
  | noMetadata hempty =>
    have htext : h.fieldText .metadata = "" := if_pos hempty
    rw [htext]
    rfl
  | noReserved hempty =>
    have htext : h.fieldText .reserved = "" := hempty
    rw [htext]
    rfl

/-- The flag is read in every spelling. -/
theorem Spells.readFlag {v : FieldValue} (hv : h.Spells .hardwareCompatible v) :
    Handle.readFlag v = .ok h.hardwareCompatible := by
  cases hv with
  | text => exact readFlag_flagText h.hardwareCompatible
  | flag hv => exact hv.readFlag

/-- **A field as it may arrive**: with its name or without, its value in any spelling. -/
structure Arrives (h : Handle) (slot : Slot) (f : Field) : Prop where
  name : f.name = "" ∨ f.name = slot.key
  value : h.Presents slot f.value

/-- **All spellings of a handle are read as the handle.** Whatever was read once may come back with
each field in a spelling of its own. -/
theorem deserialize_presented {exported fields : List Field} (hread : deserialize exported = .ok h)
    (harrives : List.Forall₂ h.Arrives Slot.all fields) : deserialize fields = .ok h := by
  -- What was read once is settled, so every part of it comes back from its text.
  obtain ⟨info, hconstruct⟩ := exists_construct_of_deserialize hread
  have hsettled := settled_of_construct hconstruct
  obtain ⟨-, -, hinputs, houtputs⟩ := h.checked
  have hcount : ¬fields.length ≠ Slot.all.length := not_not.mpr harrives.length_eq.symm
  have hvalues := takeValues_named (harrives.imp fun _ _ hf => hf.name) 0
  rw [deserialize, if_neg hcount, hvalues]
  -- The ten fields, each read as the part that it presents.
  unfold Slot.all at harrives ⊢
  obtain _ | ⟨hversion, _ | ⟨hname, _ | ⟨hdevice, _ | ⟨hengine, _ | ⟨hins, _ | ⟨houts, _ | ⟨hflag,
    _ | ⟨hmetadata, _ | ⟨hplatform, _ | ⟨hreserved, _ | _⟩⟩⟩⟩⟩⟩⟩⟩⟩⟩ := harrives
  have htext {slot : Slot} {f : Field} (hf : h.Arrives slot f)
      (hscalar : h.bindingNames? slot = none) (hengine : slot ≠ .engine)
      (hflag : slot ≠ .hardwareCompatible) :
      readText slot f.value.unwrapSingle = .ok (h.fieldText slot) :=
    (hf.value.unwrapSingle hscalar).readText hengine hflag
  rw [← make_eq hsettled.defaults]
  refine construct_eq_make (htext hversion rfl (by decide) (by decide))
    (htext hname rfl (by decide) (by decide)) ?_ hengine.value.readEngine
    (hins.value.readNames rfl (splitNames_joinNames hinputs))
    (houts.value.readNames rfl (splitNames_joinNames houtputs)) ?_ ?_
    (htext hplatform rfl (by decide) (by decide)) (htext hreserved rfl (by decide) (by decide))
  · dsimp only [taken]
    rw [htext hdevice rfl (by decide) (by decide)]
    exact hsettled.device
  · have hcontent := hflag.value.unwrapSingle rfl
    dsimp only [taken]
    rw [hcontent.unwrapSingle]
    exact hcontent.readFlag
  · dsimp only [taken]
    rw [htext hmetadata rfl (by decide) (by decide)]
    exact Metadata.decode_encode h.metadata

/-- Parts without metadata and without a reserved text. -/
def mixedParts : HandleParts :=
  { unevenParts with metadata := {} }

/-- The fields of these parts, with hardly one as it was exported. -/
def mixedFields : List Field :=
  [{ value := .list [.string "1"] }, { name := "name", value := .strings ["uneven"] },
    { value := .string "3%cuda%fam|x/model" },
    { name := "serialized_engine", value := .list [.bytes [1, 2, 3, 4]] },
    { value := .strings ["", "a%b", ""] },
    { name := "out_binding_names", value := .list [.string "y", .string "", .string "z"] },
    { value := .list [.number "10e-1"] }, { value := .list [.null] },
    { name := "target_platform", value := .string "linux_x86_64" }, { value := .null }]

/-- Ten to the power of minus one, ten times, is a flag that is set. -/
theorem spellsFlag_tenth : SpellsFlag true (.number "10e-1") := by
  have hread : Literal.read? "10e-1".toList = some (.decimal false 10 (-1)) := by decide +kernel
  refine .number hread (congrArg some ?_)
  change (10 : ℚ) * 10 ^ (-1 : Int) = (1 : Nat)
  norm_num

/-- Each of the ten fields arrives, in a spelling of its own. -/
theorem arrives_mixed (hparts : h.toHandleParts = mixedParts.withDefaults) :
    List.Forall₂ h.Arrives Slot.all mixedFields := by
  have hdevice : h.fieldText .device = "3%cuda%fam|x/model" := by
    rw [fieldText, hparts]
    decide +kernel
  -- The parts are put in, so that all texts can be computed.
  obtain ⟨parts, hvalid⟩ := h
  subst hparts
  refine .cons ⟨.inl rfl, .wrapped (.text rfl)⟩ (.cons ⟨.inr rfl, .wrappedText (.text rfl)⟩
    (.cons ⟨.inl rfl, .bare (hdevice ▸ .text rfl)⟩ (.cons ⟨.inr rfl, .wrapped .octets⟩
    (.cons ⟨.inl rfl, .pieces rfl ?_⟩ (.cons ⟨.inr rfl, @Presents.items _ _ _ ["y", "", "z"] rfl ?_⟩
    (.cons ⟨.inl rfl, .wrapped (.flag spellsFlag_tenth)⟩
    (.cons ⟨.inl rfl, .wrapped (.noMetadata rfl)⟩ (.cons ⟨.inr rfl, .bare (.text rfl)⟩
    (.cons ⟨.inl rfl, .bare (.noReserved rfl)⟩ .nil)))))))))
  · change _ = mixedParts.inputNames
    decide +kernel
  · change _ = mixedParts.outputNames
    decide +kernel

theorem deserialize_presented_mixed : ∃ h, make mixedParts = .ok h ∧
    deserialize h.flatten = .ok h ∧ deserialize mixedFields = .ok h := by
  have hsome : (make mixedParts).toOption.isSome = true := by decide +kernel
  have hmake := eq_ok_get hsome
  have hparts := toHandleParts_of_make hmake
  have hdevice := device_of_make hmake
  have hread := (settled_of_make hmake (hdevice ▸ .inr rfl) (hdevice ▸ by decide)).reloads.named
  exact ⟨_, hmake, hread, deserialize_presented hread (arrives_mixed hparts)⟩

end Handle

end EngineHost
