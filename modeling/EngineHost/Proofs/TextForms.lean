import EngineHost.Proofs.Results
import EngineHost.Text.Base64
import EngineHost.Text.Integer
import EngineHost.Text.Pieces
import Mathlib.Data.List.Basic
import Mathlib.Tactic.IntervalCases

/-!
# Texts that come back

Four ways in which the library turns data into text and back, each with the fact that reading undoes
writing:

* `Bytes.toChars_ofText` — a text, as octets in UTF-8;
* `Base64.decode_encode` — octets, in base64;
* `Text.int64?_toString` — a number of sixty-four bits, in decimal;
* `Text.split_join` — texts without a separator, joined by it.

The first two read octet by octet with some octets pending, so both are proved one group at a time:
one character, or three octets, whatever follows.
-/

namespace EngineHost

/-! ### UTF-8 -/

namespace Bytes

/-- The octets behind a lead. -/
theorem isTail_iff (b : UInt8) : isTail b = true ↔ 0x80 ≤ b.toNat ∧ b.toNat ≤ 0xBF := by
  simp only [isTail, Bool.and_eq_true, decide_eq_true_eq, UInt8.le_iff_toNat_le]
  rfl

/-- The second octet, which some leads narrow. -/
theorem followsLead_iff (lead b : UInt8) : followsLead lead b = true ↔
    (if lead.toNat = 0xE0 then 0xA0 else if lead.toNat = 0xF0 then 0x90 else 0x80) ≤ b.toNat ∧
      b.toNat ≤ (if lead.toNat = 0xED then 0x9F else if lead.toNat = 0xF4 then 0x8F else 0xBF) := by
  simp only [followsLead, Bool.and_eq_true, decide_eq_true_eq, UInt8.le_iff_toNat_le, beq_iff_eq,
    apply_ite UInt8.toNat, ← UInt8.toNat_inj]
  rfl

section Leads

variable {a b c d : UInt8} (rest : Bytes)

/-- A character of one octet. -/
theorem charAt?_one (ha : a.toNat < 0x80) : charAt? a rest = some (Char.ofNat a.toNat, 0) := by
  unfold charAt?
  rw [if_pos (UInt8.lt_iff_toNat_lt.mpr ha)]

/-- A character of two octets. -/
theorem charAt?_two (hlow : 0xC2 ≤ a.toNat) (hhigh : a.toNat < 0xE0) (hb : isTail b = true) :
    charAt? a (b :: rest) = some (Char.ofNat (a.toNat % 32 * 64 + tailBits b), 1) := by
  unfold charAt?
  rw [if_neg (by simp [UInt8.lt_iff_toNat_lt]; omega),
    if_neg (by simp [UInt8.lt_iff_toNat_lt]; omega), if_pos (UInt8.lt_iff_toNat_lt.mpr hhigh)]
  dsimp only
  rw [if_pos hb]

/-- A character of three octets. -/
theorem charAt?_three (hlow : 0xE0 ≤ a.toNat) (hhigh : a.toNat < 0xF0)
    (hb : followsLead a b = true) (hc : isTail c = true) :
    charAt? a (b :: c :: rest) =
      some (Char.ofNat ((a.toNat % 16 * 64 + tailBits b) * 64 + tailBits c), 2) := by
  unfold charAt?
  rw [if_neg (by simp [UInt8.lt_iff_toNat_lt]; omega),
    if_neg (by simp [UInt8.lt_iff_toNat_lt]; omega),
    if_neg (by simp [UInt8.lt_iff_toNat_lt]; omega), if_pos (UInt8.lt_iff_toNat_lt.mpr hhigh)]
  dsimp only
  rw [if_pos (by rw [hb, hc, Bool.and_self])]

/-- A character of four octets. -/
theorem charAt?_four (hlow : 0xF0 ≤ a.toNat) (hhigh : a.toNat ≤ 0xF4)
    (hb : followsLead a b = true) (hc : isTail c = true) (hd : isTail d = true) :
    charAt? a (b :: c :: d :: rest) =
      some (Char.ofNat (((a.toNat % 8 * 64 + tailBits b) * 64 + tailBits c) * 64 + tailBits d),
        3) := by
  unfold charAt?
  rw [if_neg (by simp [UInt8.lt_iff_toNat_lt]; omega),
    if_neg (by simp [UInt8.lt_iff_toNat_lt]; omega),
    if_neg (by simp [UInt8.lt_iff_toNat_lt]; omega),
    if_neg (by simp [UInt8.lt_iff_toNat_lt]; omega), if_pos (UInt8.le_iff_toNat_le.mpr hhigh)]
  dsimp only
  rw [if_pos (by rw [hb, hc, hd, Bool.and_self, Bool.and_self])]

end Leads

/-- A character is read from its own octets, whatever follows them. -/
theorem charAt?_utf8 (c : Char) (rest : Bytes) :
    ∃ a tail, String.utf8EncodeChar c = a :: tail ∧
      charAt? a (tail ++ rest) = some (c, tail.length) := by
  have hc : Char.ofNat c.val.toNat = c := Char.ofNat_toNat c
  -- No surrogates and nothing above the last plane: this is what keeps the second octet in range
  -- behind the leads that narrow it.
  have hvalid := c.valid
  simp only [UInt32.isValidChar, Nat.isValidChar] at hvalid
  unfold String.utf8EncodeChar
  generalize c.val.toNat = v at hc hvalid
  dsimp only
  -- One case for each length; the octets come from the bits of `v`, and give them back.
  split
  next hone =>
    refine ⟨_, _, rfl, (charAt?_one _ ?_).trans ?_⟩
    · rw [UInt8.toNat_ofNat']
      omega
    · rw [UInt8.toNat_ofNat', Nat.mod_eq_of_lt (by omega), hc, List.length_nil]
  next hone =>
  split
  next htwo =>
    refine ⟨_, _, rfl, (charAt?_two _ ?_ ?_ ?_).trans ?_⟩
    · rw [UInt8.toNat_ofNat']
      omega
    · rw [UInt8.toNat_ofNat']
      omega
    · rw [isTail_iff, UInt8.toNat_ofNat']
      omega
    · rw [← hc, tailBits, UInt8.toNat_ofNat', UInt8.toNat_ofNat']
      congr 3
      omega
  next htwo =>
  split
  next hthree =>
    refine ⟨_, _, rfl, (charAt?_three _ ?_ ?_ ?_ ?_).trans ?_⟩
    · rw [UInt8.toNat_ofNat']
      omega
    · rw [UInt8.toNat_ofNat']
      omega
    · rw [followsLead_iff, UInt8.toNat_ofNat', UInt8.toNat_ofNat']
      split_ifs <;> omega
    · rw [isTail_iff, UInt8.toNat_ofNat']
      omega
    · simp only [← hc, tailBits, UInt8.toNat_ofNat']
      congr 3
      omega
  next hthree =>
    refine ⟨_, _, rfl, (charAt?_four _ ?_ ?_ ?_ ?_ ?_).trans ?_⟩
    · rw [UInt8.toNat_ofNat']
      omega
    · rw [UInt8.toNat_ofNat']
      omega
    · rw [followsLead_iff, UInt8.toNat_ofNat', UInt8.toNat_ofNat']
      split_ifs <;> omega
    · rw [isTail_iff, UInt8.toNat_ofNat']
      omega
    · rw [isTail_iff, UInt8.toNat_ofNat']
      omega
    · simp only [← hc, tailBits, UInt8.toNat_ofNat']
      congr 3
      omega

/-- Octets that belong to a character are skipped. -/
theorem runesAfter_skip (skipped rest : Bytes) :
    runesAfter skipped.length (skipped ++ rest) = runesAfter 0 rest := by
  induction skipped with
  | nil => rfl
  | cons b more ih => exact ih

/-- **Text survives UTF-8.** -/
theorem runes_utf8 (cs : List Char) :
    runes (cs.flatMap String.utf8EncodeChar) = cs.map .char := by
  induction cs with
  | nil => rfl
  | cons c more ih =>
    obtain ⟨a, tail, henc, hread⟩ := charAt?_utf8 c (more.flatMap String.utf8EncodeChar)
    rw [List.flatMap_cons, henc, List.cons_append, List.map_cons, ← ih, runes, runesAfter, hread]
    dsimp only
    -- The octets behind the lead are skipped, and reading starts anew at the next lead.
    rw [runesAfter_skip]
    rfl

/-- A text is read back from its octets. -/
theorem toChars_ofText (s : String) : toChars (ofText s) = s.toList := by
  rw [toChars, ofText, runes_utf8, List.map_map]
  exact List.map_id _

end Bytes

/-! ### Base64 -/

namespace Base64

/-- A symbol is read as its number. -/
theorem value?_symbol {n : Nat} (h : n < 64) :
    value? (UInt8.ofNat (symbol n).toNat) = some n := by
  revert h
  revert n
  decide

/-- A symbol is one octet. -/
theorem utf8_symbol {n : Nat} (h : n < 64) :
    String.utf8EncodeChar (symbol n) = [UInt8.ofNat (symbol n).toNat] := by
  revert h
  revert n
  decide

/-- The octet of a symbol. -/
def octet (n : Nat) : UInt8 := UInt8.ofNat (symbol n).toNat

/-- Octets from the numbers of four symbols. -/
theorem decodeFrom_four {x y z v : Nat} (hx : x < 64) (hy : y < 64) (hz : z < 64) (hv : v < 64)
    (pos : Nat) (rest : Bytes) :
    decodeFrom pos [] (octet x :: octet y :: octet z :: octet v :: rest) =
      (decodeFrom (pos + 4) [] rest).map fun bs =>
        UInt8.ofNat ((((x * 64 + y) * 64 + z) * 64 + v) / 65536) ::
          UInt8.ofNat ((((x * 64 + y) * 64 + z) * 64 + v) / 256) ::
          UInt8.ofNat (((x * 64 + y) * 64 + z) * 64 + v) :: bs := by
  simp only [decodeFrom, octet, value?_symbol hx, value?_symbol hy, value?_symbol hz,
    value?_symbol hv]
  rfl

/-- One octet from two symbols and two pads. -/
theorem decodeFrom_two {x y : Nat} (hx : x < 64) (hy : y < 64) (pos : Nat) :
    decodeFrom pos [] [octet x, octet y, 61, 61] = .ok [UInt8.ofNat ((x * 64 + y) / 16)] := by
  simp only [decodeFrom, octet, value?_symbol hx, value?_symbol hy]
  rfl

/-- Two octets from three symbols and a pad. -/
theorem decodeFrom_three {x y z : Nat} (hx : x < 64) (hy : y < 64) (hz : z < 64) (pos : Nat) :
    decodeFrom pos [] [octet x, octet y, octet z, 61] =
      .ok [UInt8.ofNat (((x * 64 + y) * 64 + z) / 1024),
        UInt8.ofNat (((x * 64 + y) * 64 + z) / 4)] := by
  simp only [decodeFrom, octet, value?_symbol hx, value?_symbol hy, value?_symbol hz]
  rfl

/-- An octet is known by its low bits. -/
theorem ofNat_eq_of_mod {n : Nat} {b : UInt8} (h : n % 256 = b.toNat) : UInt8.ofNat n = b := by
  apply UInt8.toNat_inj.mp
  rw [UInt8.toNat_ofNat', h]

/-- The padding is one octet too. -/
theorem utf8_pad : String.utf8EncodeChar '=' = [61] := by decide

/-- Reading undoes writing, three octets at a time. -/
theorem decodeFrom_encodeChars (pos : Nat) (bs : Bytes) :
    decodeFrom pos [] ((encodeChars bs).flatMap String.utf8EncodeChar) = .ok bs := by
  induction bs using encodeChars.induct generalizing pos with
  | case1 => rfl
  | case2 a =>
    -- One octet at the end: two symbols and two pads.
    have ha := a.toNat_lt
    have hfirst : a.toNat * 65536 / 262144 < 64 := by omega
    have hsecond : a.toNat * 65536 / 4096 % 64 < 64 := Nat.mod_lt _ (by decide)
    rw [encodeChars]
    simp only [List.flatMap_cons, List.flatMap_nil, utf8_symbol hfirst, utf8_symbol hsecond,
      utf8_pad, List.cons_append, List.nil_append]
    refine (decodeFrom_two hfirst hsecond pos).trans ?_
    rw [ofNat_eq_of_mod (b := a) (by omega)]
  | case3 a b =>
    -- Two octets at the end: three symbols and a pad.
    have ha := a.toNat_lt
    have hb := b.toNat_lt
    have hfirst : (a.toNat * 65536 + b.toNat * 256) / 262144 < 64 := by omega
    have hmod : ∀ m : Nat, m % 64 < 64 := fun m => Nat.mod_lt m (by decide)
    rw [encodeChars]
    simp only [List.flatMap_cons, List.flatMap_nil, utf8_symbol hfirst, utf8_symbol (hmod _),
      utf8_pad, List.cons_append, List.nil_append]
    refine (decodeFrom_three hfirst (hmod _) (hmod _) pos).trans ?_
    rw [ofNat_eq_of_mod (b := a) (by omega), ofNat_eq_of_mod (b := b) (by omega)]
  | case4 a b c r ih =>
    -- Three octets are four symbols, and the rest is read on its own.
    have ha := a.toNat_lt
    have hb := b.toNat_lt
    have hc := c.toNat_lt
    have hfirst : (a.toNat * 65536 + b.toNat * 256 + c.toNat) / 262144 < 64 := by omega
    have hmod : ∀ m : Nat, m % 64 < 64 := fun m => Nat.mod_lt m (by decide)
    rw [encodeChars]
    simp only [List.flatMap_cons, utf8_symbol hfirst, utf8_symbol (hmod _), List.cons_append,
      List.nil_append]
    refine (decodeFrom_four hfirst (hmod _) (hmod _) (hmod _) pos _).trans ?_
    rw [ih, ofNat_eq_of_mod (b := a) (by omega), ofNat_eq_of_mod (b := b) (by omega),
      ofNat_eq_of_mod (b := c) (by omega)]
    rfl

/-- **Octets survive base64.** -/
theorem decode_encode (bs : Bytes) : decode (encode bs) = .ok bs := by
  rw [decode, encode, Bytes.ofText, String.toList_ofList, decodeFrom_encodeChars]

end Base64

/-! ### Decimal numbers -/

namespace Text

/-- A digit is read as its number. -/
theorem digit?_of_isDigit {c : Char} (h : c.isDigit = true) : digit? c = some (c.toNat - 48) := by
  have hrange : '0' ≤ c ∧ c ≤ '9' := by
    simpa [Char.isDigit, UInt32.le_iff_toNat_le, Char.le_def] using h
  rw [digit?, if_pos hrange]

/-- Digits are read as the number they spell, if that number stays below the limit. -/
theorem readDigits_eq {limit : Nat} {cs : List Char} (hdigits : ∀ c ∈ cs, c.isDigit = true)
    {acc : Nat} (hle : Nat.ofDigitChars 10 cs acc ≤ limit) :
    readDigits limit acc cs = .ok (Nat.ofDigitChars 10 cs acc) := by
  induction cs generalizing acc with
  | nil => rfl
  | cons c more ih =>
    have hzero : '0'.toNat = 48 := rfl
    rw [Nat.ofDigitChars_cons, Nat.mul_comm, hzero] at hle ⊢
    -- Further digits only add to the number, so the limit holds at every digit.
    have hgrow : acc * 10 + (c.toNat - 48) ≤
        Nat.ofDigitChars 10 more (acc * 10 + (c.toNat - 48)) := by
      rw [Nat.ofDigitChars_eq_ofDigitChars_zero]
      have hpow : 0 < 10 ^ more.length := Nat.pow_pos (by decide)
      exact le_trans (Nat.le_mul_of_pos_left _ hpow) (Nat.le_add_right _ _)
    rw [readDigits, digit?_of_isDigit (hdigits c (by simp))]
    dsimp only
    rw [if_neg (by omega), ih (fun d hd => hdigits d (by simp [hd])) hle]

/-- The digits of a natural number. -/
theorem readDigits_repr {limit n : Nat} (h : n ≤ limit) :
    readDigits limit 0 (Nat.toDigits 10 n) = .ok n := by
  have hdigits : ∀ c ∈ Nat.toDigits 10 n, c.isDigit = true := fun c hc =>
    Nat.isDigit_of_mem_toDigits (by decide) (by decide) hc
  rw [readDigits_eq hdigits (by rwa [Nat.ofDigitChars_ten_toDigits]),
    Nat.ofDigitChars_ten_toDigits]

/-- The decimal form of an integer, as characters. -/
theorem toList_toString_int (z : Int) : (toString z).toList =
    if z < 0 then '-' :: Nat.toDigits 10 z.natAbs else Nat.toDigits 10 z.natAbs := by
  cases z with
  | ofNat n =>
    rw [if_neg (by simp)]
    exact Nat.toList_repr
  | negSucc n =>
    rw [if_pos (Int.negSucc_lt_zero n)]
    change ("-" ++ Nat.repr (n + 1)).toList = _
    rw [String.toList_append, Nat.toList_repr]
    rfl

/-- A written number starts with a digit. -/
theorem toDigits_head (n : Nat) : ∃ c more, Nat.toDigits 10 n = c :: more ∧ c.isDigit = true := by
  obtain ⟨c, more, h⟩ := List.exists_cons_of_ne_nil (Nat.toDigits_ne_nil (n := n) (b := 10))
  exact ⟨c, more, h, Nat.isDigit_of_mem_toDigits (by decide) (by decide) (h ▸ List.mem_cons_self)⟩

/-- No number above zero is written with a zero in front. -/
theorem head_toDigits {n : Nat} (hpos : 0 < n) : (Nat.toDigits 10 n).head? ≠ some '0' := by
  induction n using Nat.strong_induction_on with
  | _ n ih =>
    by_cases hone : n < 10
    · rw [Nat.toDigits_of_lt_base hone]
      interval_cases n <;> decide
    · -- The digits start as those of the number without its last one.
      rw [Nat.toDigits_of_base_le (by decide) (by omega), List.head?_append_of_ne_nil]
      · exact ih (n / 10) (by omega) (by omega)
      · exact Nat.toDigits_ne_nil

/-- **Numbers of sixty-four bits survive decimal form.** -/
theorem int64?_toString (n : Int64) : int64? (toString n.toInt) = some n := by
  have hlow : -2 ^ 63 ≤ n.toInt := n.le_toInt
  have hhigh : n.toInt < 2 ^ 63 := n.toInt_lt
  obtain ⟨c, more, hdigits, hc⟩ := toDigits_head n.toInt.natAbs
  have hread : readDigits 18446744073709551615 0 (c :: more) = .ok n.toInt.natAbs := by
    rw [← hdigits]
    exact readDigits_repr (by omega)
  unfold int64? readInt64
  rw [toList_toString_int, hdigits]
  by_cases hneg : n.toInt < 0
  · rw [if_pos hneg]
    -- The absolute value of the least number is one more than the greatest number.
    have habs : -(n.toInt.natAbs : Int) = n.toInt := by omega
    change (readSigned true (c :: more)).toOption = some n
    rw [readSigned, if_neg (by simp), hread]
    dsimp only
    rw [if_pos rfl, if_pos (by omega), habs, Int64.ofInt_toInt]
    rfl
  · rw [if_neg hneg]
    -- The first digit is not taken for a sign.
    have hplus : c ≠ '+' := by rintro rfl; exact absurd hc (by decide)
    have hminus : c ≠ '-' := by rintro rfl; exact absurd hc (by decide)
    have habs : (n.toInt.natAbs : Int) = n.toInt := by omega
    have hof : Int64.ofNat n.toInt.natAbs = n := by
      rw [← Int64.ofInt_eq_ofNat, habs, Int64.ofInt_toInt]
    split
    next heq => exact absurd (List.cons.inj heq).1 hplus
    next heq => exact absurd (List.cons.inj heq).1 hminus
    next =>
      rw [readSigned, if_neg (by simp), hread]
      dsimp only
      rw [if_neg (by simp), if_pos (by omega), hof]
      rfl

/-! ### Joined texts -/

/-- Without the separator there is one piece. -/
theorem splitChars_of_not_mem {sep : Char} {cs : List Char} (h : sep ∉ cs) :
    splitChars sep cs = [cs] := by
  induction cs with
  | nil => rfl
  | cons c more ih =>
    rw [splitChars, if_neg (by rintro rfl; exact h (by simp)),
      ih fun hmem => h (by simp [hmem])]

/-- The characters up to the first separator are a piece. -/
theorem splitChars_append {sep : Char} {cs : List Char} (h : sep ∉ cs) (rest : List Char) :
    splitChars sep (cs ++ sep :: rest) = cs :: splitChars sep rest := by
  induction cs with
  | nil => rw [List.nil_append, splitChars, if_pos rfl]
  | cons c more ih =>
    rw [List.cons_append, splitChars, if_neg (by rintro rfl; exact h (by simp)),
      ih fun hmem => h (by simp [hmem])]

/-- **Joined texts come apart again.** -/
theorem split_join {sep : Char} {names : List String} (hne : names ≠ [])
    (h : ∀ n ∈ names, sep ∉ n.toList) :
    split sep (join (String.ofList [sep]) names) = names := by
  have hchars : splitChars sep (join (String.ofList [sep]) names).toList =
      names.map String.toList := by
    induction names with
    | nil => exact absurd rfl hne
    | cons n more ih =>
      -- Only the last text has no separator behind it.
      cases more with
      | nil => exact splitChars_of_not_mem (h n (by simp))
      | cons m more =>
        rw [join, String.toList_append, String.toList_append, String.toList_ofList,
          List.append_assoc, List.singleton_append, splitChars_append (h n (by simp)),
          ih (by simp) fun k hk => h k (by simp [hk])]
        · rfl
        · simp
  rw [split, hchars, List.map_map]
  exact (List.map_congr_left fun n _ => String.ofList_toList).trans (List.map_id names)

end Text

end EngineHost
