import EngineHost.Json.Reader
import EngineHost.Number.Literal
import EngineHost.Proofs.TextForms

/-!
# Numerals

A numeral is a number as it is written in JSON: a sign, digits, a fraction and a power of ten. Two
readers meet it. The reader of JSON text finds where it ends (`Json.readNumber?_numeral`), provided
that what follows cannot belong to it (`Json.Stops`); the reader of literals finds what it says
(`Literal.read?_numeral`): a whole number, which all its digits spell, times a power of ten.
-/

namespace EngineHost

/-- **A numeral.** The digits in front of the point start with a zero only if they are one. -/
structure Numeral where
  negative : Bool := false
  whole : List Char
  fraction : List Char := []
  power : Option Int := none
  whole_ne_nil : whole ≠ []
  lead : whole = ['0'] ∨ whole.head? ≠ some '0'
  whole_digits : ∀ c ∈ whole, c.isDigit = true
  fraction_digits : ∀ c ∈ fraction, c.isDigit = true

namespace Numeral

/-- The sign of a numeral. -/
def signChars (negative : Bool) : List Char :=
  if negative then ['-'] else []

/-- The fraction with its point, if there is one. -/
def fractionChars (fraction : List Char) : List Char :=
  if fraction = [] then [] else '.' :: fraction

theorem fractionChars_of_ne_nil {fraction : List Char} (h : fraction ≠ []) :
    fractionChars fraction = '.' :: fraction :=
  if_neg h

/-- The power of ten with its mark and its sign, if there is one. -/
def powerChars : Option Int → List Char
  | none => []
  | some e => 'e' :: (if e < 0 then '-' else '+') :: Nat.toDigits 10 e.natAbs

/-- The numeral without its sign. -/
def body (n : Numeral) : List Char :=
  n.whole ++ (fractionChars n.fraction ++ powerChars n.power)

/-- The characters of a numeral. -/
def chars (n : Numeral) : List Char :=
  signChars n.negative ++ n.body

/-- The number that the digits spell. -/
def significand (n : Numeral) : Nat :=
  Nat.ofDigitChars 10 (n.whole ++ n.fraction) 0

/-- The power of ten of the last digit. -/
def exponent (n : Numeral) : Int :=
  n.power.getD 0 - n.fraction.length

theorem isDigit_of_mem_nil : ∀ c ∈ ([] : List Char), c.isDigit = true :=
  List.forall_mem_nil _

/-- The digits of a natural number, behind a sign. -/
def ofNat (negative : Bool) (n : Nat) : Numeral where
  negative := negative
  whole := Nat.toDigits 10 n
  whole_ne_nil := Nat.toDigits_ne_nil
  lead := by
    rcases Nat.eq_zero_or_pos n with rfl | hpos
    · exact .inl rfl
    · exact .inr (Text.head_toDigits hpos)
  whole_digits := fun _ hc => Nat.isDigit_of_mem_toDigits (by decide) (by decide) hc
  fraction_digits := isDigit_of_mem_nil

/-- The digits of a natural number follow its sign, and nothing follows them. -/
theorem chars_ofNat (negative : Bool) (n : Nat) :
    (ofNat negative n).chars = signChars negative ++ Nat.toDigits 10 n := by
  change signChars negative ++ (Nat.toDigits 10 n ++ []) = _
  rw [List.append_nil]

/-- The digits in front of the point start with a digit. -/
theorem body_head (n : Numeral) : ∃ c more, n.body = c :: more ∧ c.isDigit = true := by
  obtain ⟨c, more, hwhole⟩ := List.exists_cons_of_ne_nil n.whole_ne_nil
  refine ⟨c, more ++ (fractionChars n.fraction ++ powerChars n.power), ?_, ?_⟩
  · rw [body, hwhole, List.cons_append]
  · exact n.whole_digits c (hwhole ▸ List.mem_cons_self)

/-- A numeral starts with a sign or a digit. -/
theorem chars_head (n : Numeral) :
    ∃ c more, n.chars = c :: more ∧ (c = '-' ∨ c.isDigit = true) := by
  obtain ⟨c, more, hbody, hc⟩ := n.body_head
  cases hneg : n.negative with
  | true => exact ⟨'-', n.body, by rw [chars, hneg]; rfl, .inl rfl⟩
  | false => exact ⟨c, more, by rw [chars, hneg, hbody]; rfl, .inr hc⟩

/-- The characters of a numeral behind its sign: digits and four others. -/
theorem mem_body {n : Numeral} {c : Char} (hc : c ∈ n.body) :
    c.isDigit = true ∨ c = '.' ∨ c = 'e' ∨ c = '-' ∨ c = '+' := by
  rw [body, List.mem_append, List.mem_append] at hc
  rcases hc with hwhole | hfraction | hpower
  · exact .inl (n.whole_digits c hwhole)
  · unfold fractionChars at hfraction
    split at hfraction
    · cases hfraction
    · rcases List.mem_cons.mp hfraction with rfl | hdigit
      · exact .inr (.inl rfl)
      · exact .inl (n.fraction_digits c hdigit)
  · cases hp : n.power with
    | none =>
      rw [hp] at hpower
      cases hpower
    | some e =>
      rw [hp, powerChars, List.mem_cons, List.mem_cons] at hpower
      rcases hpower with rfl | hsign | hdigit
      · exact .inr (.inr (.inl rfl))
      · split at hsign
        · exact .inr (.inr (.inr (.inl hsign)))
        · exact .inr (.inr (.inr (.inr hsign)))
      · exact .inl (Nat.isDigit_of_mem_toDigits (by decide) (by decide) hdigit)

end Numeral

/-! ### Where a numeral ends -/

namespace Json

/-- What cannot belong to a number before it: the end, a comma, a closing bracket or a line end. -/
def Stops (rest : List Char) : Prop :=
  ∀ c ∈ rest.head?, c = ',' ∨ c = ']' ∨ c = '\x7d' ∨ c = '\n'

theorem stops_nil : Stops [] := by
  intro c hc
  cases hc

theorem stops_cons {c : Char} (h : c = ',' ∨ c = ']' ∨ c = '\x7d' ∨ c = '\n') (rest : List Char) :
    Stops (c :: rest) := by
  rintro _ ⟨⟩
  exact h

/-- The reader of JSON knows the decimal digits. -/
theorem isDigit_eq (c : Char) : isDigit c = c.isDigit := by
  simp [isDigit, Char.isDigit, Char.le_def, UInt32.le_iff_toNat_le]

/-- What does not go on with a digit. -/
def EndsDigits (rest : List Char) : Prop :=
  ∀ c ∈ rest.head?, isDigit c = false

/-- What cannot belong to a number does not go on with a digit. -/
theorem Stops.endsDigits {rest : List Char} (h : Stops rest) : EndsDigits rest := by
  intro c hc
  rcases h c hc with rfl | rfl | rfl | rfl <;> decide

/-- Digits are read up to what does not go on with one. -/
theorem readDigits?_digits {ds : List Char} (hne : ds ≠ []) (hdigits : ∀ c ∈ ds, c.isDigit = true)
    {rest : List Char} (h : EndsDigits rest) : readDigits? (ds ++ rest) = some (ds, rest) := by
  have hpos : ∀ c ∈ ds, isDigit c = true := fun c hc => by
    rw [isDigit_eq]
    exact hdigits c hc
  -- Of the rest nothing is taken, as it does not go on with a digit.
  have hrest : rest.takeWhile isDigit = [] ∧ rest.dropWhile isDigit = rest := by
    cases rest with
    | nil => exact ⟨rfl, rfl⟩
    | cons c more =>
      have hc : ¬isDigit c = true := by
        rw [h c rfl]
        decide
      exact ⟨List.takeWhile_cons_of_neg hc, List.dropWhile_cons_of_neg hc⟩
  obtain ⟨c, more, rfl⟩ := List.exists_cons_of_ne_nil hne
  rw [readDigits?, List.takeWhile_append_of_pos hpos, List.dropWhile_append_of_pos hpos, hrest.1,
    hrest.2, List.append_nil]

/-- The digits in front of the point are read, up to it. -/
theorem readWholePart?_numeral (n : Numeral) {rest : List Char} (h : EndsDigits rest) :
    readWholePart? (n.whole ++ rest) = some (n.whole, rest) := by
  rcases n.lead with hzero | hlead
  · rw [hzero]
    rfl
  · have hread := readDigits?_digits n.whole_ne_nil n.whole_digits h
    obtain ⟨c, more, hcons⟩ := List.exists_cons_of_ne_nil n.whole_ne_nil
    -- The reader looks for a zero first; there is none in front of a longer number.
    rw [hcons] at hread hlead ⊢
    rw [List.cons_append, readWholePart?, ← List.cons_append, hread]
    rintro r heq
    exact hlead (congrArg (fun cs => cs.head?) heq)

/-- A power of ten, or what follows a numeral without one. -/
theorem readPower?_numeral (power : Option Int) {rest : List Char} (h : Stops rest) :
    readPower? (Numeral.powerChars power ++ rest) = some (Numeral.powerChars power, rest) := by
  cases power with
  | none =>
    cases rest with
    | nil => rfl
    | cons c more => rcases h c rfl with rfl | rfl | rfl | rfl <;> rfl
  | some e =>
    have hdigits : ∀ c ∈ Nat.toDigits 10 e.natAbs, c.isDigit = true := fun c hc =>
      Nat.isDigit_of_mem_toDigits (by decide) (by decide) hc
    have hread := readDigits?_digits Nat.toDigits_ne_nil hdigits h.endsDigits
    have hsign : (if e < 0 then '-' else '+') = '+' ∨ (if e < 0 then '-' else '+') = '-' := by
      split
      · exact .inr rfl
      · exact .inl rfl
    rw [Numeral.powerChars, List.cons_append, List.cons_append, readPower?, if_pos (.inl rfl)]
    dsimp only
    rw [if_pos hsign, hread]
    rfl

/-- What follows the fraction of a numeral is neither a digit nor a point. -/
theorem powerChars_head (power : Option Int) {rest : List Char} (h : Stops rest) :
    ∀ c ∈ (Numeral.powerChars power ++ rest).head?, isDigit c = false ∧ c ≠ '.' := by
  cases power with
  | none =>
    intro c hc
    rcases h c hc with rfl | rfl | rfl | rfl <;> exact ⟨by decide, by decide⟩
  | some e =>
    rintro c ⟨⟩
    exact ⟨by decide, by decide⟩

/-- The fraction is read with its point, or nothing is. -/
theorem readFraction?_numeral {fraction : List Char} (hdigits : ∀ c ∈ fraction, c.isDigit = true)
    {rest : List Char} (h : ∀ c ∈ rest.head?, isDigit c = false ∧ c ≠ '.') :
    readFraction? (Numeral.fractionChars fraction ++ rest) =
      some (Numeral.fractionChars fraction, rest) := by
  unfold Numeral.fractionChars
  split
  next =>
    cases rest with
    | nil => rfl
    | cons c more =>
      rw [List.nil_append, readFraction?]
      rintro r heq
      exact (h c rfl).2 (List.cons.inj heq).1
  next hne =>
    rw [List.cons_append, readFraction?, readDigits?_digits hne hdigits fun c hc => (h c hc).1]
    rfl

/-- **A numeral is read to its end.** -/
theorem readNumber?_numeral (n : Numeral) {rest : List Char} (h : Stops rest) :
    readNumber? (n.chars ++ rest) = some (String.ofList n.chars, rest) := by
  have hpower := powerChars_head n.power h
  -- Behind the whole part stands a point, the mark of a power or what follows the numeral.
  have hfraction : EndsDigits
      (Numeral.fractionChars n.fraction ++ (Numeral.powerChars n.power ++ rest)) := by
    unfold Numeral.fractionChars
    split
    · exact fun c hc => (hpower c hc).1
    · rintro c ⟨⟩
      decide
  obtain ⟨c, more, hbody, hc⟩ := n.body_head
  have hminus : c ≠ '-' := by
    rintro rfl
    exact absurd hc (by decide)
  unfold readNumber?
  split
  next sign r heq =>
  -- A numeral without a sign starts with a digit, so the reader takes no digit for a sign.
  obtain ⟨rfl, rfl⟩ : sign = Numeral.signChars n.negative ∧ r = n.body ++ rest := by
    rw [Numeral.chars, hbody] at heq
    split at heq
    next tail htail =>
      cases heq
      cases hneg : n.negative with
      | true =>
        rw [hneg] at htail
        exact ⟨rfl, by rw [hbody]; exact (List.cons.inj htail).2.symm⟩
      | false =>
        rw [hneg] at htail
        exact absurd (List.cons.inj htail).1 hminus
    next hother =>
      cases heq
      cases hneg : n.negative with
      | true =>
        rw [hneg] at hother
        exact (hother _ rfl).elim
      | false => exact ⟨rfl, by rw [hbody]; rfl⟩
  rw [Numeral.body, List.append_assoc, List.append_assoc, readWholePart?_numeral n hfraction]
  dsimp only [Option.bind_eq_bind, Option.bind_some]
  rw [readFraction?_numeral n.fraction_digits hpower]
  dsimp only [Option.bind_some]
  rw [readPower?_numeral n.power h]
  dsimp only [Option.bind_some]
  rw [List.append_assoc, List.append_assoc]
  rfl

end Json

/-! ### What a numeral says -/

namespace Literal

/-- The value of a decimal digit. -/
theorem hexValue?_of_isDigit {c : Char} (h : c.isDigit = true) :
    Bytes.hexValue? c = some (c.toNat - 48) ∧ c.toNat - 48 < 10 := by
  have hrange : '0' ≤ c ∧ c ≤ '9' := by
    simpa [Char.isDigit, UInt32.le_iff_toNat_le, Char.le_def] using h
  refine ⟨if_pos hrange, ?_⟩
  have hnine : c.toNat ≤ 57 := hrange.2
  omega

/-- Digits add to what has been read. -/
theorem readDigits_digits {ds : List Char} (hdigits : ∀ c ∈ ds, c.isDigit = true) (acc : Digits)
    (rest : List Char) :
    readDigits 10 acc (ds ++ rest) =
      readDigits 10
        { value := Nat.ofDigitChars 10 ds acc.value, any := acc.any || !ds.isEmpty,
          point := acc.point,
          places := if acc.point then acc.places + ds.length else acc.places } rest := by
  -- What has been read so far changes with each digit, so it is arbitrary.
  induction ds generalizing acc with
  | nil => simp
  | cons c more ih =>
    have hc := hdigits c List.mem_cons_self
    obtain ⟨hvalue, hlt⟩ := hexValue?_of_isDigit hc
    have hline : c ≠ '_' := by
      rintro rfl
      exact absurd hc (by decide)
    have hpoint : c ≠ '.' := by
      rintro rfl
      exact absurd hc (by decide)
    have hzero : '0'.toNat = 48 := rfl
    rw [List.cons_append, readDigits, if_neg hline, if_neg hpoint, hvalue]
    dsimp only
    rw [if_pos hlt, ih fun d hd => hdigits d (List.mem_cons_of_mem c hd)]
    -- One digit more is one place more, behind the point.
    congr 1
    rw [Nat.ofDigitChars_cons, Nat.mul_comm 10, hzero]
    simp only [Bool.true_or, List.isEmpty_cons, Bool.not_false, Bool.or_true, List.length_cons]
    split
    · rw [Nat.add_assoc, Nat.add_comm 1]
    · rfl

/-- The digits of a numeral are read to the power of ten. -/
theorem readDigits_numeral (n : Numeral) :
    readDigits 10 {} n.body =
      ({ value := n.significand, any := true, point := !n.fraction.isEmpty,
         places := n.fraction.length }, Numeral.powerChars n.power) := by
  -- The mark of a power is neither a digit nor a point.
  have hstop (acc : Digits) : readDigits 10 acc (Numeral.powerChars n.power) =
      (acc, Numeral.powerChars n.power) := by
    cases n.power with
    | none => rfl
    | some e => rfl
  have hany : (!n.whole.isEmpty) = true := by
    rw [List.isEmpty_eq_false_iff.mpr n.whole_ne_nil]
    rfl
  rw [Numeral.body, readDigits_digits n.whole_digits, Numeral.significand, Nat.ofDigitChars_append]
  by_cases hfraction : n.fraction = []
  · rw [Numeral.fractionChars, if_pos hfraction, List.nil_append, hstop, hfraction, hany]
    rfl
  · rw [Numeral.fractionChars, if_neg hfraction, List.cons_append, readDigits, if_neg (by decide),
      if_pos rfl, if_neg Bool.false_ne_true, readDigits_digits n.fraction_digits, hstop, hany,
      List.isEmpty_eq_false_iff.mpr hfraction]
    simp

/-- Without underscores there is none at the wrong place. -/
theorem underscoresFit_of_notMem {cs : List Char} (h : '_' ∉ cs) {before : Before}
    (hbefore : before ≠ .underscore) (hex : Bool) : underscoresFit hex before cs = true := by
  induction cs generalizing before with
  | nil => exact decide_eq_true hbefore
  | cons c more ih =>
    obtain ⟨hc, hmore⟩ := not_or.mp (mt List.mem_cons.mpr h)
    rw [underscoresFit]
    split
    · exact ih hmore (by decide)
    · rw [if_neg (Ne.symm hc), decide_eq_true hbefore, Bool.true_and]
      exact ih hmore (by decide)

/-- The digits of an exponent that is not too large. -/
theorem exponentDigits?_eq {ds : List Char} (hdigits : ∀ c ∈ ds, c.isDigit = true) {acc : Nat}
    (hlt : Nat.ofDigitChars 10 ds acc < 10000) :
    exponentDigits? acc ds = some (Nat.ofDigitChars 10 ds acc) := by
  induction ds generalizing acc with
  | nil => rfl
  | cons c more ih =>
    have hc := hdigits c List.mem_cons_self
    have hline : c ≠ '_' := by
      rintro rfl
      exact absurd hc (by decide)
    have hzero : '0'.toNat = 48 := rfl
    rw [Nat.ofDigitChars_cons, Nat.mul_comm, hzero] at hlt ⊢
    -- Further digits only add to the number, so no digit is passed over.
    have hgrow : Nat.ofDigitChars 10 more (acc * 10 + (c.toNat - 48)) =
        10 ^ more.length * (acc * 10 + (c.toNat - 48)) + Nat.ofDigitChars 10 more 0 :=
      Nat.ofDigitChars_eq_ofDigitChars_zero
    have hpow : 0 < 10 ^ more.length := Nat.pow_pos (by decide)
    have hacc := Nat.le_mul_of_pos_left (acc * 10 + (c.toNat - 48)) hpow
    rw [exponentDigits?, if_neg hline, Text.digit?_of_isDigit hc]
    dsimp only
    rw [if_pos (by omega), ih (fun d hd => hdigits d (List.mem_cons_of_mem c hd)) hlt]

/-- A written power is read back. -/
theorem readExponent?_numeral {e : Int} (he : e.natAbs < 10000) :
    readExponent? ((if e < 0 then '-' else '+') :: Nat.toDigits 10 e.natAbs) = some e := by
  obtain ⟨c, more, hcons, hc⟩ := Text.toDigits_head e.natAbs
  -- The digits are those of a number below the limit.
  have hread : exponentDigits? 0 (c :: more) = some e.natAbs := by
    have hdigits : ∀ d ∈ Nat.toDigits 10 e.natAbs, d.isDigit = true := fun d hd =>
      Nat.isDigit_of_mem_toDigits (by decide) (by decide) hd
    rw [← hcons, exponentDigits?_eq hdigits (by rwa [Nat.ofDigitChars_ten_toDigits]),
      Nat.ofDigitChars_ten_toDigits]
  have hhead : ¬(Text.digit? c).isNone = true := by
    rw [Text.digit?_of_isDigit hc]
    exact Bool.false_ne_true
  rw [hcons]
  by_cases hneg : e < 0
  · rw [if_pos hneg]
    change (if (Text.digit? c).isNone = true then none
      else (exponentDigits? 0 (c :: more)).map fun n => -Int.ofNat n) = _
    rw [if_neg hhead, hread, Option.map_some, Option.some.injEq]
    exact (Int.neg_eq_comm.mp (Int.ofNat_natAbs_of_nonpos hneg.le).symm)
  · rw [if_neg hneg]
    change (if (Text.digit? c).isNone = true then none
      else (exponentDigits? 0 (c :: more)).map fun n => Int.ofNat n) = _
    rw [if_neg hhead, hread, Option.map_some, Option.some.injEq]
    exact Int.natAbs_of_nonneg (not_lt.mp hneg)

/-- A digit has no other case. -/
theorem toLower_of_isDigit {c : Char} (h : c.isDigit = true) : c.toLower = c := by
  have hrange : '0' ≤ c ∧ c ≤ '9' := by
    simpa [Char.isDigit, UInt32.le_iff_toNat_le, Char.le_def] using h
  have hnine : c.toNat ≤ 57 := hrange.2
  unfold Char.toLower
  rw [dif_neg]
  rintro ⟨hupper, -⟩
  have hletter : 65 ≤ c.toNat := hupper
  omega

/-- A numeral without its sign is a decimal literal. -/
theorem readFinite?_numeral (n : Numeral) (hpower : ∀ e ∈ n.power, e.natAbs < 10000) :
    readFinite? n.negative n.body = some (.decimal n.negative n.significand n.exponent) := by
  have hline : '_' ∉ n.body := fun hmem => by
    rcases Numeral.mem_body hmem with h | h | h | h | h <;> exact absurd h (by decide)
  have hfit : underscoresFit false .start n.body = true :=
    underscoresFit_of_notMem hline (by decide) false
  -- No numeral is hexadecimal: its characters are none that could mark the base.
  have hmark : ∀ x ∈ n.body, ¬x.toLower = 'x' := fun x hmem => by
    rcases Numeral.mem_body hmem with hdigit | rfl | rfl | rfl | rfl
    · rw [toLower_of_isDigit hdigit]
      rintro rfl
      exact absurd hdigit (by decide)
    all_goals decide
  unfold readFinite?
  split
  next base mark body fit heq =>
  obtain ⟨rfl, rfl, rfl, rfl⟩ : 10 = base ∧ 'e' = mark ∧ n.body = body ∧ true = fit := by
    rw [hfit] at heq
    split at heq
    next x c r hbody =>
      rw [if_neg (hmark x (by rw [hbody]; simp))] at heq
      simpa only [Prod.mk.injEq] using heq
    next => simpa only [Prod.mk.injEq] using heq
  rw [readDigits_numeral]
  cases hp : n.power with
  | none =>
    rw [Numeral.exponent, hp]
    change some (Literal.decimal n.negative n.significand (-(n.fraction.length : Int))) = _
    rw [Option.getD_none, Int.zero_sub]
  | some e =>
    have hread := readExponent?_numeral (hpower e hp)
    rw [Numeral.exponent, hp]
    dsimp only [Numeral.powerChars]
    rw [if_neg (by simp), if_pos (by decide), hread]
    rfl

/-- No word starts with a sign or a digit. -/
theorem isWord_eq_false {word : String} {w : Char} {ws : List Char} (hword : word.toList = w :: ws)
    (hw : w ≠ '-' ∧ w.isDigit = false) {c : Char} (hc : c = '-' ∨ c.isDigit = true)
    (more : List Char) : isWord word (c :: more) = false := by
  have hlower : c.toLower ≠ w := by
    rcases hc with rfl | hdigit
    · exact Ne.symm hw.1
    · rw [toLower_of_isDigit hdigit]
      rintro rfl
      exact Bool.false_ne_true (hw.2.symm.trans hdigit)
  unfold isWord
  rw [hword, List.map_cons]
  exact beq_eq_false_iff_ne.mpr fun heq => hlower (List.cons.inj heq).1

/-- **What a numeral says.** -/
theorem read?_numeral (n : Numeral) (hpower : ∀ e ∈ n.power, e.natAbs < 10000) :
    read? n.chars = some (.decimal n.negative n.significand n.exponent) := by
  obtain ⟨c, more, hchars, hc⟩ := n.chars_head
  obtain ⟨b, rest, hbody, hb⟩ := n.body_head
  have hsign : readSign n.chars = (n.negative, n.body) := by
    unfold Numeral.chars
    cases n.negative with
    | true => rfl
    | false =>
      have hplus : b ≠ '+' := by
        rintro rfl
        exact absurd hb (by decide)
      have hminus : b ≠ '-' := by
        rintro rfl
        exact absurd hb (by decide)
      rw [hbody]
      change readSign (b :: rest) = _
      rw [readSign]
      · rintro r heq
        exact hplus (List.cons.inj heq).1
      · rintro r heq
        exact hminus (List.cons.inj heq).1
  unfold read?
  rw [hsign]
  dsimp only
  have hnan : isWord "nan" n.chars = false := by
    rw [hchars]
    exact isWord_eq_false rfl (by decide) hc more
  have hinf : (isWord "inf" n.body || isWord "infinity" n.body) = false := by
    rw [hbody, isWord_eq_false rfl (by decide) (.inr hb), isWord_eq_false rfl (by decide) (.inr hb)]
    rfl
  rw [hnan, hinf, if_neg Bool.false_ne_true, if_neg Bool.false_ne_true]
  exact readFinite?_numeral n hpower

end Literal

end EngineHost
