import EngineHost.Checkup
import EngineHost.Proofs.TextPieces

/-!
# Versions of the library

A checkup admits a version of the library by two numbers in its text: the major version has to be
one, and the minor version at least what is asked for. The numbers are read as integers of
sixty-four bits (`Text.readInt64_eq_ok_iff`), and then the minor version is cut down to thirty-two
bits before it is compared.

`Checkup.Declares` says what a text declares, in terms of the integers that its parts spell.
`Checkup.admits_version_iff` says which texts are admitted: the texts that say nothing, and those
that declare major version one and a minor version that leaves a large enough remainder by 2^32.
This is the comparison of integers for every minor version from zero to 2^32 - 1. A negative one can
be admitted (`Checkup.admits_negative_version`), and a larger one refused.
-/

namespace EngineHost

namespace Text

/-! ### Reading integers of sixty-four bits -/

/-- **A text spells an integer of sixty-four bits** in decimal digits behind an optional sign. -/
def SpellsInt64 (s : String) (n : Int) : Prop :=
  integer? s.toList = some n ∧ -2 ^ 63 ≤ n ∧ n < 2 ^ 63

/-- Reading on only adds to a number. -/
theorem le_of_digitsFrom? {cs : List Char} {acc n : Nat} (h : digitsFrom? acc cs = some n) :
    acc ≤ n := by
  induction cs generalizing acc with
  | nil => exact Nat.le_of_eq (Option.some.inj h)
  | cons c more ih =>
    obtain ⟨d, -, hmore⟩ := Option.bind_eq_some_iff.mp h
    have hle := ih hmore
    omega

/-- Digits read below a limit are digits that spell a number up to the limit. -/
theorem readDigits_eq_ok_iff {limit acc n : Nat} {cs : List Char} (hacc : acc ≤ limit) :
    readDigits limit acc cs = .ok n ↔ digitsFrom? acc cs = some n ∧ n ≤ limit := by
  induction cs generalizing acc with
  | nil =>
    simp only [readDigits, digitsFrom?, Except.ok.injEq, Option.some.injEq]
    constructor
    · rintro rfl
      exact ⟨rfl, hacc⟩
    · exact And.left
  | cons c more ih =>
    rw [readDigits, digitsFrom?]
    cases digit? c with
    | none => simp
    | some d =>
      dsimp only [Option.bind_some]
      split
      next hbig =>
        -- What follows only adds to the number, so that it stays above the limit.
        constructor
        · intro h
          cases h
        · rintro ⟨hmore, hle⟩
          have hgrow := le_of_digitsFrom? hmore
          omega
      next hroom => exact ih (Nat.le_of_not_lt hroom)

/-- A magnitude with its sign, where the two together are in range. -/
theorem readSigned_eq_ok_iff {negative : Bool} {cs : List Char} {x : Int64} :
    readSigned negative cs = .ok x ↔
      ∃ n, natural? cs = some n ∧ x.toInt = if negative then -(n : Int) else n := by
  have hlow : -2 ^ 63 ≤ x.toInt := x.le_toInt
  have hhigh : x.toInt < 2 ^ 63 := x.toInt_lt
  cases cs with
  | nil => simp [readSigned, natural?]
  | cons c more =>
    have hnatural : natural? (c :: more) = digitsFrom? 0 (c :: more) := rfl
    rw [hnatural, readSigned, if_neg (by simp)]
    have hread := @readDigits_eq_ok_iff 18446744073709551615 0
    constructor
    · intro h
      split at h
      next => cases h
      next n hn =>
        refine ⟨n, ((hread (by decide)).mp hn).1, ?_⟩
        -- The two signs have different limits, as there is one negative number more.
        cases negative with
        | true =>
          rw [if_pos rfl] at h ⊢
          split at h
          next hle =>
            rw [← Except.ok.inj h, Int64.toInt_ofInt_of_le (by omega) (by omega)]
          next => cases h
        | false =>
          rw [if_neg Bool.false_ne_true] at h ⊢
          split at h
          next hlt =>
            rw [← Except.ok.inj h, Int64.toInt_ofNat_of_lt (by omega)]
          next => cases h
    · rintro ⟨n, hdigits, hvalue⟩
      -- The number is one of sixty-four bits, so its magnitude is below the limit for the digits.
      have hle : n ≤ 18446744073709551615 := by
        split at hvalue <;> omega
      rw [(hread (by decide)).mpr ⟨hdigits, hle⟩]
      dsimp only
      cases negative with
      | true =>
        rw [if_pos rfl] at hvalue ⊢
        rw [if_pos (by omega), ← hvalue, Int64.ofInt_toInt]
      | false =>
        rw [if_neg Bool.false_ne_true] at hvalue ⊢
        rw [if_pos (by omega), ← Int64.ofInt_eq_ofNat, ← hvalue, Int64.ofInt_toInt]

/-- **What is read is what is spelled.** -/
theorem readInt64_eq_ok_iff {s : String} {x : Int64} :
    readInt64 s = .ok x ↔ SpellsInt64 s x.toInt := by
  rw [SpellsInt64, and_iff_left ⟨x.le_toInt, x.toInt_lt⟩]
  -- Both look at the first character for a sign, and read a magnitude behind it.
  unfold readInt64 integer?
  split
  next => rw [readSigned_eq_ok_iff, Option.map_eq_some_iff]; simp [eq_comm]
  next => rw [readSigned_eq_ok_iff, Option.map_eq_some_iff]; simp [eq_comm]
  next => rw [readSigned_eq_ok_iff, Option.map_eq_some_iff]; simp [eq_comm]

end Text

namespace Checkup

/-! ### What a version declares -/

/-- **A version declares two numbers**: its first two parts between points spell them. -/
def Declares (version : String) (major minor : Int) : Prop :=
  ∃ first second rest, Text.split '.' version = first :: second :: rest ∧
    Text.SpellsInt64 first major ∧ Text.SpellsInt64 second minor

variable {version : String} {major minor : Int}

/-- A version declares one pair of numbers. -/
theorem Declares.unique (h : Declares version major minor) {major' minor' : Int}
    (h' : Declares version major' minor') : major = major' ∧ minor = minor' := by
  obtain ⟨first, second, rest, hsplit, hmajor, hminor⟩ := h
  obtain ⟨first', second', rest', hsplit', hmajor', hminor'⟩ := h'
  obtain ⟨rfl, hrest⟩ := List.cons.inj (hsplit.symm.trans hsplit')
  obtain ⟨rfl, -⟩ := List.cons.inj hrest
  exact ⟨Option.some.inj (hmajor.1.symm.trans hmajor'.1),
    Option.some.inj (hminor.1.symm.trans hminor'.1)⟩

/-- What is read from a version is what it declares. -/
theorem majorMinor_eq_ok_iff {a b : Int64} :
    majorMinor version = .ok (a, b) ↔ Declares version a.toInt b.toInt := by
  have hnumber (what part : String) (x : Int64) :
      versionNumber what version part = .ok x ↔ Text.SpellsInt64 part x.toInt := by
    rw [versionNumber, mapError_eq_ok_iff, Text.readInt64_eq_ok_iff]
  unfold majorMinor
  constructor
  · intro h
    split at h
    next first second rest hsplit =>
      obtain ⟨major, hmajor, h⟩ := bind_eq_ok_iff.mp h
      obtain ⟨minor, hminor, h⟩ := bind_eq_ok_iff.mp h
      cases h
      exact ⟨first, second, rest, hsplit, (hnumber _ _ _).mp hmajor, (hnumber _ _ _).mp hminor⟩
    next => cases h
  · rintro ⟨first, second, rest, hsplit, hmajor, hminor⟩
    rw [hsplit]
    dsimp only
    rw [(hnumber _ _ _).mpr hmajor, ok_bind, (hnumber _ _ _).mpr hminor, ok_bind]
    rfl

/-- A number of sixty-four bits that a text declares. -/
theorem Declares.majorMinor (h : Declares version major minor) :
    Checkup.majorMinor version = .ok (Int64.ofInt major, Int64.ofInt minor) := by
  obtain ⟨first, second, rest, hsplit, hmajor, hminor⟩ := h
  rw [majorMinor_eq_ok_iff, Int64.toInt_ofInt_of_le hmajor.2.1 hmajor.2.2,
    Int64.toInt_ofInt_of_le hminor.2.1 hminor.2.2]
  exact ⟨first, second, rest, hsplit, hmajor, hminor⟩

/-! ### Thirty-two bits -/

/-- Cutting a number down to thirty-two bits leaves its remainder. -/
theorem toNat_cutDown (x : Int64) : (x.toUInt64.toUInt32.toNat : Int) = x.toInt % 2 ^ 32 := by
  -- Both sides are the pattern of sixty-four bits without its upper half.
  have hcut : x.toUInt64.toUInt32.toNat = x.toBitVec.toNat % 2 ^ 32 := rfl
  have hint : x.toInt = x.toBitVec.toInt := rfl
  rw [hcut, hint, BitVec.toInt_eq_toNat_cond]
  split <;> omega

/-- A text that says nothing declares nothing, as it has no two parts. -/
theorem Declares.known (h : Declares version major minor) :
    ¬(version = "" ∨ version = Library.unknownVersion) := by
  obtain ⟨first, second, rest, hsplit, -, -⟩ := h
  have hone (text : String) (hlength : (Text.split '.' text).length = 1) : version ≠ text := by
    rintro rfl
    rw [hsplit] at hlength
    simp at hlength
  rintro (hempty | hunknown)
  · exact hone "" (by decide +kernel) hempty
  · exact hone Library.unknownVersion (by decide +kernel) hunknown

/-- A version of the first generation is admitted by the remainder of its minor version. -/
theorem Declares.versionProblem?_eq_none_iff (h : Declares version 1 minor) (api : UInt32) :
    versionProblem? version api = none ↔ (api.toNat : Int) ≤ minor % 2 ^ 32 := by
  have hrange : -2 ^ 63 ≤ minor ∧ minor < 2 ^ 63 := by
    obtain ⟨_, _, _, -, -, hminor⟩ := h
    exact hminor.2
  have hcut := toNat_cutDown (Int64.ofInt minor)
  rw [Int64.toInt_ofInt_of_le hrange.1 hrange.2] at hcut
  rw [versionProblem?, if_neg h.known, h.majorMinor]
  dsimp only
  -- The major version is one, so only the remainder is left to compare.
  rw [if_neg (by decide)]
  split
  next hlt =>
    rw [UInt32.lt_iff_toNat_lt] at hlt
    constructor
    · intro hnone
      cases hnone
    · omega
  next hge =>
    rw [UInt32.lt_iff_toNat_lt] at hge
    refine iff_of_true rfl ?_
    omega

/-- An admitted text says nothing, or declares major version one. -/
theorem declares_of_admitted {api : UInt32} (h : versionProblem? version api = none)
    (hknown : ¬(version = "" ∨ version = Library.unknownVersion)) :
    ∃ minor, Declares version 1 minor := by
  rw [versionProblem?, if_neg hknown] at h
  split at h
  next => cases h
  next major minor hread =>
    split at h
    next => cases h
    next hone =>
      have hdeclares := majorMinor_eq_ok_iff.mp hread
      rw [not_not.mp hone] at hdeclares
      exact ⟨minor.toInt, hdeclares⟩

/-- **Which versions are admitted.** A text that says nothing is, and one that declares major
version one and a minor version whose remainder by 2^32 is at least what is asked for; no other text
is. So the test departs from the comparison of integers exactly for a negative minor version with so
large a remainder, and for one of 2^32 or more with a smaller one. -/
theorem admits_version_iff (version : String) (api : UInt32) :
    (versionProblem? version api = none ↔
      version = "" ∨ version = "unknown" ∨
        ∃ minor, Declares version 1 minor ∧ (api.toNat : Int) ≤ minor % 2 ^ 32) ∧
    ∀ minor, Declares version 1 minor →
      (¬(versionProblem? version api = none ↔ (api.toNat : Int) ≤ minor) ↔
        minor < 0 ∧ (api.toNat : Int) ≤ minor % 2 ^ 32 ∨
          2 ^ 32 ≤ minor ∧ minor % 2 ^ 32 < (api.toNat : Int)) := by
  constructor
  · rw [← or_assoc]
    constructor
    · intro hadmitted
      -- A text that says something is admitted only if it declares something.
      by_cases hknown : version = "" ∨ version = Library.unknownVersion
      · exact .inl hknown
      · obtain ⟨minor, hdeclares⟩ := declares_of_admitted hadmitted hknown
        exact .inr ⟨minor, hdeclares, (hdeclares.versionProblem?_eq_none_iff api).mp hadmitted⟩
    · rintro (hsilent | ⟨minor, hdeclares, hle⟩)
      · have hnothing : version = "" ∨ version = Library.unknownVersion := hsilent
        rw [versionProblem?, if_pos hnothing]
      · exact (hdeclares.versionProblem?_eq_none_iff api).mpr hle
  · intro minor hdeclares
    rw [hdeclares.versionProblem?_eq_none_iff api]
    -- Between zero and 2^32 the remainder is the number; what is asked for is in that range too.
    have hapi : (api.toNat : Int) < 2 ^ 32 := by
      have hlt := api.toNat_lt
      omega
    omega

theorem declares_recent : Declares "1.24.1" 1 24 :=
  ⟨"1", "24", ["1"], by decide +kernel, ⟨by decide +kernel, by decide, by decide⟩,
    ⟨by decide +kernel, by decide, by decide⟩⟩

/-- Minor version 24 where 23 is asked for. -/
theorem admits_version_iff_recent :
    Declares "1.24.1" 1 24 ∧ versionProblem? "1.24.1" 23 = none := by
  refine ⟨declares_recent, by_contra fun hrefused => ?_⟩
  have hdeparts := ((admits_version_iff "1.24.1" 23).2 24 declares_recent).mp fun hagrees =>
    hrefused (hagrees.mpr (by decide))
  exact absurd hdeparts (by decide)

/-- **A negative minor version is admitted**, and one that is large enough is refused: neither is
what a comparison of integers gives. -/
theorem admits_negative_version :
    (versionProblem? "1.-1" 23 = none ∧
      ¬("1.-1" = "" ∨ "1.-1" = "unknown" ∨
        ∃ minor, Declares "1.-1" 1 minor ∧ ((23 : UInt32).toNat : Int) ≤ minor)) ∧
    versionProblem? "1.4294967296" 23 ≠ none ∧
      ∃ minor, Declares "1.4294967296" 1 minor ∧ ((23 : UInt32).toNat : Int) ≤ minor := by
  have hnegative : Declares "1.-1" 1 (-1) :=
    ⟨"1", "-1", [], by decide +kernel, ⟨by decide +kernel, by decide, by decide⟩,
      ⟨by decide +kernel, by decide, by decide⟩⟩
  have hlarge : Declares "1.4294967296" 1 4294967296 :=
    ⟨"1", "4294967296", [], by decide +kernel, ⟨by decide +kernel, by decide, by decide⟩,
      ⟨by decide +kernel, by decide, by decide⟩⟩
  refine ⟨⟨(hnegative.versionProblem?_eq_none_iff 23).mpr (by decide), ?_⟩, ?_, 4294967296, hlarge,
    by decide⟩
  · rintro (hempty | hunknown | ⟨minor, hdeclares, hle⟩)
    · exact absurd hempty (by decide)
    · exact absurd hunknown (by decide)
    · -- The text declares one minor version, and that one is below zero.
      rw [← (hnegative.unique hdeclares).2] at hle
      exact absurd hle (by decide)
  · rw [ne_eq, hlarge.versionProblem?_eq_none_iff]
    decide

end Checkup

end EngineHost
