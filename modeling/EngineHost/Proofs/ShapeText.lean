import EngineHost.Proofs.HandleSpellings
import EngineHost.Proofs.TextPieces

/-!
# Shapes as text

A shape is written with an `x` between its dimensions and a question mark for each dynamic one. All
that is lost is which negative number stood for a dynamic dimension: reading gives the shape back
with `-1` for each of them (`Shape.parse_text`). The dimensions are cut apart again because no
dimension is written with the letter that divides them, and no shape with dimensions is taken for
the word for none, whose letters are none of theirs.

Reading is more lenient than writing, with blanks around, signs and leading zeros, but it makes no
other shapes: what it gives has no negative dimension but `-1` (`Shape.isNormal_of_parse`), and such
a shape is what its own text is read as (`Shape.parse_text_of_isNormal`).
-/

namespace EngineHost

/-- Nothing is trimmed off a text without blanks. -/
theorem trim_of_no_blanks {s : String} (h : ∀ c ∈ s.toList, Text.isBlank c = false) :
    Text.trim s = s := by
  by_cases hempty : s.toList = []
  · rw [Text.trim, hempty]
    exact (String.toList_injective hempty).symm
  · have htrim := @Handle.trim_between_blanks [] s.toList [] (by simp) (by simp) hempty h
    rwa [List.nil_append, List.append_nil, String.ofList_toList] at htrim

/-- A blank is no digit. -/
theorem isDigit_of_isBlank {c : Char} (h : Text.isBlank c = true) : c.isDigit = false := by
  by_contra hdigit
  rw [Bool.not_eq_false] at hdigit
  have hrange : 48 ≤ c.toNat ∧ c.toNat ≤ 57 := by
    simpa [Char.isDigit, UInt32.le_iff_toNat_le] using hdigit
  simp [Text.isBlank] at h
  omega

namespace Shape

/-- A dimension with `-1` for every dynamic one. -/
def normalDim (d : Int64) : Int64 :=
  if d < 0 then dynamic else d

/-- A shape with `-1` for every dynamic dimension. -/
def normalized (shape : Shape) : Shape :=
  shape.map normalDim

/-- A shape whose dynamic dimensions are all `-1`. -/
def IsNormal (shape : Shape) : Prop :=
  ∀ d ∈ shape, d < 0 → d = dynamic

variable {shape : Shape}

/-- A normal shape is its own normal form. -/
theorem IsNormal.normalized_eq (h : shape.IsNormal) : shape.normalized = shape := by
  refine (List.map_congr_left fun d hd => ?_).trans (List.map_id shape)
  by_cases hneg : d < 0
  · rw [normalDim, if_pos hneg, h d hd hneg, id]
  · rw [normalDim, if_neg hneg, id]

/-! ### One dimension -/

/-- A dimension is written in digits and question marks. -/
theorem not_mem_dimText {c : Char} (hdigit : c.isDigit = false) (hminus : c ≠ '-') (hmark : c ≠ '?')
    (d : Int64) : c ∉ (dimText d).toList := by
  unfold dimText
  split
  · exact List.not_mem_cons_of_ne_of_not_mem hmark List.not_mem_nil
  · exact not_mem_ofInt64 hdigit hminus d

/-- A dimension is read back, up to which number stood for a dynamic one. -/
theorem parseDim_dimText (whole : String) (d : Int64) :
    parseDim whole (dimText d) = .ok (normalDim d) := by
  unfold dimText normalDim
  by_cases hneg : d < 0
  · rw [if_pos hneg, if_pos hneg, parseDim, if_pos rfl]
  · have hread : Text.int64? (Text.ofInt64 d) = some d := Text.int64?_toString d
    -- The question mark is no number, so a written number is not taken for it.
    have hmark : Text.ofInt64 d ≠ "?" := by
      intro heq
      have hnone : Text.int64? "?" = none := by decide
      rw [heq, hnone] at hread
      cases hread
    rw [if_neg hneg, if_neg hneg, parseDim, if_neg hmark, hread]
    exact if_neg hneg

/-- A dimension that is read is not negative, or it is `-1`. -/
theorem parseDim_ok {whole piece : String} {d : Int64} (h : parseDim whole piece = .ok d) :
    d < 0 → d = dynamic := by
  unfold parseDim at h
  split at h
  · exact fun _ => (Except.ok.inj h).symm
  · split at h
    · split at h
      · cases h
      next hneg => exact fun hd => absurd (Except.ok.inj h ▸ hd) hneg
    · cases h

/-! ### All dimensions -/

/-- A character that no dimension is written with is in the text of a shape only as the
separator. -/
theorem not_mem_text_cons {c : Char} (hdigit : c.isDigit = false) (hminus : c ≠ '-')
    (hmark : c ≠ '?')
    (hsep : c ≠ 'x') (d : Int64) (more : Shape) : c ∉ (text (d :: more)).toList := by
  -- Neither the separator nor any dimension has the character.
  refine @Text.not_mem_join c "x" _ ?_ fun t ht => ?_
  · exact List.not_mem_cons_of_ne_of_not_mem hsep List.not_mem_nil
  · obtain ⟨e, -, rfl⟩ := List.mem_map.mp ht
    exact not_mem_dimText hdigit hminus hmark e

/-- The text of a shape is cut where it was joined. -/
theorem split_text (d : Int64) (more : Shape) :
    Text.split 'x' (text (d :: more)) = (d :: more).map dimText := by
  refine @Text.split_join 'x' _ (by simp) fun t ht => ?_
  obtain ⟨e, -, rfl⟩ := List.mem_map.mp ht
  exact not_mem_dimText (by decide) (by decide) (by decide) e

/-- All dimensions are read back. -/
theorem mapM_parseDim (whole : String) (shape : Shape) :
    (shape.map dimText).mapM (parseDim whole) = .ok shape.normalized := by
  induction shape with
  | nil => rfl
  | cons d more ih =>
    rw [List.map_cons, List.mapM_cons, parseDim_dimText, ih]
    rfl

/-- All dimensions that are read are normal. -/
theorem isNormal_of_mapM {whole : String} {pieces : List String}
    (h : pieces.mapM (parseDim whole) = .ok shape) : shape.IsNormal := by
  induction pieces generalizing shape with
  | nil =>
    cases h
    exact fun d hd => absurd hd List.not_mem_nil
  | cons piece more ih =>
    rw [List.mapM_cons] at h
    obtain ⟨d, hd, h⟩ := bind_eq_ok_iff.mp h
    obtain ⟨dims, hdims, h⟩ := bind_eq_ok_iff.mp h
    cases h
    exact List.forall_mem_cons.mpr ⟨parseDim_ok hd, ih hdims⟩

/-- The text of a shape has no blanks to trim. -/
theorem trim_text (shape : Shape) : Text.trim shape.text = shape.text := by
  cases shape with
  | nil => decide
  | cons d more =>
    -- No character of the text is a blank, whichever of its parts it belongs to.
    refine trim_of_no_blanks fun c hc => ?_
    by_contra hblank
    rw [Bool.not_eq_false] at hblank
    have hne {e : Char} (he : Text.isBlank e = false) : c ≠ e := by
      rintro rfl
      exact absurd hblank (by rw [he]; decide)
    exact not_mem_text_cons (isDigit_of_isBlank hblank) (hne (by decide)) (hne (by decide))
      (hne (by decide)) d more hc

/-- **Reading a written shape** gives it back, with `-1` for its dynamic dimensions. -/
theorem parse_text (shape : Shape) : parse shape.text = .ok shape.normalized := by
  cases shape with
  | nil => decide
  | cons d more =>
    -- The word for no dimensions has a letter that dimensions are not written with.
    have hword : text (d :: more) ≠ "scalar" := by
      intro heq
      have hletter := not_mem_text_cons (c := 's') (by decide) (by decide) (by decide)
        (by decide) d more
      rw [heq] at hletter
      exact hletter (by decide)
    rw [parse, trim_text, if_neg hword, split_text]
    exact mapM_parseDim _ _

/-- A normal shape is read back as it is. -/
theorem parse_text_of_isNormal (h : shape.IsNormal) : parse shape.text = .ok shape := by
  rw [parse_text, h.normalized_eq]

/-- Normal shapes have different texts. -/
theorem IsNormal.text_inj {a b : Shape} (ha : a.IsNormal) (hb : b.IsNormal)
    (heq : a.text = b.text) : a = b := by
  have hread := parse_text_of_isNormal hb
  rw [← heq, parse_text_of_isNormal ha] at hread
  exact Except.ok.inj hread

/-- What is read has no dynamic dimension but `-1`. -/
theorem isNormal_of_parse {s : String} (h : parse s = .ok shape) : shape.IsNormal := by
  unfold parse at h
  dsimp only at h
  split at h
  · cases h
    exact fun d hd => absurd hd List.not_mem_nil
  · exact isNormal_of_mapM h

/-- Nothing in a normal shape is below `-1`. -/
theorem IsNormal.dynamic_le (h : shape.IsNormal) : ∀ d ∈ shape, -1 ≤ d := by
  intro d hd
  by_cases hneg : d < 0
  · exact (h d hd hneg).symm ▸ Int64.le_refl _
  · exact Int64.le_trans (by decide) (Int64.not_lt.mp hneg)

/-- **Reading inverts writing.** Every shape is read from its text, with `-1` for its dynamic
dimensions, so that the text tells shapes apart whose dynamic dimensions are all `-1`. Whatever text
a shape is read from, its dimensions are at least `-1`, and it is read from its own text again. -/
theorem parse_inverts_text :
    (∀ shape : Shape, parse shape.text = .ok (shape.map fun d => if d < 0 then -1 else d)) ∧
    (∀ a b : Shape, (∀ d ∈ a, d < 0 → d = -1) → (∀ d ∈ b, d < 0 → d = -1) →
      a.text = b.text → a = b) ∧
    (∀ (s : String) (shape : Shape), parse s = .ok shape →
      (∀ d ∈ shape, -1 ≤ d) ∧ parse shape.text = .ok shape) := by
  refine ⟨parse_text, fun a b ha hb => IsNormal.text_inj ha hb, fun s shape h => ?_⟩
  have hnormal := isNormal_of_parse h
  exact ⟨hnormal.dynamic_le, parse_text_of_isNormal hnormal⟩

/-- A text with blanks around it, a sign, leading zeros and a dynamic dimension. -/
theorem parse_inverts_text_lenient :
    parse "\t+007x?x-0 " = .ok [7, -1, 0] ∧ parse (text [7, -1, 0]) = .ok [7, -1, 0] ∧
    text [7, -1, 0] = "7x?x0" ∧ text [7, -5, 0] = "7x?x0" ∧
    ∀ b : Shape, (∀ d ∈ b, d < 0 → d = -1) → text [7, -1, 0] = b.text → [7, -1, 0] = b := by
  obtain ⟨-, hinj, hagain⟩ := parse_inverts_text
  have hread : parse "\t+007x?x-0 " = .ok [7, -1, 0] := by decide +kernel
  have hnormal : ∀ d ∈ ([7, -1, 0] : Shape), d < 0 → d = -1 := by
    rw [List.forall_mem_cons, List.forall_mem_cons, List.forall_mem_singleton]
    decide
  exact ⟨hread, (hagain _ _ hread).2, by decide +kernel, by decide +kernel,
    fun b => hinj [7, -1, 0] b hnormal⟩

end Shape

end EngineHost
