import EngineHost.Proofs.TextForms

/-!
# Pieces of texts

A separator cuts a text into pieces that are free of it, and the pieces joined again are the text
(`Text.join_split`). Whatever is joined has the characters of its pieces and of the separator
(`Text.not_mem_join`), and is no longer for having fewer pieces (`Text.size_join_le`).
-/

namespace EngineHost

namespace Text

variable {sep : Char}

/-- There is always a piece, be it an empty one. -/
theorem splitChars_ne_nil (sep : Char) (cs : List Char) : splitChars sep cs ≠ [] := by
  unfold splitChars
  split
  · exact List.cons_ne_nil _ _
  · split
    · exact List.cons_ne_nil _ _
    · split <;> exact List.cons_ne_nil _ _

/-- A text has a piece. -/
theorem split_ne_nil (sep : Char) (s : String) : split sep s ≠ [] :=
  fun h => splitChars_ne_nil sep s.toList (List.map_eq_nil_iff.mp h)

/-- The characters with the separator in front start a new piece. -/
theorem splitChars_sep (sep : Char) (cs : List Char) :
    splitChars sep (sep :: cs) = [] :: splitChars sep cs := by
  rw [splitChars, if_pos rfl]

/-- Any other character goes to the first piece. -/
theorem splitChars_cons {c : Char} (hc : c ≠ sep) (cs : List Char) :
    ∃ piece more, splitChars sep cs = piece :: more ∧
      splitChars sep (c :: cs) = (c :: piece) :: more := by
  obtain ⟨piece, more, hsplit⟩ := List.exists_cons_of_ne_nil (splitChars_ne_nil sep cs)
  refine ⟨piece, more, hsplit, ?_⟩
  rw [splitChars, if_neg hc, hsplit]

/-- No piece has the separator in it. -/
theorem not_mem_splitChars {cs piece : List Char} (h : piece ∈ splitChars sep cs) :
    sep ∉ piece := by
  -- The separator opens an empty piece; any other character joins the first one.
  induction cs generalizing piece with
  | nil =>
    rw [splitChars, List.mem_singleton] at h
    exact h ▸ List.not_mem_nil
  | cons c cs ih =>
    by_cases hc : c = sep
    · subst hc
      rw [splitChars_sep, List.mem_cons] at h
      rcases h with rfl | h
      · exact List.not_mem_nil
      · exact ih h
    · obtain ⟨first, more, hsplit, hcons⟩ := splitChars_cons hc cs
      rw [hcons, List.mem_cons] at h
      rcases h with rfl | h
      · exact List.not_mem_cons_of_ne_of_not_mem (Ne.symm hc) (ih (hsplit ▸ List.mem_cons_self))
      · exact ih (hsplit ▸ List.mem_cons_of_mem first h)

/-- No piece of a text has the separator in it. -/
theorem not_mem_of_mem_split {s piece : String} (h : piece ∈ split sep s) : sep ∉ piece.toList := by
  obtain ⟨cs, hcs, rfl⟩ := List.mem_map.mp h
  rw [String.toList_ofList]
  exact not_mem_splitChars hcs

/-- Of several pieces the first is followed by the separator. -/
theorem join_cons {sep s : String} {more : List String} (hmore : more ≠ []) :
    join sep (s :: more) = s ++ sep ++ join sep more := by
  cases more with
  | nil => exact absurd rfl hmore
  | cons _ _ => rfl

/-- A character in front of the first piece is in front of the joined text. -/
theorem toList_join_push (sep : String) (c : Char) (first : List Char) (rest : List String) :
    (join sep (String.ofList (c :: first) :: rest)).toList =
      c :: (join sep (String.ofList first :: rest)).toList := by
  cases rest with
  | nil => rw [join, join, String.toList_ofList, String.toList_ofList]
  | cons _ _ => simp [join_cons]

/-- **The pieces of a text, joined again**, are the text. -/
theorem join_split (sep : Char) (s : String) : join (String.ofList [sep]) (split sep s) = s := by
  have hchars (cs : List Char) :
      (join (String.ofList [sep]) ((splitChars sep cs).map String.ofList)).toList = cs := by
    induction cs with
    | nil => rfl
    | cons c cs ih =>
      by_cases hc : c = sep
      · subst hc
        rw [splitChars_sep, List.map_cons, join_cons (by simpa using splitChars_ne_nil c cs),
          String.toList_append, ih, String.toList_append, String.toList_ofList,
          String.toList_ofList]
        rfl
      · obtain ⟨first, more, hsplit, hcons⟩ := splitChars_cons hc cs
        rw [hsplit, List.map_cons] at ih
        rw [hcons, List.map_cons, toList_join_push, ih]
  exact String.toList_injective (hchars s.toList)

/-- The characters of a text are characters of what it is joined into. -/
theorem mem_join {c : Char} {sep : String} {texts : List String} {t : String} (ht : t ∈ texts)
    (hc : c ∈ t.toList) : c ∈ (join sep texts).toList := by
  induction texts with
  | nil => exact absurd ht List.not_mem_nil
  | cons u more ih =>
    cases more with
    | nil => exact List.mem_singleton.mp ht ▸ hc
    | cons v more =>
      rw [join_cons (List.cons_ne_nil _ _), String.toList_append, String.toList_append]
      rcases List.mem_cons.mp ht with rfl | hmore
      · exact List.mem_append_left _ (List.mem_append_left _ hc)
      · exact List.mem_append_right _ (ih hmore)

/-- A character in none of the texts and not in the separator is not in the joined text. -/
theorem not_mem_join {c : Char} {sep : String} {texts : List String} (hsep : c ∉ sep.toList)
    (htexts : ∀ t ∈ texts, c ∉ t.toList) : c ∉ (join sep texts).toList := by
  induction texts with
  | nil => exact List.not_mem_nil
  | cons t more ih =>
    rw [List.forall_mem_cons] at htexts
    cases more with
    | nil => exact htexts.1
    | cons u more =>
      rw [join, String.toList_append, String.toList_append, List.mem_append, List.mem_append]
      · rintro ((ht | hs) | hmore)
        · exact htexts.1 ht
        · exact hsep hs
        · exact ih htexts.2 hmore
      · simp

/-- Fewer pieces are no longer when joined. -/
theorem size_join_le {sep : String} {pieces others : List String} (h : pieces.Sublist others) :
    (join sep pieces).utf8ByteSize ≤ (join sep others).utf8ByteSize := by
  -- A text is no shorter than its first piece, nor than what follows the first.
  have hfirst (s : String) (more : List String) :
      s.utf8ByteSize ≤ (join sep (s :: more)).utf8ByteSize := by
    cases more with
    | nil => exact le_rfl
    | cons _ _ =>
      rw [join_cons (List.cons_ne_nil _ _), String.utf8ByteSize_append, String.utf8ByteSize_append]
      omega
  have hrest (s : String) (more : List String) :
      (join sep more).utf8ByteSize ≤ (join sep (s :: more)).utf8ByteSize := by
    cases more with
    | nil => exact Nat.zero_le _
    | cons _ _ =>
      rw [join_cons (List.cons_ne_nil _ _), String.utf8ByteSize_append]
      omega
  induction h with
  | slnil => exact le_rfl
  | cons s _ ih => exact ih.trans (hrest s _)
  | @cons_cons pieces others s hsub ih =>
    -- The piece is kept on both sides, and a separator behind it on the left has one on the right.
    cases pieces with
    | nil => exact hfirst s others
    | cons _ _ =>
      have hothers : others ≠ [] := by
        rintro rfl
        cases hsub
      rw [join_cons (List.cons_ne_nil _ _), join_cons hothers]
      simp only [String.utf8ByteSize_append]
      omega

/-- A shorter last piece makes a shorter text. -/
theorem size_join_concat_le {sep : String} {pieces : List String} {last other : String}
    (h : last.utf8ByteSize ≤ other.utf8ByteSize) :
    (join sep (pieces ++ [last])).utf8ByteSize ≤ (join sep (pieces ++ [other])).utf8ByteSize := by
  induction pieces with
  | nil => exact h
  | cons s more ih =>
    rw [List.cons_append, List.cons_append, join_cons (by simp), join_cons (by simp)]
    simp only [String.utf8ByteSize_append]
    omega

end Text

end EngineHost
