import EngineHost.Proofs.JsonText

/-!
# Indented JSON text that comes back

The indented form of a value differs from the compact one by the blanks in it: a line end before
every item, member and closing bracket, and one blank behind every colon. The reader skips blanks in
these places, so it reads a plain value from either form (`Json.readFirst?_indented`).

The argument is that of the compact form with one more thing to keep track of. A list is read from
behind its opening bracket on, where blanks have been skipped, so what is said of items and members
is said of `skipSpace` of their lines.
-/

namespace EngineHost.Json

/-! ### Blanks -/

/-- A line break is skipped as a whole. -/
theorem skipSpace_lineBreak (level : Nat) (cs : List Char) :
    skipSpace (lineBreak level ++ cs) = skipSpace cs := by
  refine List.dropWhile_append_of_pos fun c hc => ?_
  rw [lineBreak, List.mem_cons] at hc
  rcases hc with rfl | hc
  · rfl
  · rw [List.eq_of_mem_replicate hc]
    rfl

/-- A line break ends a number. -/
theorem stops_lineBreak (level : Nat) (cs : List Char) : Stops (lineBreak level ++ cs) :=
  stops_cons (.inr (.inr (.inr rfl))) _

theorem skipSpace_quote (s : String) (cs : List Char) :
    skipSpace (writeString s ++ cs) = writeString s ++ cs :=
  List.dropWhile_cons_of_neg (by decide)

theorem skipSpace_lineBreak_bracket (level : Nat) {c : Char} (hc : c = ']' ∨ c = '\x7d')
    (rest : List Char) : skipSpace (lineBreak level ++ c :: rest) = c :: rest := by
  rw [skipSpace_lineBreak]
  refine List.dropWhile_cons_of_neg ?_
  rcases hc with rfl | rfl <;> decide

/-! ### Lines -/

theorem writeItemLines_cons_cons (level : Nat) (v w : Json) (more : List Json) :
    writeItemLines level (v :: w :: more) =
      lineBreak level ++ writeIndented level v ++ ',' :: writeItemLines level (w :: more) :=
  rfl

theorem writeMemberLines_cons_cons (level : Nat) (name : String) (v : Json) (m : String × Json)
    (more : List (String × Json)) :
    writeMemberLines level ((name, v) :: m :: more) =
      lineBreak level ++ writeString name ++ ':' :: ' ' :: writeIndented level v ++
        ',' :: writeMemberLines level (m :: more) :=
  rfl

theorem writeIndented_array (level : Nat) (v : Json) (more : List Json) :
    writeIndented level (.array (v :: more)) =
      '[' :: writeItemLines (level + 1) (v :: more) ++ lineBreak level ++ [']'] :=
  rfl

theorem writeIndented_object (level : Nat) (m : String × Json) (more : List (String × Json)) :
    writeIndented level (.object (m :: more)) =
      '\x7b' :: writeMemberLines (level + 1) (m :: more) ++ lineBreak level ++ ['\x7d'] :=
  rfl

/-- An indented value starts like a compact one, with no blank. -/
theorem Plain.opens_indented {n : Nat} {v : Json} (h : Plain n v) (level : Nat) :
    Opens (writeIndented level v) := by
  cases h with
  | null => exact Plain.null.opens (n := 0)
  | bool b => exact (Plain.bool (n := 0) b).opens
  | number m => exact (Plain.number (n := 0) m).opens
  | string s => exact (Plain.string (n := 0) s).opens
  | @array _ items _ => cases items <;> exact ⟨_, _, rfl, by decide, by decide, by decide⟩
  | @object _ members _ => cases members <;> exact ⟨_, _, rfl, by decide, by decide, by decide⟩

/-- Skipping the blanks in front of the first item leaves its text. -/
theorem Plain.skipSpace_itemLines {n : Nat} {v : Json} (h : Plain n v) (level : Nat)
    (cs : List Char) :
    skipSpace (lineBreak level ++ writeIndented level v ++ cs) = writeIndented level v ++ cs := by
  rw [List.append_assoc, skipSpace_lineBreak]
  exact ((h.opens_indented level).append cs).skipSpace

/-- The first line of an array starts like its first item. -/
theorem Plain.opens_itemLines {n : Nat} {v : Json} (h : Plain n v) (level : Nat) (more : List Json)
    (cs : List Char) : Opens (skipSpace (writeItemLines level (v :: more) ++ cs)) := by
  cases more with
  | nil =>
    rw [writeItemLines, h.skipSpace_itemLines]
    exact (h.opens_indented level).append cs
  | cons w more =>
    rw [writeItemLines_cons_cons, List.append_assoc, h.skipSpace_itemLines]
    exact (h.opens_indented level).append _

/-- The first line of an object starts with the quote of a name. -/
theorem skipSpace_memberLines (level : Nat) (m : String × Json) (more : List (String × Json))
    (cs : List Char) :
    ∃ r, skipSpace (writeMemberLines level (m :: more) ++ cs) = '"' :: r := by
  cases more <;>
    exact ⟨_, by
      simp only [writeMemberLines, List.append_assoc]
      rw [skipSpace_lineBreak, skipSpace_quote]
      rfl⟩

/-! ### Reading lines -/

/-- A value whose indented form is read back wherever values may be nested `n` deeper. -/
def ReadsIndented (n : Nat) (v : Json) : Prop :=
  ∀ {level fuel depth : Nat} {rest : List Char}, (writeIndented level v).length ≤ fuel →
    depth + n ≤ maxDepth → Stops rest →
    readValue? fuel depth (writeIndented level v ++ rest) = some (v, rest)

/-- Item lines are read back to the closing bracket. -/
theorem readItems?_lines {n : Nat} {items : List Json} (hne : items ≠ [])
    (hplain : ∀ v ∈ items, Plain n v) (hreads : ∀ v ∈ items, ReadsIndented n v)
    {level below fuel depth : Nat} {rest : List Char}
    (hfuel : (writeItemLines level items).length ≤ fuel) (hdepth : depth + n ≤ maxDepth) :
    readItems? fuel depth
      (skipSpace (writeItemLines level items ++ (lineBreak below ++ ']' :: rest))) =
      some (items, rest) := by
  induction items generalizing fuel with
  | nil => exact absurd rfl hne
  | cons v more ih =>
    have hread : ReadsIndented n v := hreads v (by simp)
    have hskip := (hplain v (by simp)).skipSpace_itemLines level
    cases more with
    | nil =>
      -- The last item: behind it is the line of the closing bracket.
      rw [writeItemLines, lineBreak, List.length_append, List.length_cons] at hfuel
      obtain ⟨fuel, rfl⟩ := Nat.exists_eq_succ_of_ne_zero (n := fuel) (by omega)
      rw [writeItemLines, hskip, readItems?, hread (by omega) hdepth (stops_lineBreak below _)]
      dsimp only [Option.bind_eq_bind, Option.bind_some]
      rw [skipSpace_lineBreak_bracket below (.inl rfl)]
      rfl
    | cons w more =>
      rw [writeItemLines_cons_cons, List.length_append, List.length_append, lineBreak,
        List.length_cons, List.length_cons] at hfuel
      obtain ⟨fuel, rfl⟩ := Nat.exists_eq_succ_of_ne_zero (n := fuel) (by omega)
      have hmore : readItems? fuel depth (skipSpace (writeItemLines level (w :: more) ++
          (lineBreak below ++ ']' :: rest))) = some (w :: more, rest) :=
        ih (by simp) (fun v hv => hplain v (by simp [hv])) (fun v hv => hreads v (by simp [hv]))
          (by omega)
      rw [writeItemLines_cons_cons, List.append_assoc, hskip, List.cons_append, readItems?,
        hread (by omega) hdepth (stops_cons (.inl rfl) _)]
      -- Behind the comma the reader skips blanks, as the induction hypothesis wants it.
      change (readItems? fuel depth (skipSpace (writeItemLines level (w :: more) ++
        (lineBreak below ++ ']' :: rest)))).bind _ = _
      rw [hmore]
      rfl

/-- Member lines are read back to the closing brace. -/
theorem readMembers?_lines {n : Nat} {members : List (String × Json)} (hne : members ≠ [])
    (hplain : ∀ m ∈ members, Plain n m.2) (hreads : ∀ m ∈ members, ReadsIndented n m.2)
    {level below fuel depth : Nat} {rest : List Char}
    (hfuel : (writeMemberLines level members).length ≤ fuel) (hdepth : depth + n ≤ maxDepth) :
    readMembers? fuel depth
      (skipSpace (writeMemberLines level members ++ (lineBreak below ++ '\x7d' :: rest))) =
      some (members, rest) := by
  induction members generalizing fuel with
  | nil => exact absurd rfl hne
  | cons m more ih =>
    obtain ⟨name, v⟩ := m
    have hread : ReadsIndented n v := hreads (name, v) (by simp)
    -- One blank stands between the colon and the value.
    have hblank (cs : List Char) :
        skipSpace (' ' :: (writeIndented level v ++ cs)) = writeIndented level v ++ cs :=
      (((hplain (name, v) (by simp)).opens_indented level).append cs).skipSpace
    cases more with
    | nil =>
      -- The last member: behind it is the line of the closing brace.
      simp only [writeMemberLines, lineBreak, List.length_append, List.length_cons] at hfuel
      obtain ⟨fuel, rfl⟩ := Nat.exists_eq_succ_of_ne_zero (n := fuel) (by omega)
      simp only [writeMemberLines, List.append_assoc, List.cons_append]
      rw [skipSpace_lineBreak, skipSpace_quote, readMembers?_member, hblank,
        hread (by omega) hdepth (stops_lineBreak below _)]
      dsimp only [Option.bind_eq_bind, Option.bind_some]
      rw [skipSpace_lineBreak_bracket below (.inr rfl)]
      rfl
    | cons m more =>
      simp only [writeMemberLines_cons_cons, lineBreak, List.length_append,
        List.length_cons] at hfuel
      obtain ⟨fuel, rfl⟩ := Nat.exists_eq_succ_of_ne_zero (n := fuel) (by omega)
      have hmore : readMembers? fuel depth (skipSpace (writeMemberLines level (m :: more) ++
          (lineBreak below ++ '\x7d' :: rest))) = some (m :: more, rest) :=
        ih (by simp) (fun m hm => hplain m (by simp [hm])) (fun m hm => hreads m (by simp [hm]))
          (by omega)
      simp only [writeMemberLines_cons_cons, List.append_assoc, List.cons_append]
      rw [skipSpace_lineBreak, skipSpace_quote, readMembers?_member, hblank,
        hread (by omega) hdepth (stops_cons (.inl rfl) _)]
      -- Behind the comma blanks are skipped, as for items.
      change (readMembers? fuel depth (skipSpace (writeMemberLines level (m :: more) ++
        (lineBreak below ++ '\x7d' :: rest)))).bind _ = _
      rw [hmore]
      rfl

/-- A plain value is read back from its indented form. -/
theorem Plain.readsIndented {n : Nat} {v : Json} (h : Plain n v) : ReadsIndented n v := by
  induction h with
  -- Values without parts have no blanks, and neither have empty arrays and objects.
  | null => exact Plain.null.readsBack
  | bool b => exact (Plain.bool b).readsBack
  | number m => exact (Plain.number m).readsBack
  | string s => exact (Plain.string s).readsBack
  | @array n items h ih =>
    intro level fuel depth rest hfuel hdepth hstops
    cases items with
    | nil => exact (Plain.array h).readsBack hfuel hdepth hstops
    | cons v more =>
      -- The empty array was read above, so there is a first line to skip to.
      have hopens := (h v (by simp)).opens_itemLines (level + 1) more
      rw [writeIndented_array] at hfuel ⊢
      simp only [List.length_append, List.length_cons] at hfuel
      obtain ⟨fuel, rfl⟩ := Nat.exists_eq_succ_of_ne_zero (n := fuel) (by omega)
      simp only [List.cons_append, List.append_assoc, List.nil_append]
      rw [readValue?_array (by omega) (hopens _),
        readItems?_lines (by simp) h ih (by omega) (by omega)]
      rfl
  | @object n members h ih =>
    intro level fuel depth rest hfuel hdepth hstops
    cases members with
    | nil => exact (Plain.object h).readsBack hfuel hdepth hstops
    | cons m more =>
      rw [writeIndented_object] at hfuel ⊢
      simp only [List.length_append, List.length_cons] at hfuel
      obtain ⟨fuel, rfl⟩ := Nat.exists_eq_succ_of_ne_zero (n := fuel) (by omega)
      simp only [List.cons_append, List.append_assoc, List.nil_append]
      obtain ⟨r, hr⟩ := skipSpace_memberLines (level + 1) m more
        (lineBreak level ++ '\x7d' :: rest)
      rw [readValue?_object (by omega) hr, ← hr,
        readMembers?_lines (by simp) h ih (by omega) (by omega)]
      rfl

/-- **The indented form of a value is read as that value**, up to what cannot belong to it. -/
theorem readFirst?_indented {v : Json} (h : Plain maxDepth v) {rest : List Char}
    (hstops : Stops rest) : readFirst? (v.indented.toList ++ rest) = some (v, rest) := by
  have hskip := ((h.opens_indented 0).append rest).skipSpace
  rw [indented, String.toList_ofList, readFirst?, hskip]
  exact h.readsIndented (by rw [List.length_append]; omega) (by omega) hstops

end EngineHost.Json
