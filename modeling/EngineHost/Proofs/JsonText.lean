import EngineHost.Json.Writer
import EngineHost.Proofs.Numerals

/-!
# JSON text that comes back

The compact form of a value is read as that value (`Json.readWhole?_compact`). Three things can
stand in the way. A number keeps any spelling it is given, and nesting is limited: in a plain value
(`Json.Plain`) every number is spelled by a numeral and the nesting is bounded. And a number has no
closing mark, so what follows a value has to start with one that cannot belong to it (`Json.Stops`).

The reader spends a unit of fuel on every value and on every step along a list. A written value has
at least as many characters, so the length of the text is always enough.
-/

namespace EngineHost.Json

/-! ### Strings -/

theorem hexValue?_hexDigit {n : Nat} (h : n < 16) :
    Bytes.hexValue? (Bytes.hexDigit n) = some n := by
  interval_cases n <;> decide

/-- Four digits spell every number of sixteen bits. -/
theorem readUnit?_hexDigits {n : Nat} (h : n < 65536) (rest : List Char) :
    readUnit? (Bytes.hexDigits 4 n ++ rest) = some (n, rest) := by
  change readUnit? (Bytes.hexDigit (n / 16 / 16 / 16 % 16) :: Bytes.hexDigit (n / 16 / 16 % 16) ::
    Bytes.hexDigit (n / 16 % 16) :: Bytes.hexDigit (n % 16) :: rest) = _
  have hdigit (k : Nat) := hexValue?_hexDigit (n := k % 16) (Nat.mod_lt _ (by decide))
  rw [readUnit?, hdigit, hdigit, hdigit, hdigit]
  change some (((n / 16 / 16 / 16 % 16 * 16 + n / 16 / 16 % 16) * 16 + n / 16 % 16) * 16 + n % 16,
    rest) = _
  rw [show ((n / 16 / 16 / 16 % 16 * 16 + n / 16 / 16 % 16) * 16 + n / 16 % 16) * 16 + n % 16 = n
    by omega]

/-- A plain character in front joins the run of plain characters behind it. -/
theorem readChars?_plain {c : Char} (h : isPlain c = true) (fuel : Nat) (rest : List Char) :
    readChars? (fuel + 1) (c :: rest) =
      (readChars? (fuel + 1) rest).map fun (s, r) => (c :: s, r) := by
  unfold readChars?
  -- The runs of plain characters on both sides differ by this one, whatever ends them.
  rw [List.takeWhile_cons_of_pos h, List.dropWhile_cons_of_pos h]
  split
  · rfl
  · cases readUnit? _ with
    | none => rfl
    | some p =>
      dsimp only [Option.bind_eq_bind, Option.bind_some]
      cases readChars? fuel _ <;> rfl
  · cases plainEscape? _ with
    | none => rfl
    | some e =>
      dsimp only [Option.bind_eq_bind, Option.bind_some]
      cases readChars? fuel _ <;> rfl
  · rfl

/-- An escape of two characters. -/
theorem readChars?_escape {c e : Char} (hu : e ≠ 'u') (he : plainEscape? e = some c) (fuel : Nat)
    (rest : List Char) :
    readChars? (fuel + 1) ('\\' :: e :: rest) =
      (readChars? fuel rest).map fun (s, r) => (c :: s, r) := by
  have hstop : ¬isPlain '\\' = true := by decide
  rw [readChars?, List.takeWhile_cons_of_neg hstop, List.dropWhile_cons_of_neg hstop]
  split
  -- Of the four ways to go on from a backslash this one is the third.
  next heq => exact absurd (List.cons.inj heq).1 (by decide)
  next heq => exact absurd (List.cons.inj (List.cons.inj heq).2).1 hu
  next heq =>
    obtain ⟨rfl, rfl⟩ := List.cons.inj (List.cons.inj heq).2
    rw [he]
    dsimp only [Option.bind_eq_bind, Option.bind_some]
    cases readChars? fuel rest <;> rfl
  next hne => exact absurd rfl (hne e rest)

/-- An escape of a unit below the surrogates. -/
theorem readChars?_unit {c : Char} (h : c.toNat < 0xD800) (fuel : Nat) (rest : List Char) :
    readChars? (fuel + 1) ('\\' :: 'u' :: Bytes.hexDigits 4 c.toNat ++ rest) =
      (readChars? fuel rest).map fun (s, r) => (c :: s, r) := by
  have hstop : ¬isPlain '\\' = true := by decide
  rw [List.cons_append, List.cons_append, readChars?, List.takeWhile_cons_of_neg hstop,
    List.dropWhile_cons_of_neg hstop]
  change ((readUnit? (Bytes.hexDigits 4 c.toNat ++ rest)).bind fun unit =>
    (readChars? fuel (resolveUnit unit.1 unit.2).2).bind fun more =>
      some ((resolveUnit unit.1 unit.2).1 :: more.1, more.2)) = _
  rw [readUnit?_hexDigits (by omega), Option.bind_some, resolveUnit, if_neg (by omega),
    if_neg (by omega), Char.ofNat_toNat]
  cases readChars? fuel rest <;> rfl

/-- One written character is read back in front of the rest. -/
theorem readChars?_escapeChar (c : Char) (fuel : Nat) (rest : List Char) :
    ∃ spent, spent ≤ 1 ∧ readChars? (fuel + 2) (escapeChar c ++ rest) =
      (readChars? (fuel + 2 - spent) rest).map fun (s, r) => (c :: s, r) := by
  unfold escapeChar
  dsimp only
  -- Five characters with an escape of their own, three that are always written as units, the rest.
  split
  · exact ⟨1, le_rfl, readChars?_escape (by decide) rfl _ _⟩
  · exact ⟨1, le_rfl, readChars?_escape (by decide) rfl _ _⟩
  · exact ⟨1, le_rfl, readChars?_escape (by decide) rfl _ _⟩
  · exact ⟨1, le_rfl, readChars?_escape (by decide) rfl _ _⟩
  · exact ⟨1, le_rfl, readChars?_escape (by decide) rfl _ _⟩
  · exact ⟨1, le_rfl, readChars?_unit (by decide) _ _⟩
  · exact ⟨1, le_rfl, readChars?_unit (by decide) _ _⟩
  · exact ⟨1, le_rfl, readChars?_unit (by decide) _ _⟩
  next _ hquote hback _ _ _ _ _ _ =>
    split_ifs with hb hf hcontrol
    · rw [← Char.ofNat_toNat c, hb]
      exact ⟨1, le_rfl, readChars?_escape (by decide) rfl _ _⟩
    · rw [← Char.ofNat_toNat c, hf]
      exact ⟨1, le_rfl, readChars?_escape (by decide) rfl _ _⟩
    · exact ⟨1, le_rfl, readChars?_unit (by omega) _ _⟩
    · -- A plain character costs no fuel: it is read in one run with those behind it.
      refine ⟨0, by omega, readChars?_plain ?_ _ _⟩
      simp only [isPlain, Bool.and_eq_true, decide_eq_true_eq]
      exact ⟨⟨by omega, hquote⟩, hback⟩

/-- A written string is read back. -/
theorem readChars?_written (cs : List Char) {fuel : Nat} (hfuel : cs.length < fuel)
    (rest : List Char) :
    readChars? fuel (cs.flatMap escapeChar ++ '"' :: rest) = some (cs, rest) := by
  induction cs generalizing fuel with
  | nil =>
    obtain ⟨fuel, rfl⟩ := Nat.exists_eq_succ_of_ne_zero (n := fuel) (by omega)
    rfl
  | cons c more ih =>
    rw [List.length_cons] at hfuel
    obtain ⟨fuel, rfl⟩ := Nat.exists_eq_add_of_le' (show 2 ≤ fuel by omega)
    obtain ⟨spent, hspent, hread⟩ :=
      readChars?_escapeChar c fuel (more.flatMap escapeChar ++ '"' :: rest)
    rw [List.flatMap_cons, List.append_assoc, hread, ih (by omega)]
    rfl

/-- Every character is written as one at least. -/
theorem length_le_flatMap_escapeChar (cs : List Char) :
    cs.length ≤ (cs.flatMap escapeChar).length := by
  induction cs with
  | nil => exact le_rfl
  | cons c more ih =>
    have hone : 1 ≤ (escapeChar c).length := by
      unfold escapeChar
      dsimp only
      split <;> [skip; skip; skip; skip; skip; skip; skip; skip; split_ifs] <;> simp
    rw [List.flatMap_cons, List.length_append, List.length_cons]
    omega

/-- The text of a string without its opening quote. -/
theorem readString?_written (s : String) (rest : List Char) :
    readString? (s.toList.flatMap escapeChar ++ '"' :: rest) = some (s, rest) := by
  have hlen := length_le_flatMap_escapeChar s.toList
  rw [readString?, readChars?_written _ (by rw [List.length_append]; omega)]
  exact congrArg (fun t => some (t, rest)) String.ofList_toList

/-! ### Values -/

/-- A value whose numbers are spelled by numerals, nested at most so deep. -/
inductive Plain : Nat → Json → Prop where
  | null {n : Nat} : Plain n .null
  | bool {n : Nat} (b : Bool) : Plain n (.bool b)
  | number {n : Nat} (m : Numeral) : Plain n (.number (String.ofList m.chars))
  | string {n : Nat} (s : String) : Plain n (.string s)
  | array {n : Nat} {items : List Json} (h : ∀ v ∈ items, Plain n v) : Plain (n + 1) (.array items)
  | object {n : Nat} {members : List (String × Json)} (h : ∀ m ∈ members, Plain n m.2) :
    Plain (n + 1) (.object members)

/-- Nesting may always be taken for deeper than it is. -/
theorem Plain.mono {n m : Nat} {v : Json} (h : Plain n v) (hle : n ≤ m) : Plain m v := by
  induction h generalizing m with
  | null => exact .null
  | bool b => exact .bool b
  | number k => exact .number k
  | string s => exact .string s
  | array _ ih =>
    obtain ⟨m, rfl⟩ := Nat.exists_eq_succ_of_ne_zero (n := m) (by omega)
    exact .array fun v hv => ih v hv (by omega)
  | object _ ih =>
    obtain ⟨m, rfl⟩ := Nat.exists_eq_succ_of_ne_zero (n := m) (by omega)
    exact .object fun x hx => ih x hx (by omega)

/-- An integer is spelled by a numeral. -/
theorem Plain.int {n : Nat} (z : Int) : Plain n (.int z) := by
  have hspelling : toString z = String.ofList (Numeral.ofNat (z < 0) z.natAbs).chars := by
    rw [Numeral.chars_ofNat, ← String.toList_inj, String.toList_ofList, Text.toList_toString_int]
    unfold Numeral.signChars
    by_cases hneg : z < 0
    · rw [if_pos hneg, if_pos (decide_eq_true hneg)]
      rfl
    · rw [if_neg hneg, if_neg (by simpa using hneg)]
      rfl
  rw [Json.int, hspelling]
  exact .number _

/-- What starts with a sign or a digit is read as a number. -/
theorem readValue?_number {c : Char} (hc : c = '-' ∨ c.isDigit = true) (fuel depth : Nat)
    (rest : List Char) :
    readValue? (fuel + 1) depth (c :: rest) =
      (readNumber? (c :: rest)).map fun (s, r) => (.number s, r) := by
  rw [readValue?]
  -- The other alternatives start with a letter, a quote or a bracket.
  all_goals
    intros
    rename_i heq
    obtain ⟨rfl, -⟩ := List.cons.inj heq
    exact absurd hc (by decide)

/-- The mark a written value starts with: no blank and no closing bracket. -/
def Opens (cs : List Char) : Prop :=
  ∃ c more, cs = c :: more ∧ isSpace c = false ∧ c ≠ ']' ∧ c ≠ '\x7d'

theorem Opens.append {cs : List Char} (h : Opens cs) (rest : List Char) : Opens (cs ++ rest) := by
  obtain ⟨c, more, rfl, hc⟩ := h
  exact ⟨c, more ++ rest, rfl, hc⟩

theorem Opens.skipSpace {cs : List Char} (h : Opens cs) : Json.skipSpace cs = cs := by
  obtain ⟨c, more, rfl, hspace, -⟩ := h
  exact List.dropWhile_cons_of_neg (by rw [hspace]; decide)

/-- A written value starts with a mark of its own. -/
theorem Plain.opens {n : Nat} {v : Json} (h : Plain n v) : Opens v.writeCompact := by
  cases h with
  | null => exact ⟨_, _, rfl, by decide, by decide, by decide⟩
  | bool b => cases b <;> exact ⟨_, _, rfl, by decide, by decide, by decide⟩
  | string s => exact ⟨_, _, rfl, by decide, by decide, by decide⟩
  | array h => exact ⟨_, _, rfl, by decide, by decide, by decide⟩
  | object h => exact ⟨_, _, rfl, by decide, by decide, by decide⟩
  | number m =>
    obtain ⟨c, more, hcons, hc⟩ := m.chars_head
    refine ⟨c, more, String.toList_ofList.trans hcons, ?_, ?_, ?_⟩
    · -- A numeral starts with a sign or a digit, which is neither a blank nor a bracket.
      by_contra hspace
      rw [Bool.not_eq_false, isSpace] at hspace
      simp only [Bool.or_eq_true, decide_eq_true_eq] at hspace
      rcases hspace with ((rfl | rfl) | rfl) | rfl <;> exact absurd hc (by decide)
    · rintro rfl
      exact absurd hc (by decide)
    · rintro rfl
      exact absurd hc (by decide)

theorem writeItems_cons_cons (v w : Json) (more : List Json) :
    writeItems (v :: w :: more) = v.writeCompact ++ ',' :: writeItems (w :: more) :=
  rfl

theorem writeMembers_cons_cons (name : String) (v : Json) (m : String × Json)
    (more : List (String × Json)) :
    writeMembers ((name, v) :: m :: more) =
      writeString name ++ ':' :: v.writeCompact ++ ',' :: writeMembers (m :: more) :=
  rfl

theorem Plain.opens_items {n : Nat} {v : Json} (h : Plain n v) (more : List Json) :
    Opens (writeItems (v :: more)) := by
  cases more with
  | nil => exact h.opens
  | cons w more => exact h.opens.append _

theorem writeMembers_quote (m : String × Json) (more : List (String × Json)) :
    ∃ r, writeMembers (m :: more) = '"' :: r := by
  cases more <;> exact ⟨_, rfl⟩

/-- An array with items. -/
theorem readValue?_array {fuel depth : Nat} (hdepth : depth < maxDepth) {cs : List Char}
    (h : Opens (skipSpace cs)) :
    readValue? (fuel + 1) depth ('[' :: cs) =
      (readItems? fuel (depth + 1) (skipSpace cs)).map fun (items, r) => (.array items, r) := by
  obtain ⟨c, more, hcons, -, hclose, -⟩ := h
  rw [readValue?, if_neg (by omega), hcons]
  split
  next heq => exact absurd (List.cons.inj heq).1 hclose
  next => rfl

/-- An object with members. -/
theorem readValue?_object {fuel depth : Nat} (hdepth : depth < maxDepth) {cs r : List Char}
    (h : skipSpace cs = '"' :: r) :
    readValue? (fuel + 1) depth ('\x7b' :: cs) =
      (readMembers? fuel (depth + 1) ('"' :: r)).map fun (ms, r) => (.object ms, r) := by
  rw [readValue?, if_neg (by omega), h]
  rfl

/-- What reading one member and the value behind it leads to. -/
theorem readMembers?_member (name : String) (cs : List Char) (fuel depth : Nat) :
    readMembers? (fuel + 1) depth (writeString name ++ ':' :: cs) = (do
      let (value, r) ← readValue? fuel depth (skipSpace cs)
      match skipSpace r with
      | '\x7d' :: r => pure ([(name, value)], r)
      | ',' :: r =>
        let (members, r) ← readMembers? fuel depth (skipSpace r)
        pure ((name, value) :: members, r)
      | _ => none) := by
  have hstring : writeString name ++ ':' :: cs =
      '"' :: (name.toList.flatMap escapeChar ++ '"' :: ':' :: cs) := by
    simp [writeString]
  rw [hstring, readMembers?, readString?_written]
  rfl

/-- A value whose written form is read back wherever values may be nested `n` deeper. -/
def ReadsBack (n : Nat) (v : Json) : Prop :=
  ∀ {fuel depth : Nat} {rest : List Char}, v.writeCompact.length ≤ fuel → depth + n ≤ maxDepth →
    Stops rest → readValue? fuel depth (v.writeCompact ++ rest) = some (v, rest)

/-- Written items are read back to the closing bracket. -/
theorem readItems?_written {n : Nat} {items : List Json} (hne : items ≠ [])
    (hplain : ∀ v ∈ items, Plain n v) (hreads : ∀ v ∈ items, ReadsBack n v) {fuel depth : Nat}
    {rest : List Char} (hfuel : (writeItems items).length + 1 ≤ fuel)
    (hdepth : depth + n ≤ maxDepth) :
    readItems? fuel depth (writeItems items ++ ']' :: rest) = some (items, rest) := by
  induction items generalizing fuel with
  | nil => exact absurd rfl hne
  | cons v more ih =>
    -- An item takes one unit of fuel, and its text is longer than that.
    obtain ⟨fuel, rfl⟩ := Nat.exists_eq_succ_of_ne_zero (n := fuel) (by omega)
    have hread : ReadsBack n v := hreads v (by simp)
    -- What follows an item is a closing bracket or a comma, and either ends a number.
    cases more with
    | nil =>
      rw [writeItems] at hfuel ⊢
      rw [readItems?, hread (by omega) hdepth (stops_cons (.inr (.inl rfl)) rest)]
      rfl
    | cons w more =>
      have hopens := (hplain w (by simp)).opens_items more
      have hmore : readItems? fuel depth (writeItems (w :: more) ++ ']' :: rest) =
          some (w :: more, rest) := by
        refine ih (by simp) (fun v hv => hplain v (by simp [hv]))
          (fun v hv => hreads v (by simp [hv])) ?_
        -- The comma pays for the step to the next item.
        rw [writeItems_cons_cons, List.length_append, List.length_cons] at hfuel
        omega
      rw [writeItems_cons_cons, List.length_append] at hfuel
      rw [writeItems_cons_cons, List.append_assoc, List.cons_append, readItems?,
        hread (by omega) hdepth (stops_cons (.inl rfl) _)]
      change (do
        let (items, r) ← readItems? fuel depth (skipSpace (writeItems (w :: more) ++ ']' :: rest))
        pure (v :: items, r)) = _
      rw [(hopens.append _).skipSpace, hmore]
      rfl

/-- Written members are read back to the closing brace. -/
theorem readMembers?_written {n : Nat} {members : List (String × Json)} (hne : members ≠ [])
    (hplain : ∀ m ∈ members, Plain n m.2) (hreads : ∀ m ∈ members, ReadsBack n m.2)
    {fuel depth : Nat} {rest : List Char} (hfuel : (writeMembers members).length + 1 ≤ fuel)
    (hdepth : depth + n ≤ maxDepth) :
    readMembers? fuel depth (writeMembers members ++ '\x7d' :: rest) = some (members, rest) := by
  induction members generalizing fuel with
  | nil => exact absurd rfl hne
  | cons m more ih =>
    obtain ⟨fuel, rfl⟩ := Nat.exists_eq_succ_of_ne_zero (n := fuel) (by omega)
    obtain ⟨name, v⟩ := m
    have hread : ReadsBack n v := hreads (name, v) (by simp)
    have hopens : Opens v.writeCompact := (hplain (name, v) (by simp)).opens
    cases more with
    | nil =>
      rw [writeMembers, List.length_append, List.length_cons] at hfuel
      rw [writeMembers, List.append_assoc, List.cons_append,
        readMembers?_member, (hopens.append _).skipSpace,
        hread (by omega) hdepth (stops_cons (.inr (.inr (.inl rfl))) rest)]
      rfl
    | cons m more =>
      rw [writeMembers_cons_cons, List.length_append, List.length_append, List.length_cons,
        List.length_cons] at hfuel
      have hmore : readMembers? fuel depth (writeMembers (m :: more) ++ '\x7d' :: rest) =
          some (m :: more, rest) :=
        ih (by simp) (fun m hm => hplain m (by simp [hm])) (fun m hm => hreads m (by simp [hm]))
          (by omega)
      -- Behind a comma stands the quote of the next name, so no blanks are skipped there.
      obtain ⟨r, hr⟩ := writeMembers_quote m more
      rw [writeMembers_cons_cons, List.append_assoc, List.append_assoc, List.cons_append,
        readMembers?_member, List.cons_append, (hopens.append _).skipSpace,
        hread (by omega) hdepth (stops_cons (.inl rfl) _)]
      rw [hr, List.cons_append] at hmore ⊢
      change (do
        let (members, r) ← readMembers? fuel depth ('"' :: (r ++ '\x7d' :: rest))
        pure ((name, v) :: members, r)) = _
      rw [hmore]
      rfl

/-- Reading a written value never starts without fuel. -/
theorem Plain.readsBack_of_succ {n : Nat} {v : Json} (h : Plain n v)
    (hread : ∀ {fuel depth : Nat} {rest : List Char}, v.writeCompact.length ≤ fuel + 1 →
      depth + n ≤ maxDepth → Stops rest →
      readValue? (fuel + 1) depth (v.writeCompact ++ rest) = some (v, rest)) : ReadsBack n v := by
  intro fuel depth rest hfuel hdepth hstops
  -- A written value has a first character, so there is fuel for one step.
  obtain ⟨c, cs, hcons, -⟩ := h.opens
  have hlen : v.writeCompact.length = cs.length + 1 := by rw [hcons, List.length_cons]
  obtain ⟨fuel, rfl⟩ := Nat.exists_eq_succ_of_ne_zero (n := fuel) (by omega)
  exact hread hfuel hdepth hstops

/-- A plain value is read back. -/
theorem Plain.readsBack {n : Nat} {v : Json} (h : Plain n v) : ReadsBack n v := by
  induction h with
  -- Values without parts are read in one step, and the others part by part.
  | null => exact Plain.null.readsBack_of_succ fun _ _ _ => rfl
  | bool b => exact (Plain.bool b).readsBack_of_succ fun _ _ _ => by cases b <;> rfl
  | string s =>
    refine (Plain.string s).readsBack_of_succ fun {fuel depth rest} _ _ _ => ?_
    change readValue? (fuel + 1) depth ('"' :: (s.toList.flatMap escapeChar ++ ['"']) ++ rest) = _
    rw [List.cons_append, readValue?, List.append_assoc, List.singleton_append,
      readString?_written]
    rfl
  | number m =>
    refine (Plain.number m).readsBack_of_succ fun {fuel depth rest} _ _ hstops => ?_
    obtain ⟨c, more, hchars, hc⟩ := m.chars_head
    rw [writeCompact, String.toList_ofList, hchars, List.cons_append, readValue?_number hc,
      ← List.cons_append, ← hchars, readNumber?_numeral m hstops]
    rfl
  | @array n items h ih =>
    -- The empty array has an alternative of its own in the reader.
    refine (Plain.array h).readsBack_of_succ fun {fuel depth rest} hfuel hdepth _ => ?_
    cases items with
    | nil =>
      change readValue? (fuel + 1) depth ('[' :: ']' :: rest) = _
      rw [readValue?, if_neg (by omega)]
      rfl
    | cons v more =>
      have hopens := ((h v (by simp)).opens_items more).append (']' :: rest)
      have hskip := hopens.skipSpace
      rw [writeCompact, List.length_append, List.length_cons, List.length_singleton] at hfuel
      rw [writeCompact, List.append_assoc, List.cons_append, List.singleton_append,
        readValue?_array (by omega) (by rwa [hskip]), hskip,
        readItems?_written (by simp) h ih (by omega) (by omega)]
      rfl
  | @object n members h ih =>
    refine (Plain.object h).readsBack_of_succ fun {fuel depth rest} hfuel hdepth _ => ?_
    cases members with
    | nil =>
      change readValue? (fuel + 1) depth ('\x7b' :: '\x7d' :: rest) = _
      rw [readValue?, if_neg (by omega)]
      rfl
    | cons m more =>
      rw [writeCompact, List.length_append, List.length_cons, List.length_singleton] at hfuel
      have hmembers : readMembers? fuel (depth + 1) (writeMembers (m :: more) ++ '\x7d' :: rest) =
          some (m :: more, rest) :=
        readMembers?_written (by simp) h ih (by omega) (by omega)
      -- The first member starts with a quote, which is how the reader tells it from an empty
      -- object.
      obtain ⟨r, hr⟩ := writeMembers_quote m more
      rw [hr, List.cons_append] at hmembers
      rw [writeCompact, List.append_assoc, List.cons_append, List.singleton_append, hr,
        List.cons_append, readValue?_object (by omega) rfl, hmembers]
      rfl

/-- The compact form of a value is read as that value, with blanks behind it. -/
theorem readWhole?_append {v : Json} (h : Plain maxDepth v) {rest : List Char} (hstops : Stops rest)
    (hblank : skipSpace rest = []) : readWhole? (v.compact.toList ++ rest) = some v := by
  have hread : readValue? ((v.writeCompact ++ rest).length + 1) 0 (v.writeCompact ++ rest) =
      some (v, rest) :=
    h.readsBack (by rw [List.length_append]; omega) (by omega) hstops
  rw [readWhole?, readFirst?, compact, String.toList_ofList, (h.opens.append rest).skipSpace, hread]
  dsimp only
  rw [hblank]
  rfl

/-- **The compact form of a value is read as that value.** -/
theorem readWhole?_compact {v : Json} (h : Plain maxDepth v) :
    readWhole? v.compact.toList = some v := by
  rw [← List.append_nil v.compact.toList]
  exact readWhole?_append h stops_nil rfl

/-- The compact form of a value on a line of its own. -/
theorem readWhole?_line {v : Json} (h : Plain maxDepth v) :
    readWhole? (v.compact ++ "\n").toList = some v := by
  rw [String.toList_append]
  exact readWhole?_append h (stops_cons (.inr (.inr (.inr rfl))) []) rfl

end EngineHost.Json
