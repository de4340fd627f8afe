import EngineHost.Proofs.TextPieces
import EngineHost.Storage.Tree

/-!
# Walking paths

A path is walked part by part (`Tree.walk`), and each part leads from a directory to itself, to the
directory above it or to one of its entries (`Tree.enter_cases`). `Path.clean` shortens a path
without looking at any file. Where the path as it is written leads somewhere, the shortened one
leads there too (`Tree.walk_clean`): two dots take back the part before them, and going down to an
entry and up again ends where it began.

So the directory that is read off a path by its text, `Path.dir`, is the one that the path is walked
through to its last part (`Tree.walk_dir`). It is no longer than the path, and has no character that
the path has not, so there is nothing to refuse in it that was not refused in the path
(`Tree.Walkable.dir`).
-/

namespace EngineHost

/-! ### Walks -/

namespace Tree

variable {t : Tree} {start here there : Place} {part : String} {parts : List String}

/-- Goes from a place through parts of a path. -/
def walk (t : Tree) (start : Place) (parts : List String) : Except PathFault Place :=
  parts.foldlM t.enter start

/-- A part that names an entry of a directory. -/
def IsName (part : String) : Prop :=
  ¬(part = "" ∨ part = ".") ∧ part ≠ ".."

@[simp] theorem walk_nil (t : Tree) (start : Place) : t.walk start [] = .ok start := rfl

/-- A walk takes its first part first. -/
theorem walk_cons (t : Tree) (start : Place) (part : String) (parts : List String) :
    t.walk start (part :: parts) = t.enter start part >>= fun there => t.walk there parts :=
  List.foldlM_cons

/-- A walk can be made in two pieces. -/
theorem walk_append (t : Tree) (start : Place) (before after : List String) :
    t.walk start (before ++ after) = t.walk start before >>= fun there => t.walk there after :=
  List.foldlM_append

theorem walk_cons_ok : t.walk start (part :: parts) = .ok there ↔
    ∃ here, t.enter start part = .ok here ∧ t.walk here parts = .ok there := by
  rw [walk_cons, bind_eq_ok_iff]

theorem walk_append_ok {before after : List String} : t.walk start (before ++ after) = .ok there ↔
    ∃ here, t.walk start before = .ok here ∧ t.walk here after = .ok there := by
  rw [walk_append, bind_eq_ok_iff]

theorem walk_singleton (t : Tree) (start : Place) (part : String) :
    t.walk start [part] = t.enter start part := by
  rw [walk_cons]
  cases t.enter start part <;> rfl

/-- **Where a part leads**: only from a directory, to itself, to the directory above or to an
entry. -/
theorem enter_cases (h : t.enter here part = .ok there) : t.node? here = some .directory ∧
    ((part = "" ∨ part = ".") ∧ there = here ∨ part = ".." ∧ there = parent here ∨
      IsName part ∧ part.utf8ByteSize ≤ maxName ∧ t.node? there ≠ none ∧
        there = child here part) := by
  -- By the checks in their order; what none of them stops is an entry that is there.
  unfold enter at h
  split at h
  · cases h
  · cases h
  next hdir =>
    refine ⟨hdir, ?_⟩
    by_cases hstay : part = "" ∨ part = "."
    · rw [if_pos hstay] at h
      exact .inl ⟨hstay, (Except.ok.inj h).symm⟩
    rw [if_neg hstay] at h
    by_cases hup : part = ".."
    · rw [if_pos hup] at h
      exact .inr (.inl ⟨hup, (Except.ok.inj h).symm⟩)
    rw [if_neg hup] at h
    by_cases hlong : maxName < part.utf8ByteSize
    · rw [if_pos hlong] at h
      cases h
    rw [if_neg hlong] at h
    split at h
    next n hnode =>
      cases h
      exact .inr (.inr ⟨⟨hstay, hup⟩, by omega, by rw [hnode]; simp, rfl⟩)
    · cases h

/-- A part that says nothing leads nowhere else. -/
theorem enter_stay (hdir : t.node? here = some .directory) (hpart : part = "" ∨ part = ".") :
    t.enter here part = .ok here := by
  unfold enter
  rw [hdir]
  exact if_pos hpart

/-- Two dots lead up. -/
theorem enter_up (hdir : t.node? here = some .directory) :
    t.enter here ".." = .ok (parent here) := by
  unfold enter
  rw [hdir]
  rfl

theorem parent_child (place : Place) (name : String) : parent (child place name) = place :=
  List.dropLast_concat

/-- A walk that ends in a directory, or goes any way at all, starts in one. -/
theorem directory_of_walk (h : t.walk start parts = .ok there)
    (hthere : t.node? there = some .directory) : t.node? start = some .directory := by
  cases parts with
  | nil =>
    cases h
    exact hthere
  | cons part parts =>
    obtain ⟨here, hfirst, -⟩ := walk_cons_ok.mp h
    exact (enter_cases hfirst).1

/-! ### Cleaned paths -/

/-- What was kept so far leads here, and so does what is kept at the end, with the rest of the
way. -/
theorem walk_cleanParts {rooted : Bool} {kept : List String} (hroot : rooted = true → start = [])
    (hplain : ∀ part ∈ kept, ¬(part = "" ∨ part = "."))
    (hkept : t.walk start kept.reverse = .ok here) (hwalk : t.walk here parts = .ok there) :
    t.walk start (Path.cleanParts rooted kept parts) = .ok there := by
  -- What is kept and the place it leads to change with each part.
  induction parts generalizing kept here with
  | nil =>
    cases hwalk
    exact hkept
  | cons part parts ih =>
    obtain ⟨next, hpart, hrest⟩ := walk_cons_ok.mp hwalk
    -- A part that is kept goes on the way as it is.
    have hpush : t.walk start (part :: kept).reverse = .ok next := by
      rw [List.reverse_cons, walk_append_ok]
      exact ⟨here, hkept, (walk_singleton t here part).trans hpart⟩
    unfold Path.cleanParts
    obtain ⟨hdir, ⟨hstay, rfl⟩ | ⟨rfl, rfl⟩ | ⟨⟨hstay, hup⟩, -⟩⟩ := enter_cases hpart
    · rw [if_pos hstay]
      exact ih hplain hkept hrest
    · rw [if_neg (by decide), if_pos rfl]
      cases kept with
      | nil =>
        cases hkept
        cases rooted with
        | false => exact ih (by simp) hpush hrest
        | true =>
          -- Above the root is the root.
          obtain rfl := hroot rfl
          exact ih hplain rfl hrest
      | cons last kept =>
        dsimp only
        by_cases hlast : last = ".."
        · rw [if_pos hlast]
          exact ih (List.forall_mem_cons.mpr ⟨by decide, hplain⟩) hpush hrest
        · rw [if_neg hlast]
          -- The part that is taken back led down to an entry, and the dots lead up again.
          rw [List.reverse_cons, walk_append_ok] at hkept
          obtain ⟨before, hbefore, hlastPart⟩ := hkept
          rw [walk_singleton] at hlastPart
          rw [List.forall_mem_cons] at hplain
          obtain ⟨-, ⟨hstay, -⟩ | ⟨hup, -⟩ | ⟨-, -, -, rfl⟩⟩ := enter_cases hlastPart
          · exact absurd hstay hplain.1
          · exact absurd hup hlast
          · rw [parent_child] at hrest
            exact ih hplain.2 hbefore hrest
    · rw [if_neg hstay, if_neg hup]
      exact ih (List.forall_mem_cons.mpr ⟨hstay, hplain⟩) hpush hrest

end Tree

namespace Path

open Text

/-- What remains is some of the parts, in their order. -/
theorem cleanParts_sublist (rooted : Bool) (kept parts : List String) :
    (cleanParts rooted kept parts).Sublist (kept.reverse ++ parts) := by
  -- What is kept changes with each part.
  induction parts generalizing kept with
  | nil => exact List.sublist_append_left _ _
  | cons part parts ih =>
    have hdrop (kept : List String) :
        (kept.reverse ++ parts).Sublist (kept.reverse ++ part :: parts) :=
      (List.sublist_cons_self part parts).append_left _
    have hpush :
        (cleanParts rooted (part :: kept) parts).Sublist (kept.reverse ++ part :: parts) := by
      have hkept := ih (part :: kept)
      rwa [List.reverse_cons, List.append_assoc, List.singleton_append] at hkept
    unfold cleanParts
    split
    · exact (ih kept).trans (hdrop kept)
    · split
      · split
        · cases rooted with
          | false => exact hpush
          | true => exact (ih []).trans (hdrop [])
        · split
          · exact hpush
          · refine (ih _).trans ((hdrop _).trans ?_)
            rw [List.reverse_cons]
            exact (List.sublist_append_left _ _).append_right _
      · exact hpush

/-- No part that remains says nothing. -/
theorem cleanParts_plain {rooted : Bool} {kept : List String} (parts : List String)
    (hkept : ∀ part ∈ kept, ¬(part = "" ∨ part = ".")) :
    ∀ part ∈ cleanParts rooted kept parts, ¬(part = "" ∨ part = ".") := by
  -- Only a part that says something is ever kept.
  induction parts generalizing kept with
  | nil => exact fun part hpart => hkept part (List.mem_reverse.mp hpart)
  | cons part parts ih =>
    unfold cleanParts
    split
    · exact ih hkept
    next hstay =>
      have hpush := ih (List.forall_mem_cons.mpr ⟨hstay, hkept⟩)
      split
      · split
        · cases rooted with
          | false => exact hpush
          | true => exact ih hkept
        · split
          · exact hpush
          · exact ih (List.forall_mem_cons.mp hkept).2
      · exact hpush

/-- A path is rooted if it has an empty part in front of others. -/
theorem isRooted_iff {path : String} :
    isRooted path = true ↔ ∃ more, more ≠ [] ∧ split '/' path = "" :: more := by
  have hslash : "/".toList = ['/'] := by decide
  rw [isRooted, startsWith, hslash, split]
  -- The first character decides: a slash leaves an empty part in front.
  cases path.toList with
  | nil => simp [dropStart?, splitChars]
  | cons c cs =>
    by_cases hc : c = '/'
    · subst hc
      rw [splitChars_sep, List.map_cons, dropStart?, if_pos rfl]
      exact ⟨fun _ => ⟨_, by simpa using splitChars_ne_nil '/' cs, rfl⟩, fun _ => rfl⟩
    · obtain ⟨first, more, -, hcons⟩ := splitChars_cons hc cs
      rw [hcons, dropStart?, if_neg (Ne.symm hc)]
      simp

theorem split_rooted (rest : String) : split '/' ("/" ++ rest) = "" :: split '/' rest := by
  have hslash : "/".toList = ['/'] := by decide
  rw [split, String.toList_append, hslash, List.singleton_append, splitChars_sep]
  rfl

theorem isRooted_slash (rest : String) : isRooted ("/" ++ rest) = true :=
  isRooted_iff.mpr ⟨_, split_ne_nil '/' rest, split_rooted rest⟩

end Path

namespace Tree

open Text EngineHost.Path

variable {t : Tree} {there : Place}

/-- Where the walk of a path starts. -/
def origin (t : Tree) (path : String) : Place :=
  if isRooted path then [] else t.here

/-- **A cleaned path leads where the path leads.** -/
theorem walk_clean {path : String} (h : t.walk (t.origin path) (split '/' path) = .ok there) :
    t.walk (t.origin (clean path)) (split '/' (clean path)) = .ok there := by
  -- Even an empty path has a part, and that one is entered from a directory.
  have hstart : t.node? (t.origin path) = some .directory := by
    obtain ⟨first, more, hsplit⟩ := List.exists_cons_of_ne_nil (split_ne_nil '/' path)
    rw [hsplit, walk_cons_ok] at h
    obtain ⟨here, hfirst, -⟩ := h
    exact (enter_cases hfirst).1
  have hroot : isRooted path = true → t.origin path = [] := fun hrooted => if_pos hrooted
  have hclean := @walk_cleanParts t _ _ there _ _ [] hroot (by simp) (walk_nil t _) h
  have hplain := @cleanParts_plain (isRooted path) [] (split '/' path) (by simp)
  have hsub := cleanParts_sublist (isRooted path) [] (split '/' path)
  unfold clean
  generalize cleanParts (isRooted path) [] (split '/' path) = parts at hclean hplain hsub ⊢
  have hslash : "/" = String.ofList ['/'] := by decide
  have hfree : ∀ part ∈ parts, '/' ∉ part.toList := fun part hpart =>
    not_mem_of_mem_split (hsub.subset hpart)
  cases hrooted : isRooted path with
  | true =>
    rw [hroot hrooted] at hclean hstart
    rw [if_pos rfl, origin, if_pos (isRooted_slash _), split_rooted, walk_cons_ok]
    refine ⟨[], enter_stay hstart (.inl rfl), ?_⟩
    -- Only the slash may be left, and the part behind it is empty.
    by_cases hnone : parts = []
    · subst hnone
      cases hclean
      exact (walk_singleton t _ _).trans (enter_stay hstart (.inl rfl))
    · rw [hslash, split_join hnone hfree]
      exact hclean
  | false =>
    have horigin : t.origin path = t.here := if_neg (by rw [hrooted]; decide)
    rw [horigin] at hclean hstart
    rw [if_neg (by decide)]
    -- With nothing left the path is a dot.
    by_cases hnone : parts = []
    · subst hnone
      cases hclean
      have hdot : t.origin "." = t.here := if_neg (by decide)
      have hparts : split '/' "." = ["."] := by decide
      change t.walk (t.origin ".") (split '/' ".") = _
      rw [hdot, hparts, walk_singleton]
      exact enter_stay hstart (.inr rfl)
    · have hjoin : split '/' (join "/" parts) = parts := by rw [hslash, split_join hnone hfree]
      -- The first part says something, so there is no slash in front.
      have hlocal : isRooted (join "/" parts) = false := by
        rw [← Bool.not_eq_true, isRooted_iff, hjoin]
        rintro ⟨more, -, rfl⟩
        exact hplain "" List.mem_cons_self (.inl rfl)
      rw [if_neg (by simpa using hnone), origin, if_neg (by rw [hlocal]; decide), hjoin]
      exact hclean

end Tree

namespace Path

open Text

variable {path : String} {parts : List String}

/-- A path has a last part. -/
theorem exists_split (path : String) : ∃ before last, split '/' path = before ++ [last] := by
  obtain ⟨before, last, h⟩ :=
    (List.eq_nil_or_concat (split '/' path)).resolve_left (split_ne_nil '/' path)
  exact ⟨before, last, h.trans List.concat_eq_append⟩

/-- The directory of a path is its parts but the last, cleaned. -/
theorem dir_eq {before : List String} {last : String} (h : split '/' path = before ++ [last]) :
    ∃ text, dir path = clean text ∧ isRooted text = isRooted path ∧
      split '/' text = before ++ [""] := by
  have hslash : "/" = String.ofList ['/'] := by decide
  unfold dir
  rw [h]
  dsimp only
  rw [List.dropLast_concat]
  refine ⟨_, rfl, ?_⟩
  -- A path of one part has no directory in it; otherwise the slash behind the others stays.
  cases before with
  | nil =>
    have hlocal : isRooted path = false := by
      rw [← Bool.not_eq_true, isRooted_iff, h]
      rintro ⟨more, hmore, heq⟩
      exact hmore (List.cons.inj heq).2.symm
    rw [hlocal]
    change isRooted "" = false ∧ split '/' "" = [""]
    exact ⟨by decide, by decide⟩
  | cons first rest =>
    have hlong : ¬(first :: rest ++ [last]).length ≤ 1 := by simp
    rw [if_neg hlong]
    have hfree : ∀ part ∈ first :: rest ++ [""], '/' ∉ part.toList := by
      intro part hpart
      rcases List.mem_append.mp hpart with hbefore | hempty
      · exact not_mem_of_mem_split (h ▸ List.mem_append_left _ hbefore)
      · rw [List.mem_singleton.mp hempty]
        decide
    have hsplit : split '/' (Text.join "/" (first :: rest ++ [""])) = first :: rest ++ [""] := by
      rw [hslash, split_join (by simp) hfree]
    refine ⟨?_, hsplit⟩
    -- Either path has other parts behind the first, so it is rooted if that part is empty.
    have hfirst {path last : String} (h : split '/' path = first :: rest ++ [last]) :
        isRooted path = true ↔ first = "" := by
      rw [isRooted_iff, h]
      constructor
      · rintro ⟨more, -, heq⟩
        exact (List.cons.inj heq).1
      · rintro rfl
        exact ⟨rest ++ [last], by simp, rfl⟩
    rw [Bool.eq_iff_iff, hfirst hsplit, hfirst h]

/-- A cleaned path is no longer, but for a single dot. -/
theorem size_clean_le (path : String) : (clean path).utf8ByteSize ≤ max 1 path.utf8ByteSize := by
  have hslash : "/" = String.ofList ['/'] := by decide
  have hpath : Text.join "/" (split '/' path) = path := hslash ▸ join_split '/' path
  unfold clean
  cases hrooted : isRooted path with
  | true =>
    -- The slash in front stands for the empty part that is dropped first.
    obtain ⟨more, hmore, hsplit⟩ := isRooted_iff.mp hrooted
    have hsub : (cleanParts true [] ("" :: more)).Sublist more := by
      unfold cleanParts
      rw [if_pos (.inl rfl)]
      exact cleanParts_sublist true [] more
    have hsize := @size_join_le "/" _ _ hsub
    rw [hsplit, join_cons hmore] at hpath
    rw [if_pos rfl, hsplit, ← hpath]
    simp only [String.utf8ByteSize_append]
    omega
  | false =>
    have hsize := @size_join_le "/" _ _ (cleanParts_sublist false [] (split '/' path))
    rw [List.reverse_nil, List.nil_append, hpath] at hsize
    rw [if_neg (by decide)]
    -- A dot stands for nothing left.
    split
    · exact le_max_left _ _
    · exact hsize.trans (le_max_right _ _)

/-- A cleaned path has the characters of the path, slashes and dots. -/
theorem not_mem_clean {c : Char} (hc : c ∉ path.toList) (hslash : c ≠ '/') (hdot : c ≠ '.') :
    c ∉ (clean path).toList := by
  have hjoin : c ∉ (Text.join "/" (cleanParts (isRooted path) [] (split '/' path))).toList := by
    have hsep : c ∉ "/".toList := List.not_mem_cons_of_ne_of_not_mem hslash List.not_mem_nil
    refine not_mem_join hsep fun part hpart => ?_
    have hmem := (cleanParts_sublist _ _ _).subset hpart
    intro hchar
    have hwhole := @mem_join c (String.ofList ['/']) _ _ hmem hchar
    rw [List.reverse_nil, List.nil_append, join_split] at hwhole
    exact hc hwhole
  unfold clean
  dsimp only
  split
  · rw [String.toList_append, List.mem_append]
    rintro (h | h)
    · exact hslash (List.mem_singleton.mp h)
    · exact hjoin h
  · split
    · exact fun h => hdot (List.mem_singleton.mp h)
    · exact hjoin

/-- Something is left of every path, be it a slash or a dot. -/
theorem clean_ne_empty (path : String) : clean path ≠ "" := by
  have hplain := @cleanParts_plain (isRooted path) [] (split '/' path) (by simp)
  unfold clean
  generalize cleanParts (isRooted path) [] (split '/' path) = parts at hplain ⊢
  dsimp only
  split
  · intro h
    have hlist := congrArg String.toList h
    rw [String.toList_append] at hlist
    cases hlist
  · split
    · decide
    next hne =>
      -- The first part has a character, and it is one of the whole.
      intro h
      obtain ⟨first, more, rfl⟩ := List.exists_cons_of_ne_nil (by simpa using hne)
      have hfirst : first.toList ≠ [] := fun hnil =>
        hplain first List.mem_cons_self (.inl (String.toList_injective hnil))
      obtain ⟨c, rest, hchars⟩ := List.exists_cons_of_ne_nil hfirst
      have hmem := @mem_join c "/" (first :: more) first List.mem_cons_self
        (hchars ▸ List.mem_cons_self)
      rw [h] at hmem
      cases hmem

end Path

namespace Tree

open Text EngineHost.Path

variable {t : Tree} {path : String}

/-- A text that may be walked as a path. -/
structure Walkable (path : String) : Prop where
  ne_empty : path ≠ ""
  noNull : '\x00' ∉ path.toList
  size_le : path.utf8ByteSize ≤ maxPath

/-- A walk begins with a text that may be walked. -/
theorem begin_ok {start : Place} {parts : List String} : t.begin path = .ok (start, parts) ↔
    Walkable path ∧ start = t.origin path ∧ parts = split '/' path := by
  have hhas : hasChar '\x00' path = true ↔ '\x00' ∈ path.toList := List.contains_iff_mem
  unfold begin
  by_cases hempty : path = ""
  · rw [if_pos hempty]
    exact ⟨nofun, fun h => absurd hempty h.1.ne_empty⟩
  rw [if_neg hempty]
  by_cases hnull : '\x00' ∈ path.toList
  · rw [if_pos (hhas.mpr hnull)]
    exact ⟨nofun, fun h => absurd hnull h.1.noNull⟩
  rw [if_neg (mt hhas.mp hnull)]
  by_cases hlong : maxPath < path.utf8ByteSize
  · rw [if_pos hlong]
    exact ⟨nofun, fun h => absurd hlong (Nat.not_lt.mpr h.1.size_le)⟩
  rw [if_neg hlong, Except.ok.injEq, Prod.mk.injEq]
  constructor
  · rintro ⟨rfl, rfl⟩
    exact ⟨⟨hempty, hnull, Nat.not_lt.mp hlong⟩, rfl, rfl⟩
  · rintro ⟨-, rfl, rfl⟩
    exact ⟨rfl, rfl⟩

/-- A path leads to the place where its walk ends. -/
theorem locate_ok {place : Place} : t.locate path = .ok place ↔
    Walkable path ∧ t.walk (t.origin path) (split '/' path) = .ok place := by
  unfold locate
  rw [bind_eq_ok_iff]
  constructor
  · rintro ⟨⟨start, parts⟩, hbegin, hwalk⟩
    obtain ⟨hpath, rfl, rfl⟩ := begin_ok.mp hbegin
    exact ⟨hpath, hwalk⟩
  · rintro ⟨hpath, hwalk⟩
    exact ⟨(t.origin path, split '/' path), begin_ok.mpr ⟨hpath, rfl, rfl⟩, hwalk⟩

/-- The directory of a path may be walked if the path may. -/
theorem Walkable.dir (h : Walkable path) : Walkable (dir path) := by
  have hslash : "/" = String.ofList ['/'] := by decide
  obtain ⟨before, last, hsplit⟩ := exists_split path
  obtain ⟨text, hdir, -, htext⟩ := dir_eq hsplit
  -- Both are joined parts, which differ in the last one.
  have hpath : Text.join "/" (before ++ [last]) = path := by rw [← hsplit, hslash, join_split]
  have hjoin : Text.join "/" (before ++ [""]) = text := by rw [← htext, hslash, join_split]
  have hone : 1 ≤ maxPath := by decide
  rw [hdir]
  refine ⟨clean_ne_empty text, not_mem_clean ?_ (by decide) (by decide), ?_⟩
  · rw [← hjoin]
    refine not_mem_join (by decide) fun part hpart hchar => ?_
    rcases List.mem_append.mp hpart with hbefore | hempty
    · refine h.noNull (hpath ▸ mem_join (List.mem_append_left _ hbefore) hchar)
    · rw [List.mem_singleton.mp hempty] at hchar
      cases hchar
  · have hsize := @size_join_concat_le "/" before "" last (Nat.zero_le _)
    rw [hjoin, hpath] at hsize
    exact (size_clean_le text).trans (max_le hone (hsize.trans h.size_le))

/-- **The directory of a path** is where the walk of the path is before its last part. -/
theorem walk_dir {before : List String} {last : String} {place : Place}
    (hsplit : split '/' path = before ++ [last]) (hwalk : t.walk (t.origin path) before = .ok place)
    (hplace : t.node? place = some .directory) :
    t.walk (t.origin (dir path)) (split '/' (dir path)) = .ok place := by
  obtain ⟨text, hdir, hrooted, htext⟩ := dir_eq hsplit
  have horigin : t.origin text = t.origin path := by rw [origin, origin, hrooted]
  rw [hdir]
  refine walk_clean ?_
  rw [horigin, htext, walk_append_ok]
  exact ⟨place, hwalk, (walk_singleton t place "").trans (enter_stay hplace (.inl rfl))⟩

end Tree

end EngineHost
