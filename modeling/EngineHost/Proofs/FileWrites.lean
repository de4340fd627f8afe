import EngineHost.Proofs.NetworkSound
import EngineHost.Proofs.PathWalks
import Mathlib.Data.List.Perm.Subperm

/-!
# Writes are all or nothing

`Tree.write` makes a fresh file beside the path, fills it and moves it in place. Whichever of its
steps fails, and however far it had come, the tree is as it was; if none fails, the tree differs in
what is at the path, and there is the data (`Tree.write_all_or_nothing`).

* A name that is not in the directory is found (`Tree.node?_freshName`): there are more names to try
  than files that could have them.
* While the write is under way, the tree is the one from before with something at the fresh name
  (`Writing.takeSteps_cases`). Taking that away gives the tree from before (`Tree.remove_put`), so a
  failed write leaves no trace. What is moved is what filling has put there.
* A file in a directory that was there changes nothing at other places (`Tree.node?_put`). No
  directory comes or goes by it, so a path leads to the same directories as before
  (`Tree.walk_mono`), and reading it gives the new content.

A write that meets no other fault succeeds exactly if the path has a place for a file
(`Tree.Receives`): its parts but the last lead to a directory, and the last one is the name of an
entry that is no directory.
-/

namespace EngineHost

namespace Tree

variable {t u : Tree} {place dir q : Place} {content data : Bytes}

/-! ### One file more -/

/-- No file is kept at this place. -/
def Free (t : Tree) (place : Place) : Prop :=
  ∀ f ∈ t.files, f.1 ≠ place

/-- The way to the working directory consists of directories. -/
theorem node?_of_here (h : place <+: t.here) : t.node? place = some .directory := by
  rw [node?, if_pos (List.isPrefixOf_iff_prefix.mpr h)]

theorem node?_of_lookup (hhere : ¬place <+: t.here) (h : t.files.lookup place = some content) :
    t.node? place = some (.file content) := by
  rw [node?, if_neg (mt List.isPrefixOf_iff_prefix.mp hhere), h]

theorem node?_of_lookup_none (hhere : ¬place <+: t.here) (h : t.files.lookup place = none) :
    t.node? place =
      if t.files.any (fun f => place.isPrefixOf f.1) then some .directory else none := by
  rw [node?, if_neg (mt List.isPrefixOf_iff_prefix.mp hhere), h]

/-- Where nothing is looked up, nothing is kept. -/
theorem free_of_lookup (h : t.files.lookup place = none) : t.Free place := by
  intro f hf heq
  have hne := List.lookup_eq_none_iff.mp h f hf
  rw [heq] at hne
  simp at hne

/-- Nothing is kept where nothing is. -/
theorem free_of_node? (h : t.node? place = none) : t.Free place := by
  have hhere : ¬place <+: t.here := fun hhere => by
    rw [node?_of_here hhere] at h
    cases h
  refine free_of_lookup ?_
  cases hlookup : t.files.lookup place with
  | none => rfl
  | some content =>
    rw [node?_of_lookup hhere hlookup] at h
    cases h

/-- What is at a place is on the way to the working directory, or is a file or has files below
it. -/
theorem exists_below (h : t.node? place ≠ none) :
    place <+: t.here ∨ ∃ f ∈ t.files, place <+: f.1 := by
  by_cases hhere : place <+: t.here
  · exact .inl hhere
  refine .inr ?_
  cases hlookup : t.files.lookup place with
  | some content => exact ⟨_, mem_of_lookup hlookup, List.prefix_rfl⟩
  | none =>
    rw [node?_of_lookup_none hhere hlookup] at h
    simpa [List.isPrefixOf_iff_prefix] using h

/-- A new file comes behind the others. -/
theorem put_of_free (h : t.Free place) (content : Bytes) :
    t.put place content = { t with files := t.files ++ [(place, content)] } := by
  have hnone : ¬t.files.any (·.1 = place) = true := by
    rw [List.any_eq_true]
    rintro ⟨f, hf, heq⟩
    exact h f hf (of_decide_eq_true heq)
  rw [put, if_neg hnone]

/-- **A new file that is removed** leaves the tree as it was. -/
theorem remove_put (h : t.Free place) (content : Bytes) :
    (t.put place content).remove place = t := by
  have hkept : t.files.filter (·.1 ≠ place) = t.files :=
    List.filter_eq_self.mpr fun f hf => decide_eq_true (h f hf)
  rw [put_of_free h, remove, List.filter_append, hkept]
  simp

/-- The last content counts. -/
theorem put_put (h : t.Free place) (content data : Bytes) :
    (t.put place content).put place data = t.put place data := by
  have hthere : (t.files ++ [(place, content)]).any (·.1 = place) = true := by simp
  have hkept : (t.files.map fun f => if f.1 = place then (place, data) else f) = t.files :=
    (List.map_congr_left fun f hf => if_neg (h f hf)).trans (List.map_id _)
  rw [put_of_free h, put_of_free h, put, if_pos hthere, List.map_append, hkept]
  simp

/-- Replacing the content of a place is seen there, and only there. -/
theorem lookup_replaced (files : List (Place × Bytes)) (place q : Place) (content : Bytes) :
    (files.map fun f => if f.1 = place then (place, content) else f).lookup q =
      if q = place then (files.lookup place).map fun _ => content else files.lookup q := by
  induction files with
  | nil => simp
  | cons f more ih =>
    obtain ⟨key, old⟩ := f
    rw [List.map_cons]
    by_cases hkey : key = place
    · subst hkey
      rw [if_pos rfl, lookup_cons_same]
      by_cases hq : q = key
      · rw [hq, lookup_cons_same, if_pos rfl, Option.map_some]
      · rw [lookup_cons_ne hq, lookup_cons_ne hq, ih, if_neg hq, if_neg hq]
    · rw [if_neg hkey, lookup_cons_ne (Ne.symm hkey)]
      by_cases hq : q = key
      · rw [hq, lookup_cons_same, lookup_cons_same, if_neg hkey]
      · rw [lookup_cons_ne hq, lookup_cons_ne hq, ih]

/-- What is kept after a put. -/
theorem lookup_put (t : Tree) (place : Place) (content : Bytes) (q : Place) :
    (t.put place content).files.lookup q =
      if q = place then some content else t.files.lookup q := by
  -- A place that is taken is replaced, and any other is added.
  cases hlookup : t.files.lookup place with
  | none =>
    rw [put_of_free (free_of_lookup hlookup), List.lookup_append]
    by_cases hq : q = place
    · rw [if_pos hq, hq, hlookup, lookup_cons_same, Option.none_or]
    · rw [if_neg hq, lookup_cons_ne hq, List.lookup_nil, Option.or_none]
  | some old =>
    have hthere : t.files.any (·.1 = place) = true :=
      List.any_eq_true.mpr ⟨_, mem_of_lookup hlookup, decide_eq_true rfl⟩
    rw [put, if_pos hthere, lookup_replaced, hlookup, Option.map_some]

theorem here_put (t : Tree) (place : Place) (content : Bytes) :
    (t.put place content).here = t.here := by
  unfold put
  split <;> rfl

/-- A put adds its own place to those at which something is kept. -/
theorem mem_keys_put {t : Tree} {place : Place} {content : Bytes} {q : Place} :
    q ∈ (t.put place content).files.map (·.1) ↔ q = place ∨ q ∈ t.files.map (·.1) := by
  cases hlookup : t.files.lookup place with
  | none =>
    rw [put_of_free (free_of_lookup hlookup), List.map_append, List.mem_append, or_comm]
    simp
  | some old =>
    have hmem := mem_of_lookup hlookup
    have hthere : t.files.any (·.1 = place) = true :=
      List.any_eq_true.mpr ⟨_, hmem, decide_eq_true rfl⟩
    have hkeys : (t.files.map fun f => if f.1 = place then (place, content) else f).map (·.1) =
        t.files.map (·.1) := by
      rw [List.map_map]
      refine List.map_congr_left fun f _ => ?_
      by_cases hf : f.1 = place
      · rw [Function.comp_apply, if_pos hf, hf]
      · rw [Function.comp_apply, if_neg hf]
    rw [put, if_pos hthere, hkeys]
    refine ⟨.inr, ?_⟩
    rintro (rfl | h)
    · exact List.mem_map_of_mem hmem
    · exact h

/-- The directories above a file in a directory that is there were there before. -/
theorem isDirectory_put {name : String} (hdir : t.node? dir = some .directory)
    (hq : q ≠ child dir name) (hhere : ¬q <+: t.here) :
    (t.put (child dir name) content).files.any (fun f => q.isPrefixOf f.1) =
      t.files.any (fun f => q.isPrefixOf f.1) := by
  -- Only the places matter here, not what is kept at them.
  have hany (u : Tree) : u.files.any (fun f => q.isPrefixOf f.1) = true ↔
      ∃ k ∈ u.files.map (·.1), q <+: k := by
    simp [List.isPrefixOf_iff_prefix]
  rw [Bool.eq_iff_iff, hany, hany]
  constructor
  · rintro ⟨k, hk, hprefix⟩
    rcases mem_keys_put.mp hk with rfl | hk
    · -- A shorter beginning of the new place is a beginning of the directory.
      have habove : q <+: dir := (List.prefix_concat_iff.mp hprefix).resolve_left hq
      rcases exists_below (by rw [hdir]; simp : t.node? dir ≠ none) with hway | ⟨f, hf, hbelow⟩
      · exact absurd (habove.trans hway) hhere
      · exact ⟨f.1, List.mem_map_of_mem hf, habove.trans hbelow⟩
    · exact ⟨k, hk, hprefix⟩
  · rintro ⟨k, hk, hprefix⟩
    exact ⟨k, mem_keys_put.mpr (.inr hk), hprefix⟩

/-- **A file in a directory that is there**, in place of no directory, changes nothing at other
places. -/
theorem node?_put {name : String} (hdir : t.node? dir = some .directory)
    (hentry : t.node? (child dir name) ≠ some .directory) (content : Bytes) (q : Place) :
    (t.put (child dir name) content).node? q =
      if q = child dir name then some (.file content) else t.node? q := by
  -- The working directory hides the files, so the places on the way to it come first.
  have hlookup := lookup_put t (child dir name) content q
  have hway := here_put t (child dir name) content
  by_cases hq : q = child dir name
  · have hoff : ¬q <+: t.here := fun h => hentry (hq ▸ node?_of_here h)
    rw [if_pos hq] at hlookup ⊢
    exact node?_of_lookup (by rwa [hway]) hlookup
  · rw [if_neg hq] at hlookup ⊢
    by_cases hhere : q <+: t.here
    · rw [node?_of_here hhere, node?_of_here (by rwa [hway])]
    have hhere' : ¬q <+: (t.put (child dir name) content).here := by rwa [hway]
    cases hbefore : t.files.lookup q with
    | some old =>
      rw [node?_of_lookup hhere hbefore, node?_of_lookup hhere' (hlookup.trans hbefore)]
    | none =>
      rw [node?_of_lookup_none hhere hbefore, node?_of_lookup_none hhere' (hlookup.trans hbefore),
        isDirectory_put hdir hq hhere]

/-! ### Fresh names -/

/-- The names that are tried. -/
def tried (n : Nat) : String :=
  ".blob-" ++ toString n

/-- Different numbers give different names. -/
theorem tried_injective : Function.Injective tried := by
  intro m n h
  have hlist := congrArg String.toList h
  rw [tried, tried, String.toList_append, String.toList_append] at hlist
  have hdigits : Nat.toDigits 10 m = Nat.toDigits 10 n := by
    have hrepr : (Nat.repr m).toList = (Nat.repr n).toList := List.append_cancel_left hlist
    rwa [Nat.toList_repr, Nat.toList_repr] at hrepr
  rw [← Nat.ofDigitChars_ten_toDigits (n := m), hdigits, Nat.ofDigitChars_ten_toDigits]

theorem freshName_succ (t : Tree) (place : Place) (fuel n : Nat) :
    t.freshName place (fuel + 1) n =
    if (t.node? (child place (tried n))).isNone then tried n else t.freshName place fuel (n + 1) :=
  rfl

/-- A search among some numbers finds a name that is not taken, or all of them are. -/
theorem freshName_cases (t : Tree) (place : Place) (fuel n : Nat) :
    t.node? (child place (t.freshName place fuel n)) = none ∨
      ∀ i < fuel, t.node? (child place (tried (n + i))) ≠ none := by
  -- The invariant: the numbers before the next one have been tried in vain.
  induction fuel generalizing n with
  | zero => exact .inr fun i hi => absurd hi (Nat.not_lt_zero i)
  | succ fuel ih =>
    rw [freshName_succ]
    by_cases hfree : (t.node? (child place (tried n))).isNone = true
    · left
      rw [if_pos hfree]
      exact Option.isNone_iff_eq_none.mp hfree
    · rw [if_neg hfree]
      refine (ih (n + 1)).imp id fun htaken i hi => ?_
      cases i with
      | zero => exact fun hnone => hfree (Option.isNone_iff_eq_none.mpr hnone)
      | succ i =>
        have hnext := htaken i (by omega)
        rwa [Nat.add_right_comm] at hnext

/-- **A fresh name is found**: more names are tried than there are places to have them. -/
theorem node?_freshName (t : Tree) (dir : Place) :
    t.node? (child dir (t.freshName dir (t.files.length + 2) 0)) = none := by
  refine (freshName_cases t dir (t.files.length + 2) 0).resolve_right fun htaken => ?_
  -- The part behind the directory tells which of the names a file has, or the working directory.
  have hnames : (List.range (t.files.length + 2)).map (fun i => some (tried i)) ⊆
      (t.here :: t.files.map (·.1)).map fun place => place[dir.length]? := by
    intro name hname
    obtain ⟨i, hi, rfl⟩ := List.mem_map.mp hname
    have hsome := htaken i (List.mem_range.mp hi)
    rw [Nat.zero_add] at hsome
    obtain ⟨place, hplace, rest, hrest⟩ :
        ∃ place ∈ t.here :: t.files.map (·.1), child dir (tried i) <+: place := by
      rcases exists_below hsome with hhere | ⟨f, hf, hbelow⟩
      · exact ⟨t.here, List.mem_cons_self, hhere⟩
      · exact ⟨f.1, List.mem_cons_of_mem _ (List.mem_map_of_mem hf), hbelow⟩
    refine List.mem_map.mpr ⟨place, hplace, ?_⟩
    rw [← hrest, child, List.append_assoc, List.getElem?_append_right le_rfl, Nat.sub_self]
    rfl
  -- Different names need different places, and there are not enough of them.
  have hnodup : ((List.range (t.files.length + 2)).map fun i => some (tried i)).Nodup :=
    List.nodup_range.map fun i j h => tried_injective (Option.some.inj h)
  have hlength := (List.subperm_of_subset hnodup hnames).length_le
  rw [List.length_map, List.length_map, List.length_range, List.length_cons,
    List.length_map] at hlength
  omega

/-! ### Where a path leads -/

open Text EngineHost.Path

variable {start here there : Place} {part name path : String} {parts before : List String}

/-- A name leads to its entry, if there is one. -/
theorem enter_child (hdir : t.node? dir = some .directory) (hname : IsName name)
    (hshort : name.utf8ByteSize ≤ maxName) :
    t.enter dir name =
      if t.node? (child dir name) = none then .error .missing else .ok (child dir name) := by
  unfold enter
  rw [hdir]
  dsimp only
  rw [if_neg hname.1, if_neg hname.2, if_neg (Nat.not_lt.mpr hshort)]
  cases t.node? (child dir name) <;> rfl

/-- A part that leads from directory to directory does so in every tree that has these
directories. -/
theorem enter_mono (hdirs : ∀ q, t.node? q = some .directory → u.node? q = some .directory)
    (h : t.enter here part = .ok there) (hthere : t.node? there = some .directory) :
    u.enter here part = .ok there := by
  obtain ⟨hhere, ⟨hstay, rfl⟩ | ⟨rfl, rfl⟩ | ⟨hname, hshort, -, rfl⟩⟩ := enter_cases h
  · exact enter_stay (hdirs _ hhere) hstay
  · exact enter_up (hdirs _ hhere)
  · rw [enter_child (hdirs _ hhere) hname hshort, hdirs _ hthere]
    rfl

/-- **A walk to a directory** is the same in every tree that has the directories of this one. -/
theorem walk_mono (hdirs : ∀ q, t.node? q = some .directory → u.node? q = some .directory)
    (h : t.walk start parts = .ok there) (hthere : t.node? there = some .directory) :
    u.walk start parts = .ok there := by
  -- Every directory on the way is one in the other tree, too, and the walk only asks for these.
  induction parts generalizing start with
  | nil => exact h
  | cons part parts ih =>
    obtain ⟨here, hpart, hrest⟩ := walk_cons_ok.mp h
    have hhere := directory_of_walk hrest hthere
    exact walk_cons_ok.mpr ⟨here, enter_mono hdirs hpart hhere, ih hrest⟩

/-- What a walk reaches: something that is there, below nothing but directories. -/
structure Reached (t : Tree) (place : Place) : Prop where
  node_ne : t.node? place ≠ none
  above : ∀ q, q <+: place → q ≠ place → t.node? q = some .directory

/-- Walks start at the root or at the working directory, which are there. -/
theorem reached_origin (t : Tree) (path : String) : t.Reached (t.origin path) := by
  have horigin : t.origin path <+: t.here := by
    unfold origin
    split
    · exact List.nil_prefix
    · exact List.prefix_rfl
  exact ⟨by rw [node?_of_here horigin]; simp, fun q hq _ => node?_of_here (hq.trans horigin)⟩

/-- The directory above what is reached is one, and above the root is the root. -/
theorem Reached.parent (h : t.Reached place) : t.node? (parent place) = some .directory := by
  by_cases hroot : place = []
  · rw [hroot]
    exact node?_of_here List.nil_prefix
  · refine h.above _ (List.dropLast_prefix _) fun heq => ?_
    have hlength := congrArg List.length heq
    have hpos := List.length_pos_iff.mpr hroot
    rw [Tree.parent, List.length_dropLast] at hlength
    omega

/-- **One part** of a path leads from what is reached to what is reached. -/
theorem Reached.enter (h : t.Reached here) (henter : t.enter here part = .ok there) :
    t.Reached there := by
  obtain ⟨hhere, ⟨-, rfl⟩ | ⟨-, rfl⟩ | ⟨-, -, hthere, rfl⟩⟩ := enter_cases henter
  · exact h
  · refine ⟨by rw [h.parent]; simp, fun q hq hne => ?_⟩
    refine h.above q (hq.trans (List.dropLast_prefix _)) ?_
    rintro rfl
    -- What begins the place above is no longer than it, so it is the place above.
    exact hne (hq.eq_of_length_le (by rw [Tree.parent, List.length_dropLast]; omega))
  · refine ⟨hthere, fun q hq hne => ?_⟩
    by_cases hdir : q = here
    · exact hdir ▸ hhere
    · exact h.above q ((List.prefix_concat_iff.mp hq).resolve_left hne) hdir

/-- **All parts** of a path do. -/
theorem Reached.walk (h : t.Reached start) (hwalk : t.walk start parts = .ok there) :
    t.Reached there := by
  induction parts generalizing start with
  | nil =>
    cases hwalk
    exact h
  | cons part parts ih =>
    obtain ⟨here, hpart, hrest⟩ := walk_cons_ok.mp hwalk
    exact ih (h.enter hpart) hrest

/-- **A place for a file**: a path may be walked, its parts but the last lead to a directory, and
the last one is the name of an entry of it that is no directory. -/
structure Receives (t : Tree) (path : String) (dir : Place) (name : String) : Prop where
  walkable : Walkable path
  leads : ∃ before, split '/' path = before ++ [name] ∧ t.walk (t.origin path) before = .ok dir
  directory : t.node? dir = some .directory
  isName : IsName name
  size_le : name.utf8ByteSize ≤ maxName
  entry : t.node? (child dir name) ≠ some .directory

/-- A part that leads nowhere, from a place that is there, is the name of an entry that is not. -/
theorem enter_missing (hplace : t.node? place ≠ none) (h : t.enter place name = .error .missing) :
    t.node? place = some .directory ∧ IsName name ∧ name.utf8ByteSize ≤ maxName ∧
      t.node? (child place name) ≠ some .directory := by
  -- Of the ways to fail, only an entry that is not there is called missing.
  unfold enter at h
  split at h
  next hnone => exact absurd hnone hplace
  · cases h
  next hdir =>
    by_cases hstay : name = "" ∨ name = "."
    · rw [if_pos hstay] at h
      cases h
    by_cases hup : name = ".."
    · rw [if_neg hstay, if_pos hup] at h
      cases h
    by_cases hlong : maxName < name.utf8ByteSize
    · rw [if_neg hstay, if_neg hup, if_pos hlong] at h
      cases h
    rw [if_neg hstay, if_neg hup, if_neg hlong] at h
    split at h
    · cases h
    next hnone => exact ⟨hdir, ⟨hstay, hup⟩, Nat.not_lt.mp hlong, by rw [hnone]; simp⟩

/-- A move lands on the entry of its name, which is a file or nothing. -/
theorem landing_ok (hdir : t.Reached dir) : t.landing dir name = .ok place ↔
    place = child dir name ∧ t.node? dir = some .directory ∧ IsName name ∧
      name.utf8ByteSize ≤ maxName ∧ t.node? (child dir name) ≠ some .directory := by
  constructor
  · intro h
    unfold landing at h
    split at h
    next there henter =>
      split at h
      · cases h
      next hfile =>
        cases h
        -- Staying and going up lead to directories, where no file can be put.
        obtain ⟨hnode, ⟨-, rfl⟩ | ⟨-, rfl⟩ | ⟨hname, hshort, -, rfl⟩⟩ := enter_cases henter
        · exact absurd hnode hfile
        · exact absurd hdir.parent hfile
        · exact ⟨rfl, hnode, hname, hshort, hfile⟩
    next henter =>
      cases h
      exact ⟨rfl, enter_missing hdir.node_ne henter⟩
    · cases h
  · rintro ⟨rfl, hnode, hname, hshort, hentry⟩
    unfold landing
    rw [enter_child hnode hname hshort]
    by_cases hnone : t.node? (child dir name) = none
    · rw [if_pos hnone]
    · rw [if_neg hnone]
      exact if_neg hentry

/-- **A move has a target** exactly where a path has a place for a file. -/
theorem target_ok : t.target path = .ok place ↔
    ∃ dir name, place = child dir name ∧ t.Receives path dir name := by
  obtain ⟨before, last, hsplit⟩ := exists_split path
  have hlast : (before ++ [last]).getLastD "" = last := by simp
  unfold target
  rw [bind_eq_ok_iff]
  constructor
  · rintro ⟨⟨start, pieces⟩, hbegin, h⟩
    obtain ⟨hpath, rfl, rfl⟩ := begin_ok.mp hbegin
    obtain ⟨dir, hwalk, h⟩ := bind_eq_ok_iff.mp h
    rw [hsplit, List.dropLast_concat] at hwalk
    rw [hsplit, hlast] at h
    obtain ⟨rfl, hdir, hname, hshort, hentry⟩ :=
      (landing_ok ((reached_origin t path).walk hwalk)).mp h
    exact ⟨dir, last, rfl, hpath, ⟨before, hsplit, hwalk⟩, hdir, hname, hshort, hentry⟩
  · rintro ⟨dir, name, rfl, hpath, ⟨before', hsplit', hwalk⟩, hdir, hname, hshort, hentry⟩
    obtain ⟨rfl, hlasts⟩ := List.append_inj' (hsplit'.symm.trans hsplit) rfl
    obtain rfl : name = last := List.singleton_inj.mp hlasts
    refine ⟨(t.origin path, split '/' path), begin_ok.mpr ⟨hpath, rfl, rfl⟩, ?_⟩
    refine bind_eq_ok_iff.mpr ⟨dir, ?_, ?_⟩
    · rw [hsplit, List.dropLast_concat]
      exact hwalk
    · rw [hsplit, hlast]
      exact (landing_ok ((reached_origin t path).walk hwalk)).mpr
        ⟨rfl, hdir, hname, hshort, hentry⟩

/-- A place for a file is one in every tree with the same directories. -/
theorem Receives.congr (hhere : u.here = t.here)
    (hdirs : ∀ q, t.node? q = some .directory ↔ u.node? q = some .directory)
    (h : t.Receives path dir name) : u.Receives path dir name := by
  obtain ⟨before, hsplit, hwalk⟩ := h.leads
  have horigin : u.origin path = t.origin path := by rw [origin, origin, hhere]
  refine ⟨h.walkable, ⟨before, hsplit, ?_⟩, (hdirs _).mp h.directory, h.isName, h.size_le,
    mt (hdirs _).mpr h.entry⟩
  rw [horigin]
  exact walk_mono (fun q => (hdirs q).mp) hwalk h.directory

/-- A file in place of no directory leaves the directories as they are. -/
theorem directories_put (hdir : t.node? dir = some .directory)
    (hentry : t.node? (child dir name) ≠ some .directory) (content : Bytes) (q : Place) :
    (t.put (child dir name) content).node? q = some .directory ↔ t.node? q = some .directory := by
  rw [node?_put hdir hentry]
  split
  next heq =>
    subst heq
    exact ⟨nofun, fun h => absurd h hentry⟩
  next => exact Iff.rfl

/-- The target of a move does not depend on the fresh file. -/
theorem target_put (hdir : t.node? dir = some .directory)
    (hentry : t.node? (child dir name) ≠ some .directory) (content : Bytes) :
    (t.put (child dir name) content).target path = .ok place ↔ t.target path = .ok place := by
  have hdirs := directories_put hdir hentry content
  have hhere := here_put t (child dir name) content
  rw [target_ok, target_ok]
  constructor
  · rintro ⟨dir', name', rfl, h⟩
    exact ⟨dir', name', rfl, h.congr hhere.symm hdirs⟩
  · rintro ⟨dir', name', rfl, h⟩
    exact ⟨dir', name', rfl, h.congr hhere fun q => (hdirs q).symm⟩

/-- The directory in which the fresh file is made is the one that the path leads to. -/
theorem Receives.locate_dir (h : t.Receives path dir name) :
    t.locate (Path.dir path) = .ok dir := by
  obtain ⟨before, hsplit, hwalk⟩ := h.leads
  exact locate_ok.mpr ⟨h.walkable.dir, walk_dir hsplit hwalk h.directory⟩

/-- What was put where a path leads is found there. -/
theorem Receives.locate_put (h : t.Receives path dir name) (content : Bytes) :
    (t.put (child dir name) content).locate path = .ok (child dir name) := by
  have hdirs := directories_put h.directory h.entry content
  obtain ⟨before, hsplit, hwalk⟩ := h.leads
  have horigin : (t.put (child dir name) content).origin path = t.origin path := by
    rw [origin, origin, here_put]
  refine locate_ok.mpr ⟨h.walkable, ?_⟩
  rw [hsplit, walk_append_ok, horigin]
  refine ⟨dir, walk_mono (fun q => (hdirs q).mpr) hwalk h.directory, ?_⟩
  rw [walk_singleton, enter_child ((hdirs _).mpr h.directory) h.isName h.size_le,
    node?_put h.directory h.entry, if_pos rfl]
  rfl

/-- A file is read where its path leads. -/
theorem read_of_locate (hlocate : t.locate path = .ok place)
    (hfile : t.node? place = some (.file content)) : t.read path = .ok content := by
  have hfind : t.find path = .ok (.file content) := by
    unfold find
    rw [hlocate, ok_bind, hfile]
    rfl
  unfold read openFile
  rw [hfind]
  rfl

end Tree

/-! ### The steps of a write -/

namespace Writing

open EngineHost.Tree

variable {t u v : Tree} {w : Writing} {fault : WriteFault} {step : WriteStep}
  {more : List WriteStep} {f : Failure}

/-- What the fresh file holds after a step, if it held `old` before. -/
def holds (w : Writing) (old : Bytes) : WriteStep → Bytes
  | .create => []
  | .fill => w.data
  | .close => old
  | .allow => old
  | .move => old

/-- A step that fails for other reasons ends the write. -/
theorem takeSteps_failed (h : fault.failure step = some f) : w.takeSteps fault (step :: more) u =
    (.error (.within step.text f), w.interrupted fault u step) := by
  rw [takeSteps, h]

/-- A step that the tree refuses ends the write as well. -/
theorem takeSteps_refused (h : fault.failure step = none) (hact : w.act u step = .error f) :
    w.takeSteps fault (step :: more) u = (.error (.within step.text f), u) := by
  rw [takeSteps, h]
  dsimp only
  rw [hact]

/-- A step that is done hands on to the next. -/
theorem takeSteps_acted (h : fault.failure step = none) (hact : w.act u step = .ok v) :
    w.takeSteps fault (step :: more) u = w.takeSteps fault more v := by
  rw [takeSteps, h]
  dsimp only
  rw [hact]

/-- **A step but the last** changes what the fresh file holds, and nothing else. -/
theorem act_put (hfree : t.Free w.temp) (hstep : step ≠ .move) (old : Bytes) :
    w.act (t.put w.temp old) step = .ok (t.put w.temp (w.holds old step)) := by
  cases step with
  | create => exact congrArg Except.ok (put_put hfree old [])
  | fill => exact congrArg Except.ok (put_put hfree old w.data)
  | close => rfl
  | allow => rfl
  | move => exact absurd rfl hstep

/-- A step that fails leaves the fresh file there, with something in it. -/
theorem interrupted_put (hfree : t.Free w.temp) (fault : WriteFault) (old : Bytes)
    (step : WriteStep) :
    ∃ left, w.interrupted fault (t.put w.temp old) step = t.put w.temp left := by
  cases step with
  | fill => exact ⟨_, put_put hfree old _⟩
  | create => exact ⟨old, rfl⟩
  | close => exact ⟨old, rfl⟩
  | allow => exact ⟨old, rfl⟩
  | move => exact ⟨old, rfl⟩

/-- **The last step** puts what the fresh file holds where the path leads. -/
theorem act_move {old : Bytes} {place : Place} (hfree : t.Free w.temp)
    (htarget : (t.put w.temp old).target w.path = .ok place) :
    w.act (t.put w.temp old) .move = .ok (t.put place old) := by
  have hlookup := lookup_put t w.temp old w.temp
  rw [if_pos rfl] at hlookup
  rw [act, htarget]
  dsimp only
  rw [moveFile, hlookup]
  dsimp only
  rw [remove_put hfree]

/-- No step fails for other reasons, and the path has a place for a file. -/
def Clear (w : Writing) (fault : WriteFault) (steps : List WriteStep) (t : Tree) : Prop :=
  (∀ step ∈ steps, fault.failure step = none) ∧ ∃ place, t.target w.path = .ok place

/-- **The steps up to the move** either end with the data of the fresh file in place, or leave the
fresh file behind. -/
theorem takeSteps_cases (fault : WriteFault) (steps : List WriteStep) (hfree : t.Free w.temp)
    (hsteps : .move ∉ steps) (old : Bytes) :
    (∃ place, (t.put w.temp (steps.foldl w.holds old)).target w.path = .ok place ∧
      (∀ step ∈ steps ++ [.move], fault.failure step = none) ∧
      w.takeSteps fault (steps ++ [.move]) (t.put w.temp old) =
        (.ok (), t.put place (steps.foldl w.holds old))) ∨
    ¬w.Clear fault (steps ++ [.move]) (t.put w.temp (steps.foldl w.holds old)) ∧
      ∃ f left, w.takeSteps fault (steps ++ [.move]) (t.put w.temp old) =
        (.error f, t.put w.temp left) := by
  -- The induction is on the steps before the move, with the fresh file holding anything so far.
  induction steps generalizing old with
  | nil =>
    rw [List.nil_append, List.foldl_nil]
    cases hfailure : fault.failure .move with
    | some f =>
      refine .inr ⟨fun h => ?_, _, old, takeSteps_failed hfailure⟩
      rw [h.1 .move List.mem_cons_self] at hfailure
      cases hfailure
    | none =>
      cases htarget : (t.put w.temp old).target w.path with
      | error f =>
        have hact : w.act (t.put w.temp old) .move =
            .error (f.toFailure ("rename " ++ w.tempPath ++ " " ++ w.path)) := by
          rw [act, htarget]
        refine .inr ⟨?_, _, old, takeSteps_refused hfailure hact⟩
        rintro ⟨-, place, hplace⟩
        rw [htarget] at hplace
        cases hplace
      | ok place =>
        refine .inl ⟨place, rfl, ?_, takeSteps_acted hfailure (act_move hfree htarget)⟩
        exact fun step hstep => List.mem_singleton.mp hstep ▸ hfailure
  | cons step steps ih =>
    rw [List.mem_cons, not_or] at hsteps
    rw [List.cons_append, List.foldl_cons]
    cases hfailure : fault.failure step with
    | some f =>
      obtain ⟨left, hleft⟩ := interrupted_put hfree fault old step
      refine .inr ⟨fun h => ?_, _, left, hleft ▸ takeSteps_failed hfailure⟩
      rw [h.1 step List.mem_cons_self] at hfailure
      cases hfailure
    | none =>
      rw [takeSteps_acted hfailure (act_put hfree (Ne.symm hsteps.1) old)]
      rcases ih hsteps.2 (w.holds old step) with ⟨place, htarget, hnone, hdone⟩ | ⟨hclear, hleft⟩
      · exact .inl ⟨place, htarget, List.forall_mem_cons.mpr ⟨hfailure, hnone⟩, hdone⟩
      · exact .inr ⟨fun h => hclear ⟨(List.forall_mem_cons.mp h.1).2, h.2⟩, hleft⟩

/-- **A run** either ends with the data in place, or leaves the tree as it was. -/
theorem run_cases (hfree : t.Free w.temp) :
    (∃ place, (t.put w.temp w.data).target w.path = .ok place ∧
      (∀ step, fault.failure step = none) ∧ w.run fault t = (.ok (), t.put place w.data)) ∨
    (¬((∀ step, fault.failure step = none) ∧
        ∃ place, (t.put w.temp w.data).target w.path = .ok place) ∧
      ∃ f, w.run fault t = (.error f, t)) := by
  unfold run
  -- Before the fresh file is there, a failure has nothing to remove.
  cases hcreate : fault.failure .create with
  | some f =>
    rw [takeSteps_failed hcreate]
    refine .inr ⟨fun h => ?_, _, rfl⟩
    rw [h.1 .create] at hcreate
    cases hcreate
  | none =>
    have hact : w.act t .create = .ok (t.put w.temp []) := rfl
    rw [takeSteps_acted hcreate hact]
    have hcases := takeSteps_cases fault [.fill, .close, .allow] hfree (by decide) []
    have hsteps : ([.fill, .close, .allow] : List WriteStep) ++ [.move] =
        [.fill, .close, .allow, .move] := rfl
    rw [hsteps] at hcases
    -- From here on a failure leaves the fresh file, and its removal gives the tree from before.
    rw [takeSteps]
    rcases hcases with ⟨place, htarget, hnone, hdone⟩ | ⟨hclear, f, left, hleft⟩
    · refine .inl ⟨place, htarget, fun step => ?_, ?_⟩
      · cases step with
        | create => exact hcreate
        | fill => exact hnone _ (by decide)
        | close => exact hnone _ (by decide)
        | allow => exact hnone _ (by decide)
        | move => exact hnone _ (by decide)
      · dsimp only
        rw [hdone]
        rfl
    · refine .inr ⟨fun h => hclear ⟨fun step _ => h.1 step, h.2⟩, f, ?_⟩
      dsimp only
      rw [hleft]
      dsimp only
      rw [remove_put hfree]

end Writing

namespace Tree

variable {t t' : Tree} {path : String} {dir : Place}

/-- The write of which the fresh file is made in a directory. -/
def writing (t : Tree) (dir : Place) (path : String) (data : Bytes) : Writing :=
  let name := t.freshName dir (t.files.length + 2) 0
  { temp := child dir name, tempPath := Path.join (Path.dir path) name, path, data }

/-- A write with a directory for its fresh file is a run. -/
theorem write_eq_run (hlocate : t.locate (Path.dir path) = .ok dir)
    (hdir : t.node? dir = some .directory) (fault : WriteFault) (data : Bytes) :
    t.write fault path data = (t.writing dir path data).run fault t := by
  unfold write
  dsimp only
  rw [hlocate]
  dsimp only
  rw [hdir]
  rfl

/-- Where there is no directory for the fresh file, nothing is done. -/
theorem write_refused (h : ¬∃ dir, t.locate (Path.dir path) = .ok dir ∧
    t.node? dir = some .directory) (fault : WriteFault) (data : Bytes) :
    ∃ f, t.write fault path data = (.error f, t) := by
  unfold write
  dsimp only
  split
  next => exact ⟨_, rfl⟩
  next dir hlocate =>
    split
    next hnode => exact absurd ⟨dir, hlocate, hnode⟩ h
    next => exact ⟨_, rfl⟩
    next => exact ⟨_, rfl⟩

/-- **A write** either puts the data where the path leads, or leaves the tree as it was. -/
theorem write_cases (t : Tree) (fault : WriteFault) (path : String) (data : Bytes) :
    (∃ dir name, t.Receives path dir name ∧ (∀ step, fault.failure step = none) ∧
      t.write fault path data = (.ok (), t.put (child dir name) data)) ∨
    (¬((∀ step, fault.failure step = none) ∧ ∃ dir name, t.Receives path dir name) ∧
      ∃ f, t.write fault path data = (.error f, t)) := by
  by_cases hplace : ∃ dir, t.locate (Path.dir path) = .ok dir ∧ t.node? dir = some .directory
  · obtain ⟨dir, hlocate, hdir⟩ := hplace
    have hfresh : t.node? (t.writing dir path data).temp = none := node?_freshName t dir
    -- The fresh file is no directory, so the path leads where it led without it.
    have htarget (place : Place) :
        (t.put (t.writing dir path data).temp data).target path = .ok place ↔ _ :=
      target_put hdir (hfresh ▸ nofun) data
    rw [write_eq_run hlocate hdir]
    rcases Writing.run_cases (free_of_node? hfresh) with
      ⟨place, hplace, hnone, hrun⟩ | ⟨hnot, f, hrun⟩
    · obtain ⟨dir', name, rfl, hreceives⟩ := target_ok.mp ((htarget place).mp hplace)
      exact .inl ⟨dir', name, hreceives, hnone, hrun⟩
    · refine .inr ⟨?_, f, hrun⟩
      rintro ⟨hnone, dir', name, hreceives⟩
      exact hnot ⟨hnone, _, (htarget _).mpr (target_ok.mpr ⟨dir', name, rfl, hreceives⟩)⟩
  · refine .inr ⟨?_, write_refused hplace fault data⟩
    rintro ⟨-, dir, name, h⟩
    exact hplace ⟨dir, h.locate_dir, h.directory⟩

/-- **Writes are all or nothing.** Whichever steps fail, and however much had been filled in: a
write succeeds exactly if no step fails and the path has a place for a file. Then the path leads to
a file with the data, and what is at any other place is what was there. Otherwise the tree is the
one from before. -/
theorem write_all_or_nothing (t : Tree) (fault : WriteFault) (path : String) (data : Bytes) :
    ((t.write fault path data).1 = .ok () ↔
      (∀ step, fault.failure step = none) ∧ ∃ dir name, t.Receives path dir name) ∧
    (∀ t', t.write fault path data = (.ok (), t') → t'.read path = .ok data ∧
      ∃ place, t'.locate path = .ok place ∧ t' = t.put place data ∧
        t'.node? place = some (.file data) ∧
        ∀ other ≠ place, t'.node? other = t.node? other) ∧
    ∀ f t', t.write fault path data = (.error f, t') → t' = t := by
  rcases write_cases t fault path data with
    ⟨dir, name, hreceives, hnone, hwrite⟩ | ⟨hnot, f, hwrite⟩
  · rw [hwrite]
    refine ⟨⟨fun _ => ⟨hnone, dir, name, hreceives⟩, fun _ => rfl⟩, ?_, nofun⟩
    rintro t' ⟨⟩
    have hnode (q : Place) : (t.put (child dir name) data).node? q = _ :=
      node?_put hreceives.directory hreceives.entry data q
    have hlocate := hreceives.locate_put data
    have hfile := (hnode (child dir name)).trans (if_pos rfl)
    exact ⟨read_of_locate hlocate hfile, _, hlocate, rfl, hfile,
      fun other hother => (hnode other).trans (if_neg hother)⟩
  · rw [hwrite]
    refine ⟨⟨nofun, fun h => absurd h hnot⟩, nofun, ?_⟩
    rintro f' t' ⟨⟩
    rfl

/-- A working directory with a file and an empty directory in it. -/
def desk : Tree where
  files := [(["tmp", "work", "a"], [1]), (["tmp", "work", "e", ""], [])]
  here := ["tmp", "work"]

/-- A path that goes up again from an empty directory receives a file in place of one, and so does a
path that starts at the root and leaves the working directory; if the fresh file is only filled in
part, the old one stays. -/
theorem write_all_or_nothing_replacing :
    (∃ t', desk.write {} "e//../a" [2, 3] = (.ok (), t') ∧ t'.read "e//../a" = .ok [2, 3]) ∧
    (∃ t', desk.write {} "/tmp/work/../b" [4] = (.ok (), t') ∧
      t'.read "/tmp/work/../b" = .ok [4]) ∧
    ∃ f, desk.write
      { failure := fun step => if step = .fill then some .crash else none, filled := 1 }
      "e//../a" [2, 3] = (.error f, desk) := by
  refine ⟨?_, ?_, ?_⟩
  · have hreceives : desk.Receives "e//../a" ["tmp", "work"] "a" := {
      walkable := ⟨by decide, by decide +kernel, by decide +kernel⟩
      leads := ⟨["e", "", ".."], by decide +kernel, rfl⟩
      directory := by decide +kernel
      isName := by unfold IsName; decide
      size_le := by decide +kernel
      entry := by decide +kernel }
    obtain ⟨hok, hdone, -⟩ := write_all_or_nothing desk {} "e//../a" [2, 3]
    have hwrite := Prod.ext (hok.mpr ⟨fun _ => rfl, _, _, hreceives⟩) rfl
    exact ⟨_, hwrite, (hdone _ hwrite).1⟩
  · have hreceives : desk.Receives "/tmp/work/../b" ["tmp"] "b" := {
      walkable := ⟨by decide, by decide +kernel, by decide +kernel⟩
      leads := ⟨["", "tmp", "work", ".."], by decide +kernel, rfl⟩
      directory := by decide +kernel
      isName := by unfold IsName; decide
      size_le := by decide +kernel
      entry := by decide +kernel }
    obtain ⟨hok, hdone, -⟩ := write_all_or_nothing desk {} "/tmp/work/../b" [4]
    have hwrite := Prod.ext (hok.mpr ⟨fun _ => rfl, _, _, hreceives⟩) rfl
    exact ⟨_, hwrite, (hdone _ hwrite).1⟩
  · obtain ⟨hok, -, hfailed⟩ := write_all_or_nothing desk
      { failure := fun step => if step = .fill then some .crash else none, filled := 1 }
      "e//../a" [2, 3]
    -- The run itself is not computed; what is known of it suffices.
    generalize write _ _ _ _ = result at hok hfailed ⊢
    obtain ⟨answer, t'⟩ := result
    cases answer with
    | ok => exact absurd ((hok.mp rfl).1 .fill) (by decide)
    | error f => exact ⟨f, congrArg _ (hfailed f t' rfl)⟩

end Tree

end EngineHost
