import EngineHost.Archive.Read
import EngineHost.Archive.Write
import EngineHost.Proofs.Execution

/-!
# What an archive that was read can be asked for

Nothing in an archive is trusted, so a reader has to find out from the header alone whether the
octets of a tensor are there. `Archive.decode_eq_ok_iff` says what reading checks: it takes a header
exactly if every member but the table of texts is an entry that is *admitted* (`Archive.Admits`).

Positions in the header count from the end of the header, and adding its size to them can leave the
range of sixty-four bits. The check against the size of the data comes after the addition, and a sum
that has wrapped around is negative, hence below every size. So an entry that is admitted is one of
two kinds:

* its positions are as they should be, the octets between them are in the data and as many as the
  shape and the type ask for (`Archive.Admits.lies`), and the tensor can be read;
* the position of its end has wrapped around (`Archive.Admits.stop_neg`), and asking for the tensor
  is an access out of range.

`Archive.reads_unless_wrapped` puts this together, for one tensor and for all of them at once;
`Archive.wrapped_position_out_of_range` is an archive of the second kind.
-/

namespace EngineHost

/-- A count within one limit is the count within any larger one. -/
theorem Shape.countFrom_of_le {whole whole' : Shape} {limit limit' axis axis' acc n : Nat}
    {shape : Shape} (hle : limit ≤ limit') (hok : countFrom whole limit axis acc shape = .ok n) :
    countFrom whole' limit' axis' acc shape = .ok n := by
  -- The axis and the whole shape stand in failures only, so they need not agree.
  induction shape generalizing axis axis' acc with
  | nil => exact hok
  | cons d more ih =>
    rw [countFrom] at hok ⊢
    split at hok
    next => cases hok
    next hneg =>
    rw [if_neg hneg]
    split at hok
    next hzero => rw [if_pos hzero, hok]
    next hzero =>
    rw [if_neg hzero]
    split at hok
    next => cases hok
    next hroom =>
    -- A factor that the smaller limit has room for, the larger one has room for.
    have hmore : limit / d.toNatClampNeg ≤ limit' / d.toNatClampNeg := Nat.div_le_div_right hle
    rw [if_neg (by omega)]
    exact ih hok

/-! ### Tables -/

section Tables

variable {κ β γ : Type} {R : β → γ → Prop} {left : List (κ × β)} {right : List (κ × γ)}

theorem Matches.map_fst (h : Matches R left right) : left.map (·.1) = right.map (·.1) := by
  induction h with
  | nil => rfl
  | cons hxy _ ih => rw [List.map_cons, List.map_cons, hxy.1, ih]

/-- What stands on the right comes from something under the same name on the left. -/
theorem Matches.of_mem_right (h : Matches R left right) {name : κ} {w : γ}
    (hmem : (name, w) ∈ right) : ∃ v, (name, v) ∈ left ∧ R v w := by
  induction h with
  | nil => exact absurd hmem List.not_mem_nil
  | @cons x y _ _ hxy _ ih =>
    rcases List.mem_cons.mp hmem with rfl | hmem
    · exact ⟨x.2, List.mem_cons.mpr (.inl (Prod.ext hxy.1.symm rfl)), hxy.2⟩
    · obtain ⟨v, hv, hR⟩ := ih hmem
      exact ⟨v, List.mem_cons.mpr (.inr hv), hR⟩

end Tables

namespace Json.Reader

variable {α : Type} {item : Reader α}

/-- Adds a member to a table, in place of an earlier one of the same name. -/
def putMember (item : Reader α) (table : List (String × α)) (x : String × Json) :
    Option (List (String × α)) :=
  (item [x.2]).map fun a => table.filter (·.1 ≠ x.1) ++ [(x.1, a)]

theorem table_object (members : List (String × Json)) :
    table item [.object members] = members.foldlM (putMember item) [] := by
  -- The reader adds members in a `do` block; `putMember` is that block by name.
  have hput : (fun (acc : List (String × α)) (x : String × Json) => do
      let a ← item [x.2]
      pure (acc.filter (·.1 ≠ x.1) ++ [(x.1, a)])) = putMember item := by
    funext acc x
    rw [putMember]
    cases item [x.2] <;> rfl
  rw [← hput]
  exact bind_pure _

/-- One member more: an earlier one of its name is dropped first. -/
theorem putMember_nodup {table table' : List (String × α)} {x : String × Json}
    (hput : putMember item table x = some table') (hnodup : (table.map (·.1)).Nodup) :
    (table'.map (·.1)).Nodup := by
  obtain ⟨a, -, rfl⟩ := Option.map_eq_some_iff.mp hput
  have hkept : ((table.filter (·.1 ≠ x.1)).map (·.1)).Nodup :=
    hnodup.sublist (List.filter_sublist.map _)
  have hfresh : x.1 ∉ (table.filter (·.1 ≠ x.1)).map (·.1) := by
    intro hmem
    obtain ⟨y, hy, heq⟩ := List.mem_map.mp hmem
    exact of_decide_eq_true (List.mem_filter.mp hy).2 heq
  rw [List.map_append, List.nodup_append]
  refine ⟨hkept, List.nodup_singleton _, ?_⟩
  rintro name hname _ hlast rfl
  have heq : name = x.1 := List.mem_singleton.mp hlast
  exact hfresh (heq ▸ hname)

theorem putMembers_nodup {members : List (String × Json)} {table table' : List (String × α)}
    (hput : members.foldlM (putMember item) table = some table')
    (hnodup : (table.map (·.1)).Nodup) : (table'.map (·.1)).Nodup := by
  induction members generalizing table with
  | nil =>
    obtain rfl := Option.some.inj hput
    exact hnodup
  | cons x more ih =>
    obtain ⟨between, hfirst, hrest⟩ := Option.bind_eq_some_iff.mp hput
    exact ih hrest (putMember_nodup hfirst hnodup)

/-- No name stands twice in a table. -/
theorem table_nodup {v : Json} {members : List (String × α)}
    (hread : table item [v] = some members) : (members.map (·.1)).Nodup := by
  -- Only an object has members, and null stands for an empty table.
  cases v with
  | object given =>
    rw [table_object] at hread
    exact putMembers_nodup hread List.nodup_nil
  | null =>
    obtain rfl := Option.some.inj hread
    exact List.nodup_nil
  | bool b => cases hread
  | number s => cases hread
  | string s => cases hread
  | array items => cases hread

end Json.Reader

namespace Archive

/-- The two ways of counting agree where the one for archives gives a number. -/
theorem elementCount?_eq_some {shape : Shape} {n : Nat} (hcount : elementCount? shape = some n) :
    shape.count = .ok n ∧ n = shape.volume ∧ n ≤ maxCount := by
  unfold elementCount? at hcount
  cases hfrom : Shape.countFrom shape maxCount 0 1 shape with
  | error e =>
    rw [hfrom] at hcount
    cases hcount
  | ok m =>
    rw [hfrom] at hcount
    obtain rfl : m = n := Option.some.inj hcount
    obtain ⟨hvolume, hle⟩ := Shape.countFrom_eq hfrom (by decide)
    rw [Nat.one_mul] at hvolume
    exact ⟨Shape.countFrom_of_le (by decide) hfrom, hvolume, hle⟩

/-! ### Entries -/

/-- **An entry that is admitted**: the header gives a known type, a static shape and two positions
in order, and the entry holds these positions counted from the start of the data. -/
structure Admits (size base : Nat) (h : HeaderEntry) (e : ArchiveEntry) : Prop where
  type : ArchiveType.ofName? h.dtype = some e.type
  shape : e.shape = h.shape
  isStatic : e.shape.isStatic = true
  first : 0 ≤ h.offsets.1
  ordered : h.offsets.1 ≤ h.offsets.2
  start : e.start = Int64.ofNat base + h.offsets.1
  stop : e.stop = Int64.ofNat base + h.offsets.2
  inside : e.stop ≤ Int64.ofNat size
  filled : ∃ n, elementCount? e.shape = some n ∧ e.stop - e.start = Int64.ofNat (n * e.type.width)

theorem any_neg_eq_false_iff (shape : Shape) :
    shape.any (· < 0) = false ↔ shape.isStatic = true := by
  rw [List.any_eq_false, Shape.isStatic_iff]
  simp only [decide_eq_true_eq, Int64.not_lt]

/-- An entry passes the checks exactly if it is admitted. -/
theorem checkEntry_eq_ok_iff {size base : Nat} {name : String} {h : HeaderEntry}
    {e : ArchiveEntry} : checkEntry size base name h = .ok e ↔ Admits size base h e := by
  constructor
  · intro hok
    -- The checks in the order in which they are made; each leaves one field of `Admits`.
    unfold checkEntry at hok
    split at hok
    next => cases hok
    next type htype =>
    split at hok
    next => cases hok
    next hoffsets =>
    split at hok
    next => cases hok
    next hdims =>
    dsimp only at hok
    split at hok
    next => cases hok
    next hinside =>
    split at hok
    next => cases hok
    next n hcount =>
    split at hok
    next => cases hok
    next hfilled =>
    rw [not_or, Int64.not_lt, Int64.not_lt] at hoffsets
    rw [Bool.not_eq_true, any_neg_eq_false_iff] at hdims
    cases hok
    exact {
      type := htype
      shape := rfl
      isStatic := hdims
      first := hoffsets.1
      ordered := hoffsets.2
      start := rfl
      stop := rfl
      inside := Int64.not_lt.mp hinside
      filled := ⟨n, hcount, not_not.mp hfilled⟩ }
  · intro hadmits
    obtain ⟨type, shape, start, stop⟩ := e
    obtain ⟨htype, hshape, hstatic, hfirst, hordered, hstart, hstop, hinside, n, hcount, hfilled⟩ :=
      hadmits
    dsimp only at htype hshape hstatic hstart hstop hinside hcount hfilled
    -- The entry has no choice: everything but the type is computed from the header.
    subst hshape hstart hstop
    have hoffsets : ¬(h.offsets.1 < 0 ∨ h.offsets.2 < h.offsets.1) := by
      rw [not_or, Int64.not_lt, Int64.not_lt]
      exact ⟨hfirst, hordered⟩
    have hdims : ¬h.shape.any (· < 0) = true := by
      rw [Bool.not_eq_true, any_neg_eq_false_iff]
      exact hstatic
    unfold checkEntry
    rw [htype]
    dsimp only
    rw [if_neg hoffsets, if_neg hdims, if_neg (Int64.not_lt.mpr hinside), hcount]
    dsimp only
    rw [if_neg (not_not.mpr hfilled)]

/-! ### Headers -/

/-- What a header is given for the table of texts: of several tables the last counts. -/
def metadataOf (old : List (String × String)) (members : List (String × Json)) :
    Option (List (String × String)) :=
  (members.filter (·.1 = metadataName)).foldlM (fun _ x => Json.Reader.table Json.Reader.text [x.2])
    old

/-- The other members of a header. -/
def entryMembers (members : List (String × Json)) : List (String × Json) :=
  members.filter (·.1 ≠ metadataName)

/-- A table of texts takes the place of the one before. -/
theorem metadataOf_cons_metadata (old : List (String × String)) (v : Json)
    (more : List (String × Json)) : metadataOf old ((metadataName, v) :: more) =
      (Json.Reader.table Json.Reader.text [v]).bind fun metadata => metadataOf metadata more := by
  rw [metadataOf, List.filter_cons_of_pos (by simp), List.foldlM_cons]
  rfl

theorem metadataOf_cons_entry {name : String} (hname : name ≠ metadataName)
    (old : List (String × String)) (v : Json) (more : List (String × Json)) :
    metadataOf old ((name, v) :: more) = metadataOf old more := by
  rw [metadataOf, List.filter_cons_of_neg (by simpa using hname)]
  rfl

theorem entryMembers_cons_metadata (v : Json) (more : List (String × Json)) :
    entryMembers ((metadataName, v) :: more) = entryMembers more :=
  List.filter_cons_of_neg (by simp)

theorem entryMembers_cons_entry {name : String} (hname : name ≠ metadataName) (v : Json)
    (more : List (String × Json)) :
    entryMembers ((name, v) :: more) = (name, v) :: entryMembers more :=
  List.filter_cons_of_pos (by simpa using hname)

/-- A JSON value that is read as an entry. -/
def ReadAs (size base : Nat) (v : Json) (e : ArchiveEntry) : Prop :=
  ∃ h, readEntry [v] = some h ∧ Admits size base h e

section Members

variable {size base : Nat} {a b : Archive}

theorem takeMember_metadata (v : Json) : takeMember size base a metadataName v = .ok b ↔
    ∃ metadata, Json.Reader.table Json.Reader.text [v] = some metadata ∧
      b = { a with metadata } := by
  rw [takeMember, if_pos rfl]
  -- Reading the table is the only thing that can fail.
  cases Json.Reader.table Json.Reader.text [v] with
  | none => simp
  | some metadata => simp [eq_comm]

theorem takeMember_entry {name : String} (hname : name ≠ metadataName) (v : Json) :
    takeMember size base a name v = .ok b ↔
      ∃ e, ReadAs size base v e ∧ b = { a with entries := a.entries ++ [(name, e)] } := by
  rw [takeMember, if_neg hname]
  constructor
  · intro hok
    split at hok
    next => cases hok
    next h hread =>
    obtain ⟨e, he, rfl⟩ := map_eq_ok_iff.mp hok
    exact ⟨e, ⟨h, hread, checkEntry_eq_ok_iff.mp he⟩, rfl⟩
  · rintro ⟨e, ⟨h, hread, hadmits⟩, rfl⟩
    rw [hread]
    dsimp only
    rw [checkEntry_eq_ok_iff.mpr hadmits]
    rfl

/-- **What a header is taken for**, member by member. -/
theorem takeMembers_eq_ok_iff {members : List (String × Json)} :
    members.foldlM (fun a x => takeMember size base a x.1 x.2) a = .ok b ↔
      ∃ metadata entries, metadataOf a.metadata members = some metadata ∧
        Matches (ReadAs size base) (entryMembers members) entries ∧
        b = ⟨a.data, a.entries ++ entries, metadata⟩ := by
  -- Both tables grow along the members, so the induction is for any archive `a` so far.
  induction members generalizing a with
  | nil =>
    constructor
    · intro hok
      obtain rfl : a = b := Except.ok.inj hok
      exact ⟨a.metadata, [], rfl, .nil, by rw [List.append_nil]⟩
    · rintro ⟨metadata, entries, hmetadata, hentries, rfl⟩
      cases hmetadata
      cases hentries
      rw [List.append_nil]
      rfl
  | cons x more ih =>
    obtain ⟨name, v⟩ := x
    rw [List.foldlM_cons, bind_eq_ok_iff]
    by_cases hname : name = metadataName
    · -- The table of texts: what was there is replaced.
      subst hname
      rw [entryMembers_cons_metadata, metadataOf_cons_metadata]
      constructor
      · rintro ⟨between, hfirst, hrest⟩
        obtain ⟨metadata, hmetadata, rfl⟩ := (takeMember_metadata v).mp hfirst
        obtain ⟨final, entries, hfinal, hentries, rfl⟩ := ih.mp hrest
        exact ⟨final, entries, Option.bind_eq_some_iff.mpr ⟨metadata, hmetadata, hfinal⟩,
          hentries, rfl⟩
      · rintro ⟨final, entries, hall, hentries, rfl⟩
        obtain ⟨metadata, hmetadata, hfinal⟩ := Option.bind_eq_some_iff.mp hall
        exact ⟨_, (takeMember_metadata v).mpr ⟨metadata, hmetadata, rfl⟩,
          ih.mpr ⟨final, entries, hfinal, hentries, rfl⟩⟩
    · -- An entry: it is put behind those that were there.
      rw [entryMembers_cons_entry hname, metadataOf_cons_entry hname]
      constructor
      · rintro ⟨between, hfirst, hrest⟩
        obtain ⟨e, he, rfl⟩ := (takeMember_entry hname v).mp hfirst
        obtain ⟨final, entries, hfinal, hentries, rfl⟩ := ih.mp hrest
        refine ⟨final, (name, e) :: entries, hfinal, .cons ⟨rfl, he⟩ hentries, ?_⟩
        rw [List.append_assoc]
        rfl
      · rintro ⟨final, entries, hfinal, hentries, rfl⟩
        -- The entries start with this one, for the names on both sides agree.
        cases hentries with
        | @cons _ y _ rest hy hrest =>
          obtain ⟨other, e⟩ := y
          obtain ⟨heq, he⟩ := hy
          dsimp only at heq he
          subst heq
          refine ⟨_, (takeMember_entry hname v).mpr ⟨e, he, rfl⟩,
            ih.mpr ⟨final, rest, hfinal, hrest, ?_⟩⟩
          rw [List.append_assoc]
          rfl

end Members

/-- The size of the header of some data, as its first eight octets give it. -/
def headerSize (data : Bytes) : Nat :=
  Bytes.ofLittleEndian (data.take 8)

/-- The members of the header of some data. -/
def headerOf? (data : Bytes) : Option (List (String × Json)) :=
  (Json.readWhole? (Json.chars ((data.drop 8).take (headerSize data)))).bind headerMembers

/-- **What reading checks**: there is a header that is not too large, its members are read, and
there is at least one entry. -/
theorem decode_eq_ok_iff {data : Bytes} {a : Archive} :
    decode data = .ok a ↔
      8 + headerSize data ≤ data.length ∧ headerSize data ≤ maxHeader ∧
      ∃ members metadata entries, headerOf? data = some members ∧
        metadataOf [] members = some metadata ∧
        Matches (ReadAs data.length (8 + headerSize data)) (entryMembers members) entries ∧
        entries ≠ [] ∧ a = ⟨data, entries, metadata⟩ := by
  constructor
  · intro hok
    -- Three ways to fail before a member is looked at, and one after all of them.
    unfold decode at hok
    split at hok
    next => cases hok
    next hshort =>
    dsimp only at hok
    split at hok
    next => cases hok
    next hsize =>
    rw [not_or, Nat.not_lt, Nat.not_lt] at hsize
    split at hok
    next => cases hok
    next members hmembers =>
    obtain ⟨b, hfold, hok⟩ := bind_eq_ok_iff.mp hok
    obtain ⟨metadata, entries, hmetadata, hentries, rfl⟩ := takeMembers_eq_ok_iff.mp hfold
    split at hok
    next => cases hok
    next hsome =>
    cases hok
    exact ⟨hsize.2, hsize.1, members, metadata, entries, hmembers, hmetadata, hentries,
      by simpa using hsome, rfl⟩
  · rintro ⟨hlong, hlimit, members, metadata, entries, hmembers, hmetadata, hentries, hsome, rfl⟩
    have hsize : ¬(maxHeader < headerSize data ∨ data.length < 8 + headerSize data) := by
      rw [not_or, Nat.not_lt, Nat.not_lt]
      exact ⟨hlimit, hlong⟩
    unfold headerOf? at hmembers
    unfold decode
    rw [if_neg (by omega)]
    dsimp only
    rw [← headerSize, if_neg hsize, hmembers]
    refine bind_eq_ok_iff.mpr ⟨⟨data, entries, metadata⟩, ?_, ?_⟩
    · exact takeMembers_eq_ok_iff.mpr ⟨metadata, entries, hmetadata, hentries, rfl⟩
    · rw [if_neg (by simpa using hsome)]
      rfl

/-- No name stands twice in a header. -/
theorem headerOf?_nodup {data : Bytes} {members : List (String × Json)}
    (hheader : headerOf? data = some members) : (members.map (·.1)).Nodup := by
  obtain ⟨v, -, hmembers⟩ := Option.bind_eq_some_iff.mp hheader
  obtain ⟨given, hgiven, rfl⟩ := Option.map_eq_some_iff.mp hmembers
  have hsorted := (List.mergeSort_perm given fun x y => decide (x.1 ≤ y.1)).map (·.1)
  exact hsorted.nodup_iff.mpr (Json.Reader.table_nodup hgiven)

end Archive

/-! ### Positions -/

/-- **An entry that lies in the data**: its positions are in order and inside, and the octets
between them are as many as its shape and type ask for. -/
structure ArchiveEntry.Lies (e : ArchiveEntry) (data : Bytes) : Prop where
  start : 0 ≤ e.start
  ordered : e.start ≤ e.stop
  inside : e.stop.toInt ≤ data.length
  exact : e.stop.toInt - e.start.toInt = (e.shape.volume * e.type.width : Nat)

namespace Archive

/-- A position behind a header, unless it leaves the range. -/
theorem toInt_position {base : Nat} (hbase : base ≤ 8 + maxHeader) {offset : Int64}
    (hroom : base + offset.toInt < 2 ^ 63) (hoffset : 0 ≤ offset) :
    (Int64.ofNat base + offset).toInt = base + offset.toInt := by
  have hmax : 8 + maxHeader < 2 ^ 63 := by decide
  have hnonneg : 0 ≤ offset.toInt := Int64.le_iff_toInt_le.mp hoffset
  -- Neither the header nor the offset is negative, so the sum could only leave the range above.
  rw [Int64.toInt_add, Int64.toInt_ofNat_of_lt (by omega)]
  exact Int.bmod_eq_of_le (by omega) (by omega)

/-- A position that leaves the range wraps around and is negative. -/
theorem position_neg {base : Nat} (hbase : base ≤ 8 + maxHeader) {offset : Int64}
    (hroom : 2 ^ 63 ≤ base + offset.toInt) : Int64.ofNat base + offset < 0 := by
  have hmax : 8 + maxHeader < 2 ^ 63 := by decide
  have hlt : offset.toInt < 2 ^ 63 := offset.toInt_lt
  -- One turn around the range takes the sum below zero, as neither part reaches its end.
  rw [Int64.lt_iff_toInt_lt, Int64.toInt_add, Int64.toInt_ofNat_of_lt (by omega), Int.bmod_def]
  change _ < 0
  split <;> omega

/-- Whatever its size wraps to, the data reaches as far as a position below that. -/
theorem toInt_le_of_le_ofNat {size : Nat} {position : Int64} (hle : position ≤ Int64.ofNat size) :
    position.toInt ≤ size := by
  have hwrapped : position.toInt ≤ (Int64.ofNat size).toInt := Int64.le_iff_toInt_le.mp hle
  have hsize : (Int64.ofNat size).toInt ≤ size := by
    have hrange : Int64.size = 18446744073709551616 := rfl
    rw [Int64.toInt_ofNat', Int.bmod_def, hrange]
    split <;> omega
  omega

theorem width_pos (type : ArchiveType) : 0 < type.width := by
  cases type <;> decide

theorem width_le (type : ArchiveType) : type.width ≤ 8 := by
  cases type <;> decide

section Entry

variable {data : Bytes} {base : Nat} {h : HeaderEntry} {e : ArchiveEntry}

/-- An entry whose end is in range lies in the data. -/
theorem Admits.lies (hadmits : Admits data.length base h e) (hbase : base ≤ 8 + maxHeader)
    (hroom : base + h.offsets.2.toInt < 2 ^ 63) : e.Lies data := by
  have hfirst : 0 ≤ h.offsets.1.toInt := Int64.le_iff_toInt_le.mp hadmits.first
  have hordered : h.offsets.1.toInt ≤ h.offsets.2.toInt := Int64.le_iff_toInt_le.mp hadmits.ordered
  have hsecond : (0 : Int64) ≤ h.offsets.2 := Int64.le_iff_toInt_le.mpr (hfirst.trans hordered)
  have hstart : e.start.toInt = base + h.offsets.1.toInt := by
    rw [hadmits.start, toInt_position hbase (by omega) hadmits.first]
  have hstop : e.stop.toInt = base + h.offsets.2.toInt := by
    rw [hadmits.stop, toInt_position hbase hroom hsecond]
  have hstart_nonneg : 0 ≤ e.start := by
    rw [Int64.le_iff_toInt_le, hstart]
    change (0 : Int) ≤ _
    omega
  have hle : e.start ≤ e.stop := Int64.le_iff_toInt_le.mpr (by rw [hstart, hstop]; omega)
  refine ⟨hstart_nonneg, hle, toInt_le_of_le_ofNat hadmits.inside, ?_⟩
  obtain ⟨n, hcount, hfilled⟩ := hadmits.filled
  obtain ⟨-, hvolume, hlimit⟩ := elementCount?_eq_some hcount
  -- The octets asked for are few, so their number is not wrapped.
  have hfew : n * e.type.width ≤ maxCount * 8 := Nat.mul_le_mul hlimit (width_le _)
  have hmax : maxCount * 8 < 2 ^ 63 := by decide
  have hlength := congrArg Int64.toInt hfilled
  rw [Int64.toInt_sub_of_le _ _ hstart_nonneg hle, Int64.toInt_ofNat_of_lt (by omega)] at hlength
  rw [hlength, hvolume]

/-- An entry whose end has left the range ends before the data starts. -/
theorem Admits.stop_neg (hadmits : Admits data.length base h e) (hbase : base ≤ 8 + maxHeader)
    (hroom : 2 ^ 63 ≤ base + h.offsets.2.toInt) : e.stop < 0 := by
  rw [hadmits.stop]
  exact position_neg hbase hroom

/-- Before the data there is nothing to read. -/
theorem slice?_of_neg {start stop : Int64} (hneg : stop < 0) : slice? data start stop = none := by
  refine if_neg ?_
  rintro ⟨hstart, hordered, -⟩
  exact Int64.not_lt.mpr (Int64.le_trans hstart hordered) hneg

/-- The octets of an entry that lies in the data. -/
theorem slice?_of_lies (hlies : e.Lies data) :
    ∃ raw, slice? data e.start e.stop = some raw ∧ raw.length = e.shape.volume * e.type.width := by
  -- From here on both positions are natural numbers.
  have hstop : 0 ≤ e.stop := Int64.le_trans hlies.start hlies.ordered
  have hinside := hlies.inside
  have hexact := hlies.exact
  -- The end is inside the data, so dropping and taking meet no end of the list.
  rw [Int64.toInt_eq_toNatClampNeg hstop] at hinside
  have hspan : (e.stop - e.start).toNatClampNeg = e.shape.volume * e.type.width := by
    have hnonneg : 0 ≤ e.stop - e.start := by
      rw [Int64.le_iff_toInt_le, Int64.toInt_sub_of_le _ _ hlies.start hlies.ordered, hexact]
      exact Int.natCast_nonneg _
    have hdifference := Int64.toInt_sub_of_le _ _ hlies.start hlies.ordered
    rw [hexact, Int64.toInt_eq_toNatClampNeg hnonneg] at hdifference
    exact Int.ofNat.inj hdifference
  refine ⟨_, if_pos ⟨hlies.start, hlies.ordered, by omega⟩, ?_⟩
  rw [List.length_take, List.length_drop, hspan]
  rw [Int64.toInt_eq_toNatClampNeg hstop, Int64.toInt_eq_toNatClampNeg hlies.start] at hexact
  omega

theorem length_groups (width count : Nat) (bs : Bytes) :
    (groups width count bs).length = count := by
  induction count generalizing bs with
  | zero => rfl
  | succ n ih => rw [groups, List.length_cons, ih]

theorem size_elements (type : ArchiveType) (raw : Bytes) :
    (elements type raw).size = raw.length / type.width := by
  cases type <;> simp [elements, Elements.size, length_groups]

end Entry

/-! ### Tensors -/

section Tensors

variable {a : Archive} {name : String} {e : ArchiveEntry}

/-- A tensor whose octets are there is read, in the shape that was declared. -/
theorem tensor_of_lies (hlookup : a.entries.lookup name = some e) (hlies : e.Lies a.data)
    (hstatic : e.shape.isStatic = true) (hcount : e.shape.count = .ok e.shape.volume) :
    ∃ t, a.tensor name = .ok t ∧ t.shape = e.shape := by
  obtain ⟨raw, hslice, hlength⟩ := slice?_of_lies hlies
  -- A width goes into the octets as often as there are elements.
  have hsize : (elements e.type raw).size = e.shape.volume := by
    rw [size_elements, hlength, Nat.mul_div_cancel _ (width_pos _)]
  rw [← hsize] at hcount
  obtain ⟨t, ht, -, hshape, -⟩ := Tensor.make_ok .cpu hstatic hcount
  refine ⟨t, ?_, hshape⟩
  rw [tensor, tensor?, hlookup]
  dsimp only
  rw [hslice, Option.map_some, ht]
  rfl

/-- A tensor whose end has wrapped around is an access out of range. -/
theorem tensor_of_neg (hlookup : a.entries.lookup name = some e) (hneg : e.stop < 0) :
    a.tensor name = .error .crash := by
  rw [tensor, tensor?, hlookup]
  dsimp only
  rw [slice?_of_neg hneg]
  rfl

/-- All tensors at once, where each can be read. -/
theorem tensors_of_entries {entries : List (String × ArchiveEntry)}
    (hread : ∀ x ∈ entries, ∃ t, a.tensor x.1 = .ok t ∧ t.shape = x.2.shape) :
    ∃ read, (entries.map (·.1)).mapM (fun name => (a.tensor name).map fun t => (name, t)) =
      .ok read ∧ Matches (fun e t => t.shape = e.shape) entries read := by
  -- Tensors are read in the order of the entries, and each succeeds on its own.
  induction entries with
  | nil => exact ⟨[], rfl, .nil⟩
  | cons x more ih =>
    rw [List.forall_mem_cons] at hread
    obtain ⟨⟨t, ht, hshape⟩, hmore⟩ := hread
    obtain ⟨rest, hrest, hmatches⟩ := ih hmore
    refine ⟨(x.1, t) :: rest, ?_, .cons ⟨rfl, hshape⟩ hmatches⟩
    rw [List.map_cons, List.mapM_cons, ht, hrest]
    rfl

/-- All tensors at once, where one of them is out of range and each of the others can be read. -/
theorem tensors_crash {names : List String}
    (hread : ∀ name ∈ names, (∃ t, a.tensor name = .ok t) ∨ a.tensor name = .error .crash)
    (hcrash : ∃ name ∈ names, a.tensor name = .error .crash) :
    names.mapM (fun name => (a.tensor name).map fun t => (name, t)) = .error .crash := by
  induction names with
  | nil =>
    obtain ⟨name, hmem, -⟩ := hcrash
    exact absurd hmem List.not_mem_nil
  | cons name more ih =>
    rw [List.forall_mem_cons] at hread
    rw [List.mapM_cons]
    obtain ⟨⟨t, ht⟩ | hfirst, hmore⟩ := hread
    · -- The first is read, so the one that cannot be is among the others.
      rw [ht]
      have hlater : ∃ name ∈ more, a.tensor name = .error .crash := by
        obtain ⟨other, hmem, hother⟩ := hcrash
        rcases List.mem_cons.mp hmem with rfl | hmem
        · exact absurd (ht.symm.trans hother) (by simp)
        · exact ⟨other, hmem, hother⟩
      rw [ih hmore hlater]
      rfl
    · rw [hfirst]
      rfl

end Tensors

/-- **Data that was read can be asked for its tensors, unless a position has wrapped around.** Each
entry comes from a member of the header. Where the end that this member gives stays in range behind
the header, the entry lies in the data with exactly the octets it needs, and its tensor is read in
the declared shape. Where it does not, the end is negative, and its tensor is an access out of
range. All tensors can be read at once if no entry is of the second kind, and if one is, that is an
access out of range, too. -/
theorem reads_unless_wrapped {data : Bytes} {a : Archive} (hdecode : decode data = .ok a) :
    (∃ members, headerOf? data = some members ∧ ∀ name e, (name, e) ∈ a.entries →
      ∃ v h, (name, v) ∈ members ∧ readEntry [v] = some h ∧
        Admits data.length (8 + headerSize data) h e ∧
        (8 + headerSize data + h.offsets.2.toInt < 2 ^ 63 →
          e.Lies data ∧ ∃ t, a.tensor name = .ok t ∧ t.shape = e.shape) ∧
        (2 ^ 63 ≤ 8 + headerSize data + h.offsets.2.toInt →
          e.stop < 0 ∧ a.tensor name = .error .crash)) ∧
    ((∀ x ∈ a.entries, 0 ≤ x.2.stop) → ∃ read, a.tensors = .ok read ∧
      Matches (fun e t => t.shape = e.shape) a.entries read) ∧
    ((∃ x ∈ a.entries, x.2.stop < 0) → a.tensors = .error .crash) := by
  obtain ⟨-, hlimit, members, metadata, entries, hheader, -, hentries, -, rfl⟩ :=
    decode_eq_ok_iff.mp hdecode
  have hbase : 8 + headerSize data ≤ 8 + maxHeader := Nat.add_le_add_left hlimit 8
  -- Names in a header are distinct, so an entry is found under its name.
  have hnodup : (entries.map (·.1)).Nodup := by
    rw [← hentries.map_fst]
    exact (headerOf?_nodup hheader).sublist (List.filter_sublist.map _)
  have hlookup : ∀ {name e}, (name, e) ∈ entries → entries.lookup name = some e :=
    fun hmem => lookup_eq_some_of_mem hnodup hmem
  have hentry : ∀ {name e}, (name, e) ∈ entries → ∃ v h, (name, v) ∈ members ∧
      readEntry [v] = some h ∧ Admits data.length (8 + headerSize data) h e := by
    intro name e hmem
    obtain ⟨v, hv, h, hread, hadmits⟩ := hentries.of_mem_right hmem
    exact ⟨v, h, (List.mem_filter.mp hv).1, hread, hadmits⟩
  -- An end that is not negative has not wrapped around, since wrapping makes it negative.
  have hserved : ∀ {name e}, (name, e) ∈ entries → 0 ≤ e.stop →
      e.Lies data ∧ ∃ t, tensor ⟨data, entries, metadata⟩ name = .ok t ∧ t.shape = e.shape := by
    intro name e hmem hstop
    obtain ⟨v, h, -, -, hadmits⟩ := hentry hmem
    have hroom : (8 + headerSize data : Nat) + h.offsets.2.toInt < 2 ^ 63 := by
      by_contra hwrapped
      exact Int64.not_lt.mpr hstop (hadmits.stop_neg hbase (not_lt.mp hwrapped))
    have hlies := hadmits.lies hbase hroom
    obtain ⟨n, hcount, -⟩ := hadmits.filled
    obtain ⟨hcount, rfl, -⟩ := elementCount?_eq_some hcount
    exact ⟨hlies, tensor_of_lies (hlookup hmem) hlies hadmits.isStatic hcount⟩
  refine ⟨⟨members, hheader, fun name e hmem => ?_⟩, fun hall => ?_, fun hsome => ?_⟩
  · -- One entry: its member says which of the two kinds it is.
    obtain ⟨v, h, hv, hread, hadmits⟩ := hentry hmem
    refine ⟨v, h, hv, hread, hadmits, fun hroom => ?_, fun hwrapped => ?_⟩
    · have hlies := hadmits.lies hbase (by exact_mod_cast hroom)
      exact hserved hmem (Int64.le_trans hlies.start hlies.ordered)
    · have hneg := hadmits.stop_neg hbase (by exact_mod_cast hwrapped)
      exact ⟨hneg, tensor_of_neg (hlookup hmem) hneg⟩
  · exact tensors_of_entries fun x hx => (hserved hx (hall x hx)).2
  · -- All at once: every tensor is read or out of range, and one of them is the latter.
    refine tensors_crash (fun name hname => ?_) ?_
    · obtain ⟨⟨_, e⟩, hmem, rfl⟩ := List.mem_map.mp hname
      by_cases hneg : e.stop < 0
      · exact .inr (tensor_of_neg (hlookup hmem) hneg)
      · obtain ⟨-, t, ht, -⟩ := hserved hmem (Int64.not_lt.mp hneg)
        exact .inl ⟨t, ht⟩
    · obtain ⟨⟨name, e⟩, hmem, hneg⟩ := hsome
      exact ⟨name, List.mem_map.mpr ⟨_, hmem, rfl⟩, tensor_of_neg (hlookup hmem) hneg⟩

/-- A single number, kept in two octets. -/
def nearOnly : Bytes :=
  withHeader (Bytes.ofText
    "\x7b\"t\":\x7b\"dtype\":\"bf16\",\"shape\":[1],\"data_offsets\":[0,2]\x7d\x7d") [0x80, 0x3F]

set_option maxRecDepth 20000 in
/-- The number can be read, alone and with all tensors. -/
theorem reads_nearOnly : ∃ a, decode nearOnly = .ok a ∧
    (∃ t, a.tensor "t" = .ok t ∧ t.shape = [1]) ∧ ∃ read, a.tensors = .ok read := by
  have hdecode : decode nearOnly = .ok ⟨nearOnly, [("t", ⟨.bf16, [1], 63, 65⟩)], []⟩ := by
    decide +kernel
  obtain ⟨⟨members, -, hentries⟩, hall, -⟩ := reads_unless_wrapped hdecode
  obtain ⟨v, h, -, -, -, hin, hout⟩ := hentries "t" _ List.mem_cons_self
  -- The end of the only entry is known, and it is not negative.
  have hroom := not_le.mp fun hwrapped => absurd (hout hwrapped).1 (by decide)
  obtain ⟨read, hread, -⟩ := hall (List.forall_mem_singleton.mpr (by decide))
  exact ⟨_, hdecode, (hin hroom).2, read, hread⟩

/-- An empty tensor at the last position of sixty-four bits, and no data at all. -/
def farOnly : Bytes :=
  withHeader (Bytes.ofText
    ("\x7b\"t\":\x7b\"dtype\":\"F32\",\"shape\":[0]," ++
      "\"data_offsets\":[9223372036854775807,9223372036854775807]\x7d\x7d")) []

set_option maxRecDepth 20000 in
/-- **A position that wraps around is taken for one in the data.** The archive is read and the
tensor listed, with its start before the data; asking for it, or for all tensors, is an access out
of range. -/
theorem wrapped_position_out_of_range : ∃ a, decode farOnly = .ok a ∧ a.names = ["t"] ∧
    (∃ e, ("t", e) ∈ a.entries ∧ e.start < 0) ∧
    a.tensor "t" = .error .crash ∧ a.tensors = .error .crash := by
  have hdecode : decode farOnly = .ok ⟨farOnly,
      [("t", ⟨.f32, [0], -9223372036854775711, -9223372036854775711⟩)], []⟩ := by
    decide +kernel
  have htensor : tensor ⟨farOnly,
      [("t", ⟨.f32, [0], -9223372036854775711, -9223372036854775711⟩)], []⟩ "t" = .error .crash :=
    tensor_of_neg rfl (by decide)
  refine ⟨_, hdecode, rfl, ⟨_, List.mem_cons_self, by decide⟩, htensor, ?_⟩
  exact tensors_crash (fun name hname => .inr (List.mem_singleton.mp hname ▸ htensor))
    ⟨"t", List.mem_cons_self, htensor⟩

end Archive

end EngineHost
