import EngineHost.Proofs.ArchiveRoundTrip

/-!
# What is written and what is read

Writing an archive takes the count of a tensor as it is; reading counts the dimensions again, and
takes no more than `Archive.maxCount` elements. So the two do not agree on every archive. An archive
that was written is a header for tensors that are all there (`Archive.encode_eq_ok`), and reading it
comes down to the shapes:

* if each shape can be counted within the limit, all tensors are listed;
* a tensor with more elements than the limit makes the whole archive unreadable
  (`Archive.size_le_of_decode`).

`Archive.decode_encode_within_limit` puts these together. The limit is held against the dimensions
from the left, so a tensor without elements can be refused as well as one beyond the limit
(`Archive.wide_nothing_refused`).
-/

namespace EngineHost

theorem Matches.of_mem_left {κ β γ : Type} {R : β → γ → Prop} {left : List (κ × β)}
    {right : List (κ × γ)} (h : Matches R left right) {name : κ} {v : β} (hmem : (name, v) ∈ left) :
    ∃ w, (name, w) ∈ right ∧ R v w := by
  induction h with
  | nil => exact absurd hmem List.not_mem_nil
  | @cons x y _ _ hxy _ ih =>
    rcases List.mem_cons.mp hmem with rfl | hmem
    · exact ⟨y.2, List.mem_cons.mpr (.inl (Prod.ext hxy.1 rfl)), hxy.2⟩
    · obtain ⟨w, hw, hR⟩ := ih hmem
      exact ⟨w, List.mem_cons.mpr (.inr hw), hR⟩

namespace Archive

/-! ### What can be written -/

theorem isSome_of_layOut {start : Nat} {given : List (String × Option Tensor)}
    {out : List (String × Json) × Bytes} (hok : layOut start given = .ok out) :
    ∀ x ∈ given, x.2.isSome = true := by
  induction given generalizing start out with
  | nil => exact List.forall_mem_nil _
  | cons x more ih =>
    obtain ⟨name, t?⟩ := x
    cases t? with
    | none => cases hok
    | some t =>
      obtain ⟨rest, hrest, -⟩ := bind_eq_ok_iff.mp hok
      exact List.forall_mem_cons.mpr ⟨rfl, ih hrest⟩

/-- Tensors that are all there. -/
theorem exists_tensors {given : List (String × Option Tensor)}
    (h : ∀ x ∈ given, x.2.isSome = true) :
    ∃ tensors : List (String × Tensor), given = tensors.map fun x => (x.1, some x.2) := by
  induction given with
  | nil => exact ⟨[], rfl⟩
  | cons x more ih =>
    rw [List.forall_mem_cons] at h
    obtain ⟨t, ht⟩ := Option.isSome_iff_exists.mp h.1
    obtain ⟨tensors, rfl⟩ := ih h.2
    exact ⟨(x.1, t) :: tensors, congrArg (· :: _) (Prod.ext rfl ht)⟩

theorem isTensorName_iff (name : String) :
    isTensorName name = true ↔ Text.isBlankText name = false ∧ name ≠ metadataName := by
  simp [isTensorName]

/-- **What was written**: some tensors, all of them there and with names that are allowed. -/
theorem encode_eq_ok {given : List (String × Option Tensor)} {metadata : List (String × String)}
    {file : Bytes} (hok : encode given metadata = .ok file) :
    ∃ tensors : List (String × Tensor), given = tensors.map (fun x => (x.1, some x.2)) ∧
      tensors ≠ [] ∧ ∀ x ∈ tensors, Text.isBlankText x.1 = false ∧ x.1 ≠ metadataName := by
  unfold encode at hok
  split at hok
  next => cases hok
  next hne =>
  dsimp only at hok
  split at hok
  next => cases hok
  next hnames =>
  obtain ⟨out, hlayOut, -⟩ := bind_eq_ok_iff.mp hok
  -- Sorting has changed nothing about which tensors there are.
  have hsome : ∀ x ∈ given, x.2.isSome = true :=
    fun x hx => isSome_of_layOut hlayOut x (List.mem_mergeSort.mpr hx)
  obtain ⟨tensors, rfl⟩ := exists_tensors hsome
  refine ⟨tensors, rfl, ?_, fun x hx => ?_⟩
  · rintro rfl
    exact hne rfl
  · have hx' := List.find?_eq_none.mp hnames (x.1, some x.2)
      (List.mem_mergeSort.mpr (List.mem_map.mpr ⟨x, hx, rfl⟩))
    rw [← isTensorName_iff]
    simpa using hx'

theorem width_ofKind (k : ElementKind) : (ArchiveType.ofKind k).width = k.width := by
  cases k <;> rfl

theorem length_octets (tensors : List (String × Tensor)) :
    (octets tensors).length = (tensors.map fun x => x.2.byteSize).sum := by
  rw [octets, List.length_flatMap]
  refine congrArg List.sum (List.map_congr_left fun x _ => ?_)
  rw [length_elementBytes, width_ofKind]
  rfl

/-! ### What can be read -/

open Json.Reader Json.Reader.Members in
/-- Whatever positions an entry is written with, if it is read then with the shape of its tensor. -/
theorem shape_of_readEntry {t : Tensor} {start stop : Nat} {h : HeaderEntry}
    (hread : readEntry [entryJson t start stop] = some h) : h.shape = t.shape := by
  rw [readEntry, entryJson, record_object] at hread
  simp (disch := decide) only [get_eq, given_same, given_other, given_nil] at hread
  rw [text_string, list_int64_shape] at hread
  simp only [Option.bind_eq_bind, Option.bind_some] at hread
  obtain ⟨range, -, hrange⟩ := Option.bind_eq_some_iff.mp hread
  rw [← Option.some.inj hrange]

section Written

variable {sorted : List (String × Tensor)} {metadata : List (String × String)} {header : Bytes}

/-- **A reader takes no tensor beyond the limit**, whatever else the header says. -/
theorem size_le_of_decode (horder : InOrder sorted) (hnames : ∀ x ∈ sorted, x.1 ≠ metadataName)
    (hheader : header = Bytes.ofText (Json.object (membersFor (place 0 sorted) metadata)).compact)
    (hsmall : header.length ≤ maxHeader) {a : Archive}
    (hdecode : decode (withHeader header (octets sorted)) = .ok a) :
    ∀ x ∈ sorted, x.2.size ≤ maxCount := by
  intro x hx
  rw [← place_tensors 0 sorted] at hx
  obtain ⟨p, hp, rfl⟩ := List.mem_map.mp hx
  have hplaced := inOrder_place 0 horder
  have hother : ∀ p ∈ place 0 sorted, p.name ≠ metadataName :=
    fun p hp => hnames _ (mem_of_mem_place hp)
  obtain ⟨-, -, members, _, entries, hmembers, -, hentries, -, -⟩ := decode_eq_ok_iff.mp hdecode
  -- There is one way to read a header, so the members are those that were written.
  obtain rfl : membersFor (place 0 sorted) metadata = members := by
    have hwritten := headerOf?_withHeader
      ((plain_membersFor 0 (place 0 sorted) metadata).mono (by decide))
      (inOrder_membersFor hother hplaced) (hheader ▸ hsmall) (octets sorted)
    rw [← hheader, hmembers] at hwritten
    exact (Option.some.inj hwritten).symm
  rw [entryMembers_membersFor hother hplaced] at hentries
  -- The entry of the tensor was admitted, so its shape was counted.
  obtain ⟨e, -, h, hread, hadmits⟩ :=
    hentries.of_mem_left (List.mem_map.mpr ⟨p, hp, rfl⟩ : (p.name, p.member.2) ∈ _)
  obtain ⟨n, hcount, -⟩ := hadmits.filled
  rw [hadmits.shape, shape_of_readEntry hread] at hcount
  obtain ⟨hsize, -, hlimit⟩ := elementCount?_eq_some hcount
  exact (Except.ok.inj (p.tensor.count_eq.symm.trans hsize)).trans_le hlimit

end Written

/-- The octets that tensors take, those that are missing none. -/
def dataSize (given : List (String × Option Tensor)) : Nat :=
  (given.map fun x => (x.2.map Tensor.byteSize).getD 0).sum

theorem dataSize_some (tensors : List (String × Tensor)) :
    dataSize (tensors.map fun x => (x.1, some x.2)) = (tensors.map fun x => x.2.byteSize).sum := by
  rw [dataSize, List.map_map]
  rfl

/-- **What was written is read within the limit.** An archive that was written, with a header that
is not too large, is read and lists all its tensors in the order of their names if the dimensions of
each can be counted within the limit. It is not read if a tensor has more elements than the
limit. -/
theorem decode_encode_within_limit {given : List (String × Option Tensor)}
    {metadata : List (String × String)} {file : Bytes} (hnames : (given.map (·.1)).Nodup)
    (hkeys : (metadata.map (·.1)).Nodup) (hencode : encode given metadata = .ok file)
    (hsmall : file.length ≤ 8 + maxHeader + dataSize given) :
    ((∀ x ∈ given, ∀ t, x.2 = some t → t.shape.CountsWithin maxCount) →
        ∃ a, decode file = .ok a ∧ a.names.Perm (given.map (·.1)) ∧ a.names.Pairwise (· < ·)) ∧
      ((∃ x ∈ given, ∃ t, x.2 = some t ∧ maxCount < t.size) → ∃ e, decode file = .error e) := by
  -- Whatever was written, it was a header for some tensors that are all there.
  obtain ⟨tensors, rfl, hne, hvalid⟩ := encode_eq_ok hencode
  rw [encode_eq hne metadata hvalid, Except.ok.injEq] at hencode
  obtain ⟨sorted, hsorted⟩ : ∃ sorted, sorted = tensors.mergeSort fun x y => decide (x.1 ≤ y.1) :=
    ⟨_, rfl⟩
  have hgiven : (tensors.map fun x => (x.1, some x.2)).map (·.1) = tensors.map (·.1) := by
    rw [List.map_map]
    rfl
  rw [hgiven] at hnames ⊢
  rw [← hsorted] at hencode
  have hperm : sorted.Perm tensors := hsorted ▸ List.mergeSort_perm _ _
  have horder : InOrder sorted := hsorted ▸ inOrder_mergeSort hnames
  have hother : ∀ x ∈ sorted, x.1 ≠ metadataName :=
    fun x hx => (hvalid x (hperm.mem_iff.mp hx)).2
  obtain ⟨header, hheader⟩ : ∃ header, header =
      Bytes.ofText (Json.object (membersFor (place 0 sorted) metadata)).compact := ⟨_, rfl⟩
  rw [← hheader] at hencode
  -- What is not data is header, so the size of the file bounds that of the header.
  have hlimit : header.length ≤ maxHeader := by
    have hdata : (octets sorted).length = (tensors.map fun x => x.2.byteSize).sum :=
      (length_octets sorted).trans (hperm.map _).sum_eq
    rw [← hencode, length_withHeader, dataSize_some, ← hdata] at hsmall
    omega
  rw [← hencode]
  constructor
  · intro hwithin
    have hwithin' : ∀ x ∈ sorted, x.2.shape.CountsWithin maxCount := fun x hx =>
      hwithin (x.1, some x.2) (List.mem_map.mpr ⟨x, hperm.mem_iff.mp hx, rfl⟩) x.2 rfl
    have hdecode := decode_withHeader (fun hnone => hne (hnone ▸ hperm.symm).eq_nil) horder hother
      hwithin' hkeys hheader hlimit
    refine ⟨_, hdecode, ?_⟩
    rw [names_readBack]
    exact ⟨hperm.map _, List.pairwise_map.mpr horder⟩
  · rintro ⟨x, hx, t, ht, hlarge⟩
    obtain ⟨y, hy, rfl⟩ := List.mem_map.mp hx
    obtain rfl : y.2 = t := Option.some.inj ht
    -- Were the file read, its tensors would have been counted within the limit.
    cases hdecode : decode (withHeader header (octets sorted)) with
    | error e => exact ⟨e, rfl⟩
    | ok a =>
      have hle := size_le_of_decode horder hother hheader hlimit hdecode y (hperm.mem_iff.mpr hy)
      exact absurd hlarge (Nat.not_lt.mpr hle)

/-- A tensor without elements, whose other dimensions stand behind the zero. -/
def nothingFirst : Tensor :=
  ⟨.float32 #[], [0, 4611686018427387904, 4], .cpu, rfl, rfl⟩

theorem nothingFirst_read : ∃ file a, encode [("t", some nothingFirst)] [] = .ok file ∧
    decode file = .ok a ∧ a.names = ["t"] := by
  have hlength : (encode [("t", some nothingFirst)] []).toOption.map List.length = some 84 := by
    decide +kernel
  cases hencode : encode [("t", some nothingFirst)] [] with
  | error e =>
    rw [hencode] at hlength
    cases hlength
  | ok file =>
    rw [hencode] at hlength
    have hsmall : file.length ≤ 8 + maxHeader + dataSize [("t", some nothingFirst)] := by
      rw [show file.length = 84 from Option.some.inj hlength]
      decide
    have hwithin : ∀ x ∈ [("t", some nothingFirst)], ∀ t, x.2 = some t →
        t.shape.CountsWithin maxCount := by
      intro x hx t ht
      rw [List.mem_singleton.mp hx] at ht
      cases ht
      decide
    obtain ⟨a, hdecode, hperm, -⟩ :=
      (decode_encode_within_limit (by decide) (by decide) hencode hsmall).1 hwithin
    exact ⟨file, a, rfl, hdecode, List.perm_singleton.mp hperm⟩

/-- A tensor without elements, with a large dimension in front of the zero. -/
def wideNothing : Tensor :=
  ⟨.float32 #[], [2147483648, 0], .cpu, rfl, rfl⟩

/-- A tensor with one element more than the limit. -/
noncomputable def overLimit : Tensor where
  elements := .float16 (Array.replicate 2147483648 ⟨0⟩)
  shape := [2147483648]
  device := .cpu
  isStatic := rfl
  count_eq := by
    rw [Elements.size, Array.size_replicate]
    rfl

theorem size_overLimit : overLimit.size = 2147483648 :=
  Array.size_replicate

-- Its elements go into the header by their number only, so they are never laid out here.
theorem membersFor_overLimit : membersFor (place 0 [("t", overLimit)]) [] =
    [("t", .object [("dtype", .string "F16"), ("shape", .ints [2147483648]),
      ("data_offsets", .array [.int 0, .int 4294967296])])] := by
  have hlength : (elementBytes overLimit.elements).length = 4294967296 := by
    rw [length_elementBytes, show overLimit.elements.size = 2147483648 from size_overLimit]
    rfl
  rw [membersFor, place, place, hlength, textMember, List.isEmpty_nil, if_pos rfl,
    List.nil_append, List.map_singleton, List.mergeSort_singleton]
  rfl

theorem overLimit_refused : ∃ file, encode [("t", some overLimit)] [] = .ok file ∧
    file.length ≤ 8 + maxHeader + dataSize [("t", some overLimit)] ∧
    ∃ e, decode file = .error e := by
  obtain ⟨header, hheader⟩ : ∃ header, header =
      Bytes.ofText (Json.object (membersFor (place 0 [("t", overLimit)]) [])).compact := ⟨_, rfl⟩
  have hencode : encode [("t", some overLimit)] [] =
      .ok (withHeader header (octets [("t", overLimit)])) := by
    have hvalid : ∀ x ∈ [("t", overLimit)], Text.isBlankText x.1 = false ∧ x.1 ≠ metadataName := by
      intro x hx
      rw [List.mem_singleton.mp hx]
      decide +kernel
    have heq := encode_eq (List.cons_ne_nil _ _) [] hvalid
    rw [List.mergeSort_singleton, ← hheader] at heq
    exact heq
  have hsmall : header.length ≤ maxHeader := by
    rw [hheader, membersFor_overLimit]
    decide +kernel
  refine ⟨_, hencode, ?_, ?_⟩
  · have hdata : (octets [("t", overLimit)]).length = dataSize [("t", some overLimit)] :=
      (length_octets [("t", overLimit)]).trans (dataSize_some [("t", overLimit)]).symm
    rw [length_withHeader, hdata]
    omega
  · cases hdecode : decode (withHeader header (octets [("t", overLimit)])) with
    | error e => exact ⟨e, rfl⟩
    | ok a =>
      have hname : ∀ x ∈ [("t", overLimit)], x.1 ≠ metadataName := by
        intro x hx
        rw [List.mem_singleton.mp hx]
        decide +kernel
      have hle : overLimit.size ≤ maxCount :=
        size_le_of_decode (List.pairwise_singleton _ _) hname hheader hsmall hdecode _
          (List.mem_singleton_self _)
      rw [size_overLimit] at hle
      exact absurd hle (by decide)

set_option maxRecDepth 20000 in
/-- **Written and not read**: a tensor beyond the limit, and one without elements that has too large
a dimension before the zero. -/
theorem wide_nothing_refused :
    (∃ file, encode [("t", some overLimit)] [] = .ok file ∧
      file.length ≤ 8 + maxHeader + dataSize [("t", some overLimit)] ∧
      ∃ e, decode file = .error e) ∧
    ∃ file, encode [("t", some wideNothing)] [] = .ok file ∧
      file.length ≤ 8 + maxHeader + dataSize [("t", some wideNothing)] ∧
      decode file = .error (.overflow "t" [2147483648, 0]) := by
  refine ⟨overLimit_refused, withHeader (Bytes.ofText
    "\x7b\"t\":\x7b\"dtype\":\"F32\",\"shape\":[2147483648,0],\"data_offsets\":[0,0]\x7d\x7d") [],
    ?_, ?_, ?_⟩ <;> decide +kernel

end Archive

end EngineHost
