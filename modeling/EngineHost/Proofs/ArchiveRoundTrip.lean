import EngineHost.Archive.Write
import EngineHost.Proofs.ArchiveBounds
import EngineHost.Proofs.HandleExport
import EngineHost.Proofs.NameOrder
import EngineHost.Proofs.WireExact
import Mathlib.Data.List.Infix

/-!
# Archives survive their octets

Writing an archive lays the tensors out one behind the other in the order of their names and puts a
header in front that says where each of them is. `Archive.written_reads_back` says that this can
always be done, that the ranges in the header cover the data, and that reading gives back every
tensor, bit by bit, and the table of texts.

What has to be seen for that:

* each kind of elements is read from its octets (`Archive.elements_elementBytes`);
* `Archive.place` says where tensors are put, and the octets there are their own
  (`Archive.octets_around`);
* the table of texts is sorted into the entries of the header and found there again
  (`Archive.entryMembers_membersFor`, `Archive.metadataOf_membersFor`);
* the count that reading makes of a shape is the one the tensor was made with
  (`Archive.elementCount?_of_within`);
* a header of limited size cannot hold so many entries that positions leave sixty-four bits
  (`Archive.length_le_header`, `Archive.length_octets_le`).
-/

namespace EngineHost

/-! ### Counting -/

namespace Shape

/-- A shape that can be counted from the left without leaving a limit before the first zero. -/
def CountsWithin (limit : Nat) (shape : Shape) : Prop :=
  ∀ before after, shape = before ++ after → 0 ∉ before → before.volume ≤ limit

/-- Only finitely many parts from the left have to be looked at. -/
theorem countsWithin_iff {limit : Nat} {shape : Shape} : CountsWithin limit shape ↔
    ∀ before ∈ shape.inits, 0 ∉ before → volume before ≤ limit := by
  simp only [List.mem_inits]
  constructor
  · rintro h before ⟨after, heq⟩ hfree
    exact h before after heq.symm hfree
  · intro h before after heq hfree
    exact h before ⟨after, heq.symm⟩ hfree

instance (limit : Nat) (shape : Shape) : Decidable (CountsWithin limit shape) :=
  decidable_of_iff _ countsWithin_iff.symm

/-- Counting goes on from what has been counted, `acc`, as long as all of it stays within. -/
theorem countFrom_of_within {whole : Shape} {limit axis acc : Nat} {shape : Shape}
    (hstatic : shape.isStatic = true) (hacc : 0 < acc)
    (hwithin : ∀ before after, shape = before ++ after → 0 ∉ before → acc * before.volume ≤ limit) :
    countFrom whole limit axis acc shape = .ok (acc * shape.volume) := by
  induction shape generalizing axis acc with
  | nil => rw [countFrom, volume_nil, Nat.mul_one]
  | cons d more ih =>
    rw [isStatic_iff, List.forall_mem_cons] at hstatic
    obtain ⟨hd, hmore⟩ := hstatic
    rw [countFrom, if_neg (Int64.not_lt.mpr hd), volume_cons]
    -- Behind a zero nothing is counted, so nothing is asked of what stands there.
    by_cases hzero : d = 0
    · rw [if_pos hzero, hzero]
      simp
    · have hpos : 0 < d.toNatClampNeg :=
        Nat.pos_of_ne_zero fun h => hzero ((toNatClampNeg_eq_zero hd).mp h)
      have hfirst : acc * d.toNatClampNeg ≤ limit := by
        simpa using hwithin [d] more rfl (by simpa using Ne.symm hzero)
      have hroom : ¬limit / d.toNatClampNeg < acc :=
        Nat.not_lt.mpr ((Nat.le_div_iff_mul_le hpos).mpr hfirst)
      rw [if_neg hzero, if_neg hroom, ← Nat.mul_assoc]
      -- What has been counted goes into the bound for the rest.
      refine ih ((isStatic_iff _).mpr hmore) (Nat.mul_pos hacc hpos)
        fun before after heq hfree => ?_
      have hlonger := hwithin (d :: before) after (by rw [heq]; rfl)
        (by simpa using ⟨Ne.symm hzero, hfree⟩)
      rwa [volume_cons, ← Nat.mul_assoc] at hlonger

end Shape

namespace Archive

/-- Reading counts what can be counted within its limit. -/
theorem elementCount?_of_within {shape : Shape} (hstatic : shape.isStatic = true)
    (hwithin : shape.CountsWithin maxCount) : elementCount? shape = some shape.volume := by
  have hcount : Shape.countFrom shape maxCount 0 1 shape = .ok (1 * shape.volume) :=
    Shape.countFrom_of_within hstatic Nat.one_pos fun before after heq hfree => by
      rw [Nat.one_mul]
      exact hwithin before after heq hfree
  rw [elementCount?, hcount, Nat.one_mul]
  rfl

/-! ### Elements -/

/-- Parts of one width are told apart again. -/
theorem groups_flatMap {α : Type} {width : Nat} {put : α → Bytes}
    (hwidth : ∀ x, (put x).length = width) (xs : List α) :
    groups width xs.length (xs.flatMap put) = xs.map put := by
  induction xs with
  | nil => rfl
  | cons x more ih =>
    rw [List.flatMap_cons, List.length_cons, groups, List.take_left' (hwidth x),
      List.drop_left' (hwidth x), ih, List.map_cons]

theorem length_flatMap {α : Type} {width : Nat} {put : α → Bytes}
    (hwidth : ∀ x, (put x).length = width) (xs : List α) :
    (xs.flatMap put).length = xs.length * width := by
  simp [List.length_flatMap, hwidth]

/-- Values that are kept as words of a width are read from their octets. -/
theorem words_written {α : Type} (width : Nat) (word : α → Nat) (value : Nat → α)
    (hwidth : 0 < width)
    (hword : ∀ x, word x < 256 ^ width) (hvalue : ∀ x, value (word x) = x) (v : Array α) :
    (((groups width ((v.toList.flatMap fun x => Bytes.littleEndian width (word x)).length / width)
      (v.toList.flatMap fun x => Bytes.littleEndian width (word x))).map
        Bytes.ofLittleEndian).map value).toArray = v := by
  have hlength (x : α) : (Bytes.littleEndian width (word x)).length = width :=
    Bytes.littleEndian_length _ _
  have hread : (value ∘ Bytes.ofLittleEndian) ∘ (fun x => Bytes.littleEndian width (word x)) =
      id := by
    funext x
    change value (Bytes.ofLittleEndian (Bytes.littleEndian width (word x))) = x
    rw [Bytes.ofLittleEndian_littleEndian (hword x), hvalue]
  -- As many words as there are values, each read as it was written.
  rw [length_flatMap hlength, Nat.mul_div_cancel _ hwidth, groups_flatMap hlength, List.map_map,
    List.map_map, hread, List.map_id, Array.toArray_toList]

theorem length_elementBytes (e : Elements) :
    (elementBytes e).length = e.size * (ArchiveType.ofKind e.kind).width := by
  cases e <;> exact length_flatMap (fun _ => Bytes.littleEndian_length _ _) _

/-- **Elements survive their octets.** -/
theorem elements_elementBytes (e : Elements) :
    elements (ArchiveType.ofKind e.kind) (elementBytes e) = e := by
  -- The kinds differ in their width and in how a value is kept as a word, and in nothing else.
  cases e with
  | float32 v =>
    exact congrArg Elements.float32 (words_written 4 (fun x : Single => x.bits.toNat) _ (by decide)
      (fun x => x.bits.toNat_lt) (fun x => by simp) v)
  | float16 v =>
    exact congrArg Elements.float16 (words_written 2 (fun x : Half => x.bits.toNat) _ (by decide)
      (fun x => x.bits.toNat_lt) (fun x => by simp) v)
  | int32 v =>
    exact congrArg Elements.int32 (words_written 4 (fun n : Int32 => n.toUInt32.toNat) _ (by decide)
      (fun n => n.toUInt32.toNat_lt) (fun n => by simp) v)
  | int64 v =>
    exact congrArg Elements.int64 (words_written 8 (fun n : Int64 => n.toUInt64.toNat) _ (by decide)
      (fun n => n.toUInt64.toNat_lt) (fun n => by simp) v)

/-! ### Where tensors are put -/

/-- Ranges one behind the other, from a position to a position. -/
def Tiles : Nat → List (Nat × Nat) → Nat → Prop
  | first, [], last => first = last
  | first, (start, stop) :: more, last => start = first ∧ start ≤ stop ∧ Tiles stop more last

/-- A tensor and the range of its octets. -/
structure Placed where
  name : String
  tensor : Tensor
  start : Nat
  stop : Nat

namespace Placed

/-- The octets. -/
def raw (p : Placed) : Bytes := elementBytes p.tensor.elements

def range (p : Placed) : Nat × Nat := (p.start, p.stop)

/-- The member of the header. -/
def member (p : Placed) : String × Json := (p.name, entryJson p.tensor p.start p.stop)

end Placed

/-- Tensors one behind the other from a position on. -/
def place (start : Nat) : List (String × Tensor) → List Placed
  | [] => []
  | (name, t) :: more =>
    ⟨name, t, start, start + (elementBytes t.elements).length⟩ ::
      place (start + (elementBytes t.elements).length) more

/-- The octets of tensors. -/
def octets (tensors : List (String × Tensor)) : Bytes :=
  tensors.flatMap fun x => elementBytes x.2.elements

/-- Laying tensors out is placing them. -/
theorem layOut_eq (start : Nat) (tensors : List (String × Tensor)) :
    layOut start (tensors.map fun x => (x.1, some x.2)) =
      .ok ((place start tensors).map Placed.member, octets tensors) := by
  induction tensors generalizing start with
  | nil => rfl
  | cons x more ih =>
    rw [List.map_cons, layOut, ih]
    rfl

theorem place_tensors (start : Nat) (tensors : List (String × Tensor)) :
    (place start tensors).map (fun p => (p.name, p.tensor)) = tensors := by
  induction tensors generalizing start with
  | nil => rfl
  | cons x more ih => rw [place, List.map_cons, ih]

/-- Tensors lie side by side, from the start to the end of their octets. -/
theorem tiles_place (start : Nat) (tensors : List (String × Tensor)) :
    Tiles start ((place start tensors).map Placed.range) (start + (octets tensors).length) := by
  induction tensors generalizing start with
  | nil => rfl
  | cons x more ih =>
    have hmore := ih (start + (elementBytes x.2.elements).length)
    rw [octets, List.flatMap_cons, List.length_append, ← Nat.add_assoc]
    exact ⟨rfl, Nat.le_add_right _ _, hmore⟩

/-- The octets in a range are those of its tensor. -/
theorem octets_around {start : Nat} {tensors : List (String × Tensor)} {p : Placed}
    (hp : p ∈ place start tensors) : ∃ before after, octets tensors = before ++ (p.raw ++ after) ∧
      p.start = start + before.length ∧ p.stop = p.start + p.raw.length := by
  -- The octets before the range grow with every tensor that is passed.
  induction tensors generalizing start with
  | nil => exact absurd hp List.not_mem_nil
  | cons x more ih =>
    rw [octets, List.flatMap_cons]
    rcases List.mem_cons.mp hp with rfl | hp
    · exact ⟨[], octets more, rfl, rfl, rfl⟩
    · obtain ⟨before, after, heq, hstart, hstop⟩ := ih hp
      refine ⟨elementBytes x.2.elements ++ before, after, ?_, ?_, hstop⟩
      · rw [List.append_assoc, ← heq]
        rfl
      · rw [hstart, List.length_append, Nat.add_assoc]

/-! ### The header -/

/-- Positions in range are read as they were written. -/
theorem pair_int64 {a b : Nat} (ha : a < 2 ^ 63) (hb : b < 2 ^ 63) :
    Json.Reader.pair Json.Reader.int64 [.array [.int a, .int b]] =
      some (Int64.ofNat a, Int64.ofNat b) := by
  have hint {n : Nat} (hn : n < 2 ^ 63) : Json.Reader.int64 [.int n] = some (Int64.ofNat n) := by
    rw [← Int64.toInt_ofNat_of_lt hn, Json.Reader.int64_int]
  change (do
    let first ← Json.Reader.int64 [.int a]
    let second ← Json.Reader.int64 [.int b]
    pure (first, second)) = _
  rw [hint ha, hint hb]
  rfl

open Json.Reader Json.Reader.Members in
/-- An entry is read as it was written. -/
theorem readEntry_entryJson (t : Tensor) {start stop : Nat} (hstart : start < 2 ^ 63)
    (hstop : stop < 2 ^ 63) : readEntry [entryJson t start stop] =
      some ⟨(ArchiveType.ofKind t.elements.kind).name, t.shape,
        (Int64.ofNat start, Int64.ofNat stop)⟩ := by
  rw [readEntry, entryJson, record_object]
  simp (disch := decide) only [get_eq, given_same, given_other, given_nil]
  rw [text_string, list_int64_shape, pair_int64 hstart hstop]
  rfl

theorem plain_entryJson {n : Nat} (t : Tensor) (start stop : Nat) :
    Json.Plain (n + 2) (entryJson t start stop) := by
  have hrange : Json.Plain (n + 1) (.array [.int start, .int stop]) := by
    refine .array ?_
    simp only [List.forall_mem_cons]
    exact ⟨.int _, .int _, List.forall_mem_nil _⟩
  refine .object ?_
  simp only [List.forall_mem_cons]
  exact ⟨.string _, Metadata.plain_shape t.shape, hrange, List.forall_mem_nil _⟩

/-- A table of texts is an object with the names in order. -/
theorem metadataJson_eq (metadata : List (String × String)) : metadataJson metadata =
    .object ((metadata.mergeSort fun x y => decide (x.1 ≤ y.1)).map fun x =>
      (x.1, .string x.2)) := by
  rw [metadataJson, Json.sorted]
  exact congrArg Json.object (mergeSort_map_values _ _)

/-- The table of texts is read back, in the order of its names. -/
theorem table_metadataJson {metadata : List (String × String)}
    (hnodup : (metadata.map (·.1)).Nodup) :
    Json.Reader.table Json.Reader.text [metadataJson metadata] =
      some (metadata.mergeSort fun x y => decide (x.1 ≤ y.1)) := by
  rw [metadataJson_eq]
  exact Json.Reader.table_written (fun x _ => Json.Reader.text_string x.2)
    (inOrder_mergeSort hnodup).nodup

theorem plain_metadataJson {n : Nat} (metadata : List (String × String)) :
    Json.Plain (n + 1) (metadataJson metadata) := by
  rw [metadataJson_eq]
  refine .object fun m hm => ?_
  obtain ⟨x, -, rfl⟩ := List.mem_map.mp hm
  exact .string _

/-- The table of texts as a member of the header; an empty one is left out. -/
def textMember (metadata : List (String × String)) : List (String × Json) :=
  if metadata.isEmpty then [] else [(metadataName, metadataJson metadata)]

/-- The members of the header. -/
def membersFor (placed : List Placed) (metadata : List (String × String)) : List (String × Json) :=
  (textMember metadata ++ placed.map Placed.member).mergeSort fun x y => decide (x.1 ≤ y.1)

section Header

variable {placed : List Placed} {metadata : List (String × String)}

theorem membersFor_perm (placed : List Placed) (metadata : List (String × String)) :
    (membersFor placed metadata).Perm (textMember metadata ++ placed.map Placed.member) :=
  List.mergeSort_perm _ _

theorem name_of_mem_textMember {x : String × Json} (hx : x ∈ textMember metadata) :
    x.1 = metadataName := by
  unfold textMember at hx
  split at hx
  · exact absurd hx List.not_mem_nil
  · rw [List.mem_singleton.mp hx]

variable (hnames : ∀ p ∈ placed, p.name ≠ metadataName)

include hnames

theorem name_of_mem_entries {x : String × Json} (hx : x ∈ placed.map Placed.member) :
    x.1 ≠ metadataName := by
  obtain ⟨p, hp, rfl⟩ := List.mem_map.mp hx
  exact hnames p hp

/-- The members stand in the order of their names, which are all different. -/
theorem inOrder_membersFor (horder : InOrder (placed.map Placed.member)) :
    InOrder (membersFor placed metadata) := by
  refine inOrder_mergeSort ?_
  rw [List.map_append, List.nodup_append]
  refine ⟨?_, horder.nodup, ?_⟩
  · unfold textMember
    split
    · exact List.nodup_nil
    · exact List.nodup_singleton _
  · -- A tensor is never called by the name of the table.
    rintro name htable _ hentry rfl
    obtain ⟨x, hx, rfl⟩ := List.mem_map.mp htable
    obtain ⟨y, hy, heq⟩ := List.mem_map.mp hentry
    exact name_of_mem_entries hnames hy (heq.trans (name_of_mem_textMember hx))

/-- Sorting mixes the table of texts into the entries, and reading takes it out again. -/
theorem entryMembers_membersFor (horder : InOrder (placed.map Placed.member)) :
    entryMembers (membersFor placed metadata) = placed.map Placed.member := by
  -- Two orders of one table are the same, so it is enough that the members are the same.
  refine ((inOrder_membersFor hnames horder).filter _).eq_of_perm horder ?_
  refine ((membersFor_perm placed metadata).filter _).trans ?_
  rw [List.filter_append, List.filter_eq_nil_iff.mpr, List.filter_eq_self.mpr, List.nil_append]
  · intro x hx
    simpa using name_of_mem_entries hnames hx
  · intro x hx
    simpa using name_of_mem_textMember hx

/-- The table of texts is found among the members again. -/
theorem metadataOf_membersFor (hnodup : (metadata.map (·.1)).Nodup) :
    metadataOf [] (membersFor placed metadata) =
      some (metadata.mergeSort fun x y => decide (x.1 ≤ y.1)) := by
  have hperm : ((membersFor placed metadata).filter (·.1 = metadataName)).Perm
      (textMember metadata) := by
    refine ((membersFor_perm placed metadata).filter _).trans ?_
    rw [List.filter_append, List.filter_eq_self.mpr, List.filter_eq_nil_iff.mpr, List.append_nil]
    · intro x hx
      simpa using name_of_mem_entries hnames hx
    · intro x hx
      simpa using name_of_mem_textMember hx
  unfold textMember at hperm
  split at hperm
  next hempty =>
    -- An empty table is not written, and where none is read it is empty.
    rw [List.isEmpty_iff] at hempty
    rw [metadataOf, hperm.eq_nil, hempty, List.mergeSort_nil]
    rfl
  next hsome =>
    rw [metadataOf, List.perm_singleton.mp hperm, List.foldlM_cons, table_metadataJson hnodup]
    rfl

omit hnames

theorem plain_membersFor (n : Nat) (placed : List Placed) (metadata : List (String × String)) :
    Json.Plain (n + 3) (.object (membersFor placed metadata)) := by
  refine .object fun m hm => ?_
  rcases List.mem_append.mp ((membersFor_perm placed metadata).mem_iff.mp hm) with htable | hentry
  · unfold textMember at htable
    split at htable
    · exact absurd htable List.not_mem_nil
    · rw [List.mem_singleton.mp htable]
      exact plain_metadataJson metadata
  · obtain ⟨p, -, rfl⟩ := List.mem_map.mp hentry
    exact plain_entryJson _ _ _

end Header

theorem length_withHeader (header data : Bytes) :
    (withHeader header data).length = 8 + header.length + data.length := by
  rw [withHeader, List.length_append, List.length_append, Bytes.littleEndian_length]

theorem headerSize_withHeader {header : Bytes} (hsmall : header.length ≤ maxHeader) (data : Bytes) :
    headerSize (withHeader header data) = header.length := by
  have hlimit : maxHeader < 256 ^ 8 := by decide
  rw [headerSize, withHeader, List.append_assoc, List.take_left' (Bytes.littleEndian_length _ _)]
  exact Bytes.ofLittleEndian_littleEndian (by omega)

/-- The members that were written are read. -/
theorem headerOf?_withHeader {members : List (String × Json)}
    (hplain : Json.Plain Json.maxDepth (.object members)) (horder : InOrder members)
    (hsmall : (Bytes.ofText (Json.object members).compact).length ≤ maxHeader) (data : Bytes) :
    headerOf? (withHeader (Bytes.ofText (Json.object members).compact) data) = some members := by
  have htext : (((withHeader (Bytes.ofText (Json.object members).compact) data).drop 8).take
      (Bytes.ofText (Json.object members).compact).length) =
        Bytes.ofText (Json.object members).compact := by
    rw [withHeader, List.append_assoc, List.drop_left' (Bytes.littleEndian_length _ _),
      List.take_left' rfl]
  -- No name stands twice, so taking the last of each name takes them all.
  have hread : Json.Reader.table List.getLast? [.object members] = some members := by
    have hwritten : Json.Reader.table List.getLast?
        [.object (members.map fun x => (x.1, id x.2))] = some members :=
      Json.Reader.table_written (fun x _ => rfl) horder.nodup
    simpa using hwritten
  -- Each step undoes one of the writer's: the size, the octets, the characters, the JSON text.
  rw [headerOf?, headerSize_withHeader hsmall, htext, Json.chars, Bytes.toChars_ofText,
    Json.readWhole?_compact hplain, Option.bind_some, headerMembers, hread, Option.map_some,
    horder.mergeSort_eq]

/-! ### Sizes -/

theorem length_le_writeMembers (members : List (String × Json)) :
    members.length ≤ (Json.writeMembers members).length := by
  -- A member is at least two quotation marks and a colon.
  induction members with
  | nil => exact Nat.zero_le _
  | cons m more ih =>
    cases more with
    | nil => simp [Json.writeMembers, Json.writeString]
    | cons m' more =>
      rw [Json.writeMembers_cons_cons]
      simp only [List.length_append, List.length_cons] at ih ⊢
      omega

/-- A header takes at least an octet for each member. -/
theorem length_le_header (members : List (String × Json)) :
    members.length ≤ (Bytes.ofText (Json.object members).compact).length := by
  have hchars (cs : List Char) : cs.length ≤ (cs.flatMap String.utf8EncodeChar).length := by
    induction cs with
    | nil => exact Nat.zero_le _
    | cons c more ih =>
      obtain ⟨a, tail, henc, -⟩ := Bytes.charAt?_utf8 c []
      rw [List.flatMap_cons, henc]
      simp only [List.length_append, List.length_cons]
      omega
  refine (length_le_writeMembers members).trans (Nat.le_trans ?_ (hchars _))
  rw [Json.compact, String.toList_ofList, Json.writeCompact]
  simp only [List.length_append, List.length_cons]
  omega

/-- A tensor that can be counted within the limit takes few octets. -/
theorem length_raw_le {t : Tensor} (hwithin : t.shape.CountsWithin maxCount) :
    (elementBytes t.elements).length ≤ maxCount * 8 := by
  have hcount := elementCount?_of_within t.isStatic hwithin
  obtain ⟨hsize, -, hlimit⟩ := elementCount?_eq_some hcount
  rw [length_elementBytes, Except.ok.inj (t.count_eq.symm.trans hsize)]
  exact Nat.mul_le_mul hlimit (width_le _)

theorem length_octets_le {tensors : List (String × Tensor)}
    (hwithin : ∀ x ∈ tensors, x.2.shape.CountsWithin maxCount) :
    (octets tensors).length ≤ tensors.length * (maxCount * 8) := by
  induction tensors with
  | nil => exact Nat.zero_le _
  | cons x more ih =>
    rw [List.forall_mem_cons] at hwithin
    have hfirst := length_raw_le hwithin.1
    have hmore := ih hwithin.2
    rw [octets, List.flatMap_cons, List.length_append, List.length_cons, Nat.succ_mul, Nat.add_comm]
    exact Nat.add_le_add hmore hfirst

/-! ### Reading what was placed -/

theorem ofName?_name (type : ArchiveType) : ArchiveType.ofName? type.name = some type := by
  cases type <;> decide +kernel

/-- A slice between two positions gives what stands between them. -/
theorem slice?_around {before raw after : Bytes}
    (hsize : (before ++ (raw ++ after)).length < 2 ^ 63) :
    slice? (before ++ (raw ++ after)) (Int64.ofNat before.length)
      (Int64.ofNat (before.length + raw.length)) = some raw := by
  simp only [List.length_append] at hsize
  have hstart : (Int64.ofNat before.length).toNatClampNeg = before.length :=
    Int64.toNatClampNeg_ofNat_of_lt (by omega)
  have hstop : (Int64.ofNat (before.length + raw.length)).toNatClampNeg =
      before.length + raw.length :=
    Int64.toNatClampNeg_ofNat_of_lt (by omega)
  have hnonneg : 0 ≤ Int64.ofNat before.length := Kernel.ofNat_nonneg (by omega)
  have hordered : Int64.ofNat before.length ≤ Int64.ofNat (before.length + raw.length) := by
    rw [Int64.ofNat_le_iff_le (by omega) (by omega)]
    omega
  have hspan : (Int64.ofNat (before.length + raw.length) -
      Int64.ofNat before.length).toNatClampNeg = raw.length := by
    rw [Int64.toNatClampNeg_sub_of_le hnonneg hordered, hstart, hstop]
    omega
  -- All three conditions of a slice hold, and what it takes has the length of `raw`.
  unfold slice?
  rw [if_pos ⟨hnonneg, hordered, by rw [hstop]; simp only [List.length_append]; omega⟩,
    hstart, hspan, List.drop_left' rfl, List.take_left' rfl]

namespace Placed

variable {p : Placed} {size base : Nat}

/-- The entry that the header stands for, behind a header that ends at `base`. -/
def entry (base : Nat) (p : Placed) : ArchiveEntry :=
  ⟨ArchiveType.ofKind p.tensor.elements.kind, p.tensor.shape, Int64.ofNat (base + p.start),
    Int64.ofNat (base + p.stop)⟩

/-- The entry of a tensor that was placed is admitted. -/
theorem readAs (hstop : p.stop = p.start + p.raw.length) (hinside : base + p.stop ≤ size)
    (hsize : size < 2 ^ 63) (hwithin : p.tensor.shape.CountsWithin maxCount) :
    ReadAs size base (entryJson p.tensor p.start p.stop) (p.entry base) := by
  have hcount := elementCount?_of_within p.tensor.isStatic hwithin
  have hvolume : p.tensor.elements.size = p.tensor.shape.volume :=
    Except.ok.inj (p.tensor.count_eq.symm.trans (elementCount?_eq_some hcount).1)
  refine ⟨_, readEntry_entryJson p.tensor (by omega) (by omega), {
    type := ofName?_name _
    shape := rfl
    isStatic := p.tensor.isStatic
    first := Kernel.ofNat_nonneg (by omega)
    ordered := (Int64.ofNat_le_iff_le (by omega) (by omega)).mpr (by omega)
    start := Int64.ofNat_add _ _
    stop := Int64.ofNat_add _ _
    inside := (Int64.ofNat_le_iff_le (by omega) (by omega)).mpr hinside
    filled := ⟨_, hcount, ?_⟩ }⟩
  -- The difference of the positions may be taken before they are cut to sixty-four bits.
  have hneeded : p.raw.length = p.tensor.shape.volume * (p.entry base).type.width := by
    rw [← hvolume]
    exact length_elementBytes p.tensor.elements
  change Int64.ofNat (base + p.stop) - Int64.ofNat (base + p.start) = Int64.ofNat _
  rw [← hneeded, hstop, ← Nat.add_assoc, Nat.add_comm (base + p.start), Int64.ofNat_add,
    Int64.add_sub_cancel]

/-- A tensor whose octets stand where its entry says is read. -/
theorem tensor_eq {a : Archive} {before after : Bytes}
    (hlookup : a.entries.lookup p.name = some (p.entry base))
    (hdata : a.data = before ++ (p.raw ++ after)) (hstart : base + p.start = before.length)
    (hstop : p.stop = p.start + p.raw.length) (hsize : a.data.length < 2 ^ 63) :
    a.tensor p.name = .ok (p.tensor.moveTo .cpu) := by
  have hslice : slice? a.data (p.entry base).start (p.entry base).stop = some p.raw := by
    rw [hdata] at hsize ⊢
    rw [entry, hstop, ← Nat.add_assoc, hstart]
    exact slice?_around hsize
  obtain ⟨t, ht, helements, hshape, hdevice⟩ :=
    Tensor.make_ok .cpu p.tensor.isStatic p.tensor.count_eq
  -- Made again of its own elements and shape, a tensor has only changed its device.
  have hmoved : t = p.tensor.moveTo .cpu := by
    cases t
    cases helements
    cases hshape
    cases hdevice
    rfl
  rw [Archive.tensor, tensor?, hlookup]
  dsimp only
  rw [hslice, Option.map_some, entry, raw, elements_elementBytes, ht, hmoved]
  rfl

end Placed

/-! ### Round trip -/

section RoundTrip

variable {tensors : List (String × Tensor)}

theorem place_names (start : Nat) (tensors : List (String × Tensor)) :
    (place start tensors).map Placed.name = tensors.map (·.1) := by
  conv => rhs; rw [← place_tensors start tensors, List.map_map]
  rfl

theorem inOrder_place (start : Nat) (horder : InOrder tensors) :
    InOrder ((place start tensors).map Placed.member) := by
  have hnames : (tensors.map (·.1)).Pairwise (· < ·) := List.pairwise_map.mpr horder
  rw [← place_names start, List.pairwise_map] at hnames
  exact List.pairwise_map.mpr hnames

theorem mem_of_mem_place {start : Nat} {p : Placed} (hp : p ∈ place start tensors) :
    (p.name, p.tensor) ∈ tensors := by
  rw [← place_tensors start tensors]
  exact List.mem_map.mpr ⟨p, hp, rfl⟩

/-- What is written: a header for the tensors in order, and their octets. -/
theorem encode_eq (hne : tensors ≠ []) (metadata : List (String × String))
    (hvalid : ∀ x ∈ tensors, Text.isBlankText x.1 = false ∧ x.1 ≠ metadataName) :
    encode (tensors.map fun x => (x.1, some x.2)) metadata =
      .ok (withHeader (Bytes.ofText (Json.object (membersFor
          (place 0 (tensors.mergeSort fun x y => decide (x.1 ≤ y.1))) metadata)).compact)
        (octets (tensors.mergeSort fun x y => decide (x.1 ≤ y.1)))) := by
  have hsome : (tensors.map fun x => (x.1, some x.2)).isEmpty = false := by
    rw [List.isEmpty_map, List.isEmpty_eq_false_iff]
    exact hne
  -- The writer looks at names in order; the order does not matter for their being valid.
  have hnames : ((tensors.mergeSort fun x y => decide (x.1 ≤ y.1)).map fun x =>
      (x.1, some x.2)).find? (fun x => !isTensorName x.1) = none := by
    rw [List.find?_eq_none]
    intro y hy
    obtain ⟨x, hx, rfl⟩ := List.mem_map.mp hy
    obtain ⟨hblank, hother⟩ := hvalid x (List.mem_mergeSort.mp hx)
    simp [isTensorName, hblank, hother]
  unfold encode
  rw [hsome, if_neg Bool.false_ne_true, mergeSort_map_values]
  dsimp only
  rw [hnames]
  dsimp only
  rw [layOut_eq]
  rfl

/-- A member of a header that gives a range. -/
def GivesRange (v : Json) (range : Nat × Nat) : Prop :=
  ∃ fields, v = .object fields ∧
    fields.lookup "data_offsets" = some (.array [.int range.1, .int range.2])

theorem Placed.givesRange (p : Placed) : GivesRange p.member.2 p.range :=
  ⟨_, rfl, rfl⟩

theorem matches_map {α β γ : Type} {R : β → γ → Prop} {xs : List α} {f : α → String × β}
    {g : α → String × γ} (h : ∀ x ∈ xs, (f x).1 = (g x).1 ∧ R (f x).2 (g x).2) :
    Matches R (xs.map f) (xs.map g) := by
  induction xs with
  | nil => exact .nil
  | cons x more ih =>
    rw [List.forall_mem_cons] at h
    exact .cons h.1 (ih h.2)

variable {sorted : List (String × Tensor)} {metadata : List (String × String)} {header : Bytes}

/-- A header holds a member for each tensor, so there cannot be so many that positions wrap
around. -/
theorem length_written_lt (hwithin : ∀ x ∈ sorted, x.2.shape.CountsWithin maxCount)
    (hheader : header = Bytes.ofText (Json.object (membersFor (place 0 sorted) metadata)).compact)
    (hsmall : header.length ≤ maxHeader) :
    (withHeader header (octets sorted)).length < 2 ^ 63 := by
  have hfew : sorted.length ≤ maxHeader := by
    have hmembers := length_le_header (membersFor (place 0 sorted) metadata)
    have hcount := (membersFor_perm (place 0 sorted) metadata).length_eq
    have hplace := congrArg List.length (place_names 0 sorted)
    -- A member for each tensor, an octet for each member, and a header of limited size.
    simp only [List.length_append, List.length_map] at hcount hplace
    rw [← hheader] at hmembers
    omega
  have hoctets := (length_octets_le hwithin).trans (Nat.mul_le_mul_right _ hfew)
  have hlimit : 8 + maxHeader + maxHeader * (maxCount * 8) < 2 ^ 63 := by decide
  rw [length_withHeader]
  omega

/-- The archive that is read behind a header. -/
def readBack (header : Bytes) (sorted : List (String × Tensor))
    (metadata : List (String × String)) : Archive where
  data := withHeader header (octets sorted)
  entries := (place 0 sorted).map fun p => (p.name, p.entry (8 + header.length))
  metadata := metadata.mergeSort fun x y => decide (x.1 ≤ y.1)

theorem names_readBack (header : Bytes) (sorted : List (String × Tensor))
    (metadata : List (String × String)) :
    (readBack header sorted metadata).names = sorted.map (·.1) := by
  rw [names, readBack, List.map_map]
  exact place_names 0 sorted

/-- Every tensor that was written is read. -/
theorem tensor_readBack (horder : InOrder sorted)
    (hsize : (withHeader header (octets sorted)).length < 2 ^ 63) {x : String × Tensor}
    (hx : x ∈ sorted) : (readBack header sorted metadata).tensor x.1 = .ok (x.2.moveTo .cpu) := by
  rw [← place_tensors 0 sorted] at hx
  obtain ⟨p, hp, rfl⟩ := List.mem_map.mp hx
  obtain ⟨before, after, heq, hstart, hstop⟩ := octets_around hp
  -- Names are different, so looking a name up finds the entry of its own tensor.
  have hlookup : (readBack header sorted metadata).entries.lookup p.name =
      some (p.entry (8 + header.length)) := by
    refine lookup_eq_some_of_mem ?_ (List.mem_map.mpr ⟨p, hp, rfl⟩)
    change (readBack header sorted metadata).names.Nodup
    rw [names_readBack]
    exact horder.nodup
  have hdata : (readBack header sorted metadata).data =
      (Bytes.littleEndian 8 header.length ++ header ++ before) ++ (p.raw ++ after) := by
    rw [readBack, withHeader, heq]
    simp only [List.append_assoc]
  refine Placed.tensor_eq hlookup hdata ?_ hstop hsize
  rw [hstart, List.length_append, List.length_append, Bytes.littleEndian_length]
  omega

/-- **What was written is read**, behind a header that is not too large. -/
theorem decode_withHeader (hne : sorted ≠ []) (horder : InOrder sorted)
    (hnames : ∀ x ∈ sorted, x.1 ≠ metadataName)
    (hwithin : ∀ x ∈ sorted, x.2.shape.CountsWithin maxCount) (hkeys : (metadata.map (·.1)).Nodup)
    (hheader : header = Bytes.ofText (Json.object (membersFor (place 0 sorted) metadata)).compact)
    (hsmall : header.length ≤ maxHeader) :
    decode (withHeader header (octets sorted)) = .ok (readBack header sorted metadata) := by
  have hplaced := inOrder_place 0 horder
  have hother : ∀ p ∈ place 0 sorted, p.name ≠ metadataName :=
    fun p hp => hnames _ (mem_of_mem_place hp)
  have hlength := length_withHeader header (octets sorted)
  have hsize := length_written_lt hwithin hheader hsmall
  rw [decode_eq_ok_iff, headerSize_withHeader hsmall]
  refine ⟨by omega, hsmall, membersFor (place 0 sorted) metadata, _, _, ?_,
    metadataOf_membersFor hother hkeys, ?_, ?_, rfl⟩
  · rw [hheader] at hsmall ⊢
    exact headerOf?_withHeader ((plain_membersFor 0 _ _).mono (by decide))
      (inOrder_membersFor hother hplaced) hsmall _
  · -- Each range ends where its octets end, and that is inside the data.
    rw [entryMembers_membersFor hother hplaced]
    refine matches_map fun p hp => ⟨rfl, ?_⟩
    obtain ⟨before, after, heq, hstart, hstop⟩ := octets_around hp
    have htotal := congrArg List.length heq
    simp only [List.length_append] at htotal
    exact Placed.readAs hstop (by omega) hsize (hwithin _ (mem_of_mem_place hp))
  · -- No entry would mean no tensor.
    intro hnone
    have hnothing := place_names 0 sorted
    rw [List.map_eq_nil_iff.mp hnone] at hnothing
    exact hne (List.map_eq_nil_iff.mp hnothing.symm)

/-- **Archives survive their octets.** Tensors with distinct names that are neither blank nor the
name of the table of texts, and a table of texts, can be written. In the header of what is written
the ranges, in the order of the octets of the names, cover the data from its start to its end
without a gap. If the header is not too large, the archive is read again: it lists the names in that
order, gives each tensor with its elements and its shape on the processor, and has the same table of
texts. -/
theorem written_reads_back {tensors : List (String × Tensor)} {metadata : List (String × String)}
    (hne : tensors ≠ []) (hnames : (tensors.map (·.1)).Nodup)
    (hvalid : ∀ x ∈ tensors, Text.isBlankText x.1 = false ∧ x.1 ≠ metadataName)
    (hwithin : ∀ x ∈ tensors, x.2.shape.CountsWithin maxCount)
    (hkeys : (metadata.map (·.1)).Nodup) :
    ∃ members header data ranges, header = Bytes.ofText (Json.object members).compact ∧
      encode (tensors.map fun x => (x.1, some x.2)) metadata = .ok (withHeader header data) ∧
      Matches GivesRange (entryMembers members) ranges ∧
      (ranges.map (·.1)).Perm (tensors.map (·.1)) ∧
      (ranges.map (·.1)).Pairwise (fun s t => Bytes.ofText s < Bytes.ofText t) ∧
      Tiles 0 (ranges.map (·.2)) data.length ∧
      (header.length ≤ maxHeader → ∃ a, decode (withHeader header data) = .ok a ∧
        a.names = ranges.map (·.1) ∧
        (∀ x ∈ tensors, a.tensor x.1 = .ok (x.2.moveTo .cpu)) ∧ a.metadata.Perm metadata) := by
  -- Of the sorted table only its members and its order matter.
  obtain ⟨sorted, hsorted⟩ : ∃ sorted, sorted = tensors.mergeSort fun x y => decide (x.1 ≤ y.1) :=
    ⟨_, rfl⟩
  have hperm : sorted.Perm tensors := hsorted ▸ List.mergeSort_perm _ _
  have horder : InOrder sorted := hsorted ▸ inOrder_mergeSort hnames
  have hrangeNames : ((place 0 sorted).map fun p => (p.name, p.range)).map (·.1) =
      sorted.map (·.1) := by
    rw [List.map_map]
    exact place_names 0 sorted
  refine ⟨membersFor (place 0 sorted) metadata, _, octets sorted,
    (place 0 sorted).map fun p => (p.name, p.range), rfl, ?_, ?_, ?_, ?_, ?_, fun hsmall => ?_⟩
  · rw [hsorted]
    exact encode_eq hne metadata hvalid
  · have hother : ∀ p ∈ place 0 sorted, p.name ≠ metadataName :=
      fun p hp => (hvalid _ (hperm.mem_iff.mp (mem_of_mem_place hp))).2
    rw [entryMembers_membersFor hother (inOrder_place 0 horder)]
    exact matches_map fun p _ => ⟨rfl, p.givesRange⟩
  · rw [hrangeNames]
    exact hperm.map _
  · rw [hrangeNames]
    exact List.pairwise_map.mpr (horder.imp Bytes.ofText_lt_ofText)
  · have htiles := tiles_place 0 sorted
    rw [Nat.zero_add] at htiles
    rwa [List.map_map]
  · have hwithin' : ∀ x ∈ sorted, x.2.shape.CountsWithin maxCount :=
      fun x hx => hwithin x (hperm.mem_iff.mp hx)
    have hdecode := decode_withHeader (fun hnone => hne (hnone ▸ hperm.symm).eq_nil) horder
      (fun x hx => (hvalid x (hperm.mem_iff.mp hx)).2) hwithin' hkeys rfl hsmall
    refine ⟨_, hdecode, (names_readBack _ _ _).trans hrangeNames.symm, fun x hx => ?_, ?_⟩
    · exact tensor_readBack horder (length_written_lt hwithin' rfl hsmall) (hperm.mem_iff.mpr hx)
    · exact List.mergeSort_perm _ _

/-- A number on another device and an empty matrix of half precision. -/
def numberAndNothing : List (String × Tensor) :=
  [("é", ⟨.int64 #[-7], [], ⟨"gpu", 1⟩, rfl, rfl⟩), ("a", ⟨.float16 #[], [2, 0], .cpu, rfl, rfl⟩)]

theorem sorted_numberAndNothing :
    (numberAndNothing.mergeSort fun x y => decide (x.1 ≤ y.1)) = numberAndNothing.reverse :=
  (inOrder_mergeSort (by decide)).eq_of_perm (by unfold InOrder; decide)
    ((List.mergeSort_perm _ _).trans (List.reverse_perm _).symm)

theorem members_numberAndNothing :
    membersFor (place 0 numberAndNothing.reverse) [("k", "v")] =
      (metadataName, .object [("k", .string "v")]) ::
        (place 0 numberAndNothing.reverse).map Placed.member := by
  have htext : textMember [("k", "v")] = [(metadataName, .object [("k", .string "v")])] := by
    rw [textMember, metadataJson_eq, List.mergeSort_singleton]
    rfl
  rw [membersFor, htext]
  exact (inOrder_mergeSort (by decide)).eq_of_perm (by unfold InOrder; decide)
    (List.mergeSort_perm _ _)

/-- Both are read again, and so is the table of texts. -/
theorem numberAndNothing_reads_back : ∃ file a,
    encode (numberAndNothing.map fun x => (x.1, some x.2)) [("k", "v")] = .ok file ∧
      decode file = .ok a ∧
      (∀ x ∈ numberAndNothing, a.tensor x.1 = .ok (x.2.moveTo .cpu)) ∧
      a.metadata = [("k", "v")] := by
  obtain ⟨members, header, data, ranges, -, hencode, -, -, -, -, hread⟩ :=
    @written_reads_back numberAndNothing [("k", "v")] (by decide) (by decide) (by decide)
      (by decide) (by decide)
  have hsmall : header.length ≤ maxHeader := by
    have hwritten := Except.ok.inj (hencode.symm.trans
      (encode_eq (by decide) [("k", "v")] (by decide)))
    rw [sorted_numberAndNothing, members_numberAndNothing] at hwritten
    have htotal : (withHeader header data).length = 152 := by
      rw [hwritten]
      decide +kernel
    rw [length_withHeader] at htotal
    have hlimit : 152 ≤ maxHeader := by decide
    omega
  obtain ⟨a, hdecode, -, htensors, hmetadata⟩ := hread hsmall
  exact ⟨_, a, hencode, hdecode, htensors, List.perm_singleton.mp hmetadata⟩

end RoundTrip

end Archive

end EngineHost
