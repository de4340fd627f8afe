import EngineHost.Handle.Codec
import EngineHost.Proofs.HandleSound
import EngineHost.Proofs.JsonText

/-!
# Exported handles

A handle that is exported as named fields and read again is the same handle
(`Handle.deserialize_flatten`). Each field comes back on its own:

* `Metadata.decode_encode` — metadata, through JSON and base64;
* `DeviceInfo.parse_text` — the device, for types that have a text form;
* `Handle.splitNames_joinNames` — binding names, which a checked handle has free of the delimiter.

Metadata is a record of lists of records, some of whose members are left out where they say nothing.
`Json.Reader.Members.given` is what a name is given in an object; it is computed member by member,
so that reading a record is a matter of evaluating its names.
-/

namespace EngineHost

namespace Json.Reader

/-! ### Reading one value -/

theorem text_string (s : String) : text [.string s] = some s :=
  rfl

/-- An integer is written in decimal and read back. -/
theorem int64_int (n : Int64) : int64 [.int n.toInt] = some n := by
  change (Text.int64? (toString n.toInt) >>= fun m => some m) = some n
  rw [Text.int64?_toString]
  rfl

/-- Laid over nothing, values stand alone. -/
theorem layOver_nil (vs : List Json) : layOver [] vs = vs.map fun v => [v] := by
  induction vs with
  | nil => rfl
  | cons v more ih => rw [layOver, ih, List.map_cons]

/-- Items that are each read back are read back in a row. -/
theorem mapM_given {item : Reader α} {write : α → Json} {xs : List α}
    (h : ∀ x ∈ xs, item [write x] = some x) :
    ((xs.map write).map fun v => [v]).mapM item = some xs := by
  induction xs with
  | nil => rfl
  | cons x more ih =>
    rw [List.map_cons, List.map_cons, List.mapM_cons, h x (by simp),
      ih fun y hy => h y (by simp [hy])]
    rfl

/-- A written list is read back item by item. -/
theorem list?_array {item : Reader α} {write : α → Json} {xs : List α}
    (h : ∀ x ∈ xs, item [write x] = some x) :
    list? item [.array (xs.map write)] = some (some xs) := by
  cases xs with
  | nil => rfl
  | cons x more =>
    -- Items are laid over those of an earlier list under the same name; here there is none.
    have hitems := mapM_given h
    rw [← layOver_nil] at hitems
    change (do
      let items ← (layOver [] ((x :: more).map write)).mapM item
      pure (some (items.take ((x :: more).map write).length))) = _
    rw [hitems, List.length_map]
    change some (some ((x :: more).take (x :: more).length)) = _
    rw [List.take_length]

/-- A list that may be absent. -/
theorem list?_orNull {item : Reader α} {write : α → Json} {xs : Option (List α)}
    (h : ∀ l ∈ xs, ∀ x ∈ l, item [write x] = some x) :
    list? item [.orNull (fun l => .array (l.map write)) xs] = some xs := by
  cases xs with
  | none => rfl
  | some l => exact list?_array (h l rfl)

/-! ### Members that may be left out -/

/-- What a name is given. -/
def Members.given (members : List (String × Json)) (name : String) : List Json :=
  (members.filter fun x => Text.sameIgnoringCase x.1 name).map (·.2)

/-- A single object gives its own members. -/
theorem record_object (make : Members → Option α) (members : List (String × Json)) :
    record make [.object members] = make ⟨members⟩ := by
  change make ⟨[members].flatten⟩ = _
  rw [List.flatten_singleton]

namespace Members

theorem get_eq (members : List (String × Json)) (name : String) (read : Reader α) :
    get ⟨members⟩ name read = read (given members name) :=
  rfl

theorem given_nil (name : String) : given [] name = [] :=
  rfl

/-- A member is given under a name that is the same up to case. -/
theorem given_same {n name : String} (h : Text.sameIgnoringCase n name = true) (v : Json)
    (more : List (String × Json)) : given ((n, v) :: more) name = v :: given more name := by
  rw [given, List.filter_cons_of_pos (by exact h)]
  rfl

/-- A member of another name gives nothing. -/
theorem given_other {n name : String} (h : Text.sameIgnoringCase n name = false) (v : Json)
    (more : List (String × Json)) : given ((n, v) :: more) name = given more name := by
  rw [given, List.filter_cons_of_neg (by rw [h]; decide)]
  rfl

theorem given_append (first second : List (String × Json)) (name : String) :
    given (first ++ second) name = given first name ++ given second name := by
  rw [given, List.filter_append, List.map_append]
  rfl

/-- A member that may be left out gives what it gives, or nothing. -/
theorem given_optional (c : Prop) [Decidable c] (m : String × Json) (name : String) :
    given (if c then [] else [m]) name = if c then [] else given [m] name := by
  split <;> rfl

end Members

/-- A number that is left out where it is zero. -/
theorem int64_optional (n : Int64) : int64 (if n = 0 then [] else [.int n.toInt]) = some n := by
  split
  next h => exact congrArg some h.symm
  next => exact int64_int n

/-- A text that is left out where it is empty. -/
theorem text_optional (s : String) : text (if s = "" then [] else [.string s]) = some s := by
  split
  next h => exact congrArg some h.symm
  next => rfl

/-- A list that is left out where it is empty. -/
theorem list_optional {item : Reader α} {write : α → Json} {xs : List α}
    (h : ∀ x ∈ xs, item [write x] = some x) :
    list item (if xs.isEmpty then [] else [.array (xs.map write)]) = some xs := by
  split
  next hempty => rw [List.isEmpty_iff.mp hempty]; rfl
  next => rw [list, list?_array h]; rfl

/-- A list of integers that is null where it is empty. -/
theorem list_int64_shape (shape : List Int64) :
    list int64 [if shape.isEmpty then .null else .ints shape] = some shape := by
  split
  next hempty => rw [List.isEmpty_iff.mp hempty]; rfl
  next =>
    have hlist : list? int64 [.ints shape] = some (some shape) :=
      list?_array fun n _ => int64_int n
    rw [list, hlist]
    rfl

end Json.Reader

/-! ### Metadata -/

theorem DType.read_string (d : DType) : DType.read [.string d.name] = some d :=
  rfl

namespace Metadata

open Json.Reader Json.Reader.Members

theorem list?_ints (xs : Option (List Int64)) : list? int64 [.orNull .ints xs] = some xs :=
  list?_orNull fun _ _ n _ => int64_int n

/-- An input is read back from its object, name by name. -/
theorem readInput_inputJson (s : InputSpec) : readInput [inputJson s] = some s := by
  rw [readInput, inputJson, record_object]
  simp (disch := decide) only [get_eq, given_same, given_other, given_nil, text_string,
    DType.read_string, list?_ints]
  rfl

/-- An axis is read back, though each of its members may be left out. -/
theorem readDim_dimJson (d : DimSpec) : readDim [dimJson d] = some d := by
  rw [readDim, dimJson, record_object]
  simp (disch := decide) only [get_eq, given_append, given_optional, given_same, given_other,
    given_nil, ite_self, List.append_nil, List.nil_append, int64_optional, text_optional]
  rfl

/-- An output is read back, with its axes. -/
theorem readOutput_outputJson (s : OutputSpec) : readOutput [outputJson s] = some s := by
  have hshape : list? readDim [.orNull (fun dims => .array (dims.map dimJson)) s.shape] =
      some s.shape :=
    list?_orNull fun _ _ d _ => readDim_dimJson d
  rw [readOutput, outputJson, record_object]
  simp (disch := decide) only [get_eq, given_same, given_other, given_nil, text_string,
    DType.read_string, hshape]
  rfl

/-- **Metadata is read back from its object.** -/
theorem read_toJson (m : Metadata) : read [m.toJson] = some m := by
  have hinputs : list readInput (if m.inputs.isEmpty then [] else
      [.array (m.inputs.map inputJson)]) = some m.inputs :=
    list_optional fun s _ => readInput_inputJson s
  have houtputs : list readOutput (if m.outputs.isEmpty then [] else
      [.array (m.outputs.map outputJson)]) = some m.outputs :=
    list_optional fun s _ => readOutput_outputJson s
  rw [read, toJson, record_object]
  simp (disch := decide) only [get_eq, given_append, given_optional, given_same, given_other,
    given_nil, ite_self, List.append_nil, List.nil_append, hinputs, houtputs]
  rfl

/-! The form of metadata is plain: integers only, in five levels at most. -/

/-- A list is one level deeper than its items. -/
theorem plain_array {n : Nat} {write : α → Json} (h : ∀ a, Json.Plain n (write a)) (xs : List α) :
    Json.Plain (n + 1) (.array (xs.map write)) := by
  refine .array fun v hv => ?_
  obtain ⟨a, -, rfl⟩ := List.mem_map.mp hv
  exact h a

theorem plain_orNull {n : Nat} {write : α → Json} (h : ∀ a, Json.Plain n (write a))
    (xs : Option (List α)) : Json.Plain (n + 1) (.orNull (fun l => .array (l.map write)) xs) := by
  cases xs with
  | none => exact .null
  | some l => exact plain_array h l

theorem plain_shape {n : Nat} (shape : List Int64) :
    Json.Plain (n + 1) (if shape.isEmpty then .null else .ints shape) := by
  split
  · exact .null
  · exact plain_array (fun k => .int k.toInt) shape

/-- Leaving a member out does no harm. -/
theorem plain_optional {n : Nat} {m : String × Json} (h : Json.Plain n m.2) (c : Prop)
    [Decidable c] : ∀ m' ∈ (if c then [] else [m]), Json.Plain n m'.2 := by
  intro m' hm
  split at hm
  next => cases hm
  next => rwa [List.mem_singleton.mp hm]

theorem plain_inputJson {n : Nat} (s : InputSpec) : Json.Plain (n + 2) (inputJson s) := by
  have hints (xs : Option (List Int64)) : Json.Plain (n + 1) (.orNull .ints xs) :=
    plain_orNull (fun k => .int k.toInt) xs
  refine .object ?_
  simp only [List.forall_mem_cons]
  exact ⟨.string _, .string _, hints _, hints _, List.forall_mem_nil _⟩

theorem plain_dimJson {n : Nat} (d : DimSpec) : Json.Plain (n + 1) (dimJson d) := by
  refine .object ?_
  simp only [List.forall_mem_append]
  exact ⟨⟨plain_optional (.int _) _, plain_optional (.string _) _⟩, plain_optional (.int _) _⟩

theorem plain_outputJson {n : Nat} (s : OutputSpec) : Json.Plain (n + 3) (outputJson s) := by
  refine .object ?_
  simp only [List.forall_mem_cons]
  exact ⟨.string _, .string _, plain_orNull plain_dimJson _, List.forall_mem_nil _⟩

theorem plain_toJson {n : Nat} (m : Metadata) : Json.Plain (n + 5) m.toJson := by
  refine .object ?_
  simp only [List.forall_mem_append]
  exact ⟨plain_optional (plain_array plain_inputJson _) _,
    plain_optional (plain_array plain_outputJson _) _⟩

/-- **Metadata survives its field form.** -/
theorem decode_encode (m : Metadata) : decode m.encode = .ok m := by
  rw [encode]
  split
  next hempty =>
    -- Empty metadata has the empty text for its form.
    simp only [isEmpty, Bool.and_eq_true, List.isEmpty_iff] at hempty
    rw [decode, if_pos rfl]
    exact congrArg Except.ok (by cases m; simp_all)
  next =>
    -- The reader takes ten thousand levels, of which metadata needs five.
    have hread : Json.readWhole? m.toJson.compact.toList = some m.toJson :=
      Json.readWhole?_compact (plain_toJson (n := 9995) m)
    have hraw := Base64.decode_encode (Bytes.ofText m.toJson.compact)
    have hchars := Bytes.toChars_ofText m.toJson.compact
    -- The empty text is read as empty metadata, but no value is written as the empty text.
    have hne : Base64.encode (Bytes.ofText m.toJson.compact) ≠ "" := by
      intro hempty
      rw [hempty] at hraw
      rw [← Except.ok.inj hraw] at hchars
      rw [← hchars] at hread
      cases hread
    rw [decode, if_neg hne, hraw]
    dsimp only
    rw [Json.chars, hchars, hread, Option.bind_some, read_toJson]

end Metadata

/-! ### Devices and names -/

theorem not_mem_of_hasChar {c : Char} {s : String} (h : Text.hasChar c s = false) :
    c ∉ s.toList :=
  Text.hasChar_eq_false_iff.mp h

/-- A number in decimal has nothing but digits and a sign. -/
theorem not_mem_ofInt64 {c : Char} (hdigit : c.isDigit = false) (hminus : c ≠ '-') (n : Int64) :
    c ∉ (Text.ofInt64 n).toList := by
  have hdigits : c ∉ Nat.toDigits 10 n.toInt.natAbs := by
    intro hmem
    have hc := Nat.isDigit_of_mem_toDigits (by decide) (by decide) hmem
    rw [hdigit] at hc
    cases hc
  rw [Text.ofInt64, Text.toList_toString_int]
  split
  next => exact List.not_mem_cons_of_ne_of_not_mem hminus hdigits
  next => exact hdigits

theorem bindingDelim_not_mem_ofInt64 (n : Int64) : bindingDelim ∉ (Text.ofInt64 n).toList :=
  not_mem_ofInt64 (by decide) (by decide) n

/-- A device whose type has a text form comes back from its field. -/
theorem DeviceInfo.parse_text {d : DeviceInfo}
    (htype : d.device.type = "cpu" ∨ d.device.type = "cuda") (hindex : 0 ≤ d.device.index)
    (hne : d.signature ≠ "") (hdelim : Text.hasChar bindingDelim d.signature = false) :
    parse d.text = .ok d := by
  obtain ⟨⟨type, index⟩, signature⟩ := d
  have htypeName : Device.typeName ⟨type, index⟩ = type := by
    rcases htype with rfl | rfl <;> rfl
  have htext : text ⟨⟨type, index⟩, signature⟩ =
      Text.join (String.ofList [bindingDelim]) [Text.ofInt64 index, type, signature] := by
    rw [text, htypeName]
    simp only [Text.join, String.append_assoc]
    rfl
  -- Neither the index nor the type nor the signature holds the delimiter, so splitting undoes
  -- joining.
  have hsplit : Text.split bindingDelim (text ⟨⟨type, index⟩, signature⟩) =
      [Text.ofInt64 index, type, signature] := by
    rw [htext]
    refine Text.split_join (by simp) ?_
    simp only [List.forall_mem_cons]
    refine ⟨bindingDelim_not_mem_ofInt64 index, ?_, not_mem_of_hasChar hdelim,
      List.forall_mem_nil _⟩
    rcases htype with rfl | rfl <;> decide
  have hdevice : Device.parse type = .ok ⟨type, 0⟩ := by
    rcases htype with rfl | rfl <;> decide +kernel
  unfold parse
  rw [hsplit]
  dsimp only
  rw [Text.ofInt64, Text.int64?_toString]
  dsimp only
  rw [if_neg (Int64.not_lt.mpr hindex), hdevice]
  dsimp only
  rw [if_neg hne]

/-! ### Defaults -/

/-- A type that was spelled out stays as it is. -/
theorem Device.normalized_idem (d : Device) : d.normalized.normalized = d.normalized := by
  unfold normalized typeName
  by_cases h : d.type = "" <;> simp [h]

/-- Metadata that is kept is kept as it is. -/
theorem Metadata.normalized_idem (m : Metadata) : m.normalized.normalized = m.normalized := by
  unfold normalized
  simp only [List.map_map]
  congr 1
  refine List.map_congr_left fun o _ => ?_
  by_cases h : o.shape = some [] <;> simp [h]

/-- **Defaults are idempotent.** -/
theorem HandleParts.withDefaults_idem (p : HandleParts) :
    p.withDefaults.withDefaults = p.withDefaults := by
  have hhost : hostPlatform ≠ "" := by decide
  unfold withDefaults
  by_cases h : p.targetPlatform = "" <;>
    simp [h, hhost, Device.normalized_idem, Metadata.normalized_idem]

/-- A handle has the parts it was made of, with defaults. -/
theorem Handle.toHandleParts_of_make {p : HandleParts} {h : Handle} (hmake : make p = .ok h) :
    h.toHandleParts = p.withDefaults := by
  unfold make at hmake
  dsimp only at hmake
  split at hmake
  next => rw [← Except.ok.inj hmake]
  next => cases hmake

namespace Handle

/-- What the check of binding names admits. -/
theorem checkNames_ok {slot : Slot} {names seen : List String}
    (h : HandleParts.checkNames slot seen names = .ok ()) :
    (∀ n ∈ names, n ≠ "" ∧ bindingDelim ∉ n.toList ∧ n ∉ seen) ∧ names.Nodup := by
  obtain ⟨hnames, hnew⟩ := HandleParts.checkNames_seen_iff.mp h
  exact ⟨fun n hn => ⟨hnames.named n hn, Text.hasChar_eq_false_iff.mp (hnames.free n hn),
    hnew n hn⟩, hnames.nodup⟩

/-- Checked names come back from one text. -/
theorem splitNames_joinNames {slot : Slot} {names : List String}
    (h : HandleParts.checkNames slot [] names = .ok ()) : splitNames [joinNames names] = names := by
  obtain ⟨hnames, -⟩ := checkNames_ok h
  rw [splitNames, List.flatMap_singleton]
  cases names with
  | nil => rfl
  | cons n more =>
    have hsplit : Text.split bindingDelim (joinNames (n :: more)) = n :: more :=
      Text.split_join (by simp) fun m hm => (hnames m hm).2.1
    -- The empty text stands for no names at all; a single empty name would be lost here.
    have hne : joinNames (n :: more) ≠ "" := by
      intro hempty
      rw [hempty] at hsplit
      exact (hnames n (by simp)).1 (List.cons.inj hsplit).1.symm
    rw [if_neg hne, hsplit]

/-- The checks that a handle has passed, metadata apart. -/
theorem checked (h : Handle) : h.device.signature ≠ "" ∧
    Text.hasChar bindingDelim h.device.signature = false ∧
    HandleParts.checkNames .inputNames [] h.inputNames = .ok () ∧
    HandleParts.checkNames .outputNames [] h.outputNames = .ok () := by
  exact ⟨h.sound.signature, Text.hasChar_eq_false_iff.mpr h.sound.signature_free,
    HandleParts.checkNames_eq_ok_iff.mpr h.sound.inputs,
    HandleParts.checkNames_eq_ok_iff.mpr h.sound.outputs⟩

/-! ### Reading all fields -/

/-- What is taken of the value of a field before it is read. -/
def taken (slot : Slot) (v : FieldValue) : FieldValue :=
  match slot with
  | .engine | .inputNames | .outputNames => v
  | _ => v.unwrapSingle

/-- Fields that are named after their slots, or not at all, are taken. -/
theorem takeValues_named {slots : List Slot} {fields : List Field}
    (hnames : List.Forall₂ (fun slot (f : Field) => f.name = "" ∨ f.name = slot.key) slots fields)
    (i : Nat) :
    takeValues i slots fields =
      .ok (List.zipWith (fun slot (f : Field) => taken slot f.value) slots fields) := by
  -- The place only stands in the failures, so it may be any.
  induction hnames generalizing i with
  | nil => rfl
  | @cons slot f slots fields hname _ ih =>
    have hgood : ¬(f.name ≠ "" ∧ f.name ≠ slot.key) := by
      rintro ⟨hempty, hkey⟩
      exact hname.elim hempty hkey
    unfold takeValues
    rw [if_neg hgood, ih]
    cases slot <;> rfl

/-- All fields of an exported handle are taken, as the texts they are. -/
theorem takeValues_flatten (h : Handle) (i : Nat) (slots : List Slot) :
    takeValues i slots (slots.map fun slot =>
      { name := slot.key, value := .string (h.fieldText slot) }) =
      .ok (slots.map fun slot => .string (h.fieldText slot)) := by
  rw [takeValues_named (List.forall₂_map_right_iff.mpr (List.forall₂_same.mpr fun _ _ => .inr rfl)),
    List.zipWith_map_right, List.zipWith_self]
  -- A text is no list, so it is taken as it is.
  have htaken (slot : Slot) (s : String) : taken slot (.string s) = .string s := by
    cases slot <;> rfl
  simp only [htaken]

theorem readText_bind (slot : Slot) (s : String) (f : String → Except Malformed α) :
    (readText slot (.string s)).bind f = f s :=
  rfl

/-- A payload comes back from its text. -/
theorem readEngine_encode (bs : Bytes) : readEngine (.string (Base64.encode bs)) = .ok bs := by
  have hunwrap : (FieldValue.string (Base64.encode bs)).unwrapSingle = .string (Base64.encode bs) :=
    rfl
  simp only [readEngine, hunwrap, Base64.decode_encode]

/-- A flag comes back from its text. -/
theorem readFlag_flagText (b : Bool) :
    readFlag (FieldValue.string (flagText b)).unwrapSingle = .ok b := by
  cases b <;> decide +kernel

/-- Parts that leave nothing to defaults make the handle they are of. -/
theorem make_eq {h : Handle} (hdefaults : h.toHandleParts.withDefaults = h.toHandleParts) :
    make h.toHandleParts = .ok h := by
  obtain ⟨parts, hvalid⟩ := h
  dsimp only at hdefaults ⊢
  unfold make
  dsimp only
  split
  next => simp only [hdefaults]
  next heq =>
    rw [hdefaults, hvalid] at heq
    cases heq

/-- Fields that are read as the parts make the handle of these parts. -/
theorem construct_eq_make {version name device engine inputs outputs flag metadata platform
    reserved : FieldValue} {p : HandleParts}
    (hversion : readText .abiVersion version = .ok schemaVersion)
    (hname : readText .name name = .ok p.name)
    (hdevice : (readText .device device).bind DeviceInfo.parse = .ok p.device)
    (hengine : readEngine engine = .ok p.engine)
    (hinputs : readNames .inputNames inputs = .ok p.inputNames)
    (houtputs : readNames .outputNames outputs = .ok p.outputNames)
    (hflag : readFlag flag.unwrapSingle = .ok p.hardwareCompatible)
    (hmetadata : (readText .metadata metadata).bind Metadata.decode = .ok p.metadata)
    (hplatform : readText .targetPlatform platform = .ok p.targetPlatform)
    (hreserved : readText .reserved reserved = .ok p.reserved) :
    construct [version, name, device, engine, inputs, outputs, flag, metadata, platform,
      reserved] = make p := by
  simp only [construct, hversion, hname, hdevice, hengine, hinputs, houtputs, hflag, hmetadata,
    hplatform, hreserved]
  rfl

/-- **An exported handle is read as the same handle**, if its device has a text form and nothing in
it is left to defaults. -/
theorem deserialize_flatten {h : Handle} (hdevice : DeviceInfo.parse h.device.text = .ok h.device)
    (hdefaults : h.toHandleParts.withDefaults = h.toHandleParts) :
    deserialize h.flatten = .ok h := by
  -- From here on it is one field after the other.
  obtain ⟨-, -, hinputs, houtputs⟩ := h.checked
  rw [deserialize, if_neg (by simp [flatten]), flatten, takeValues_flatten, Except.bind]
  have hinputs : readNames .inputNames (.string (joinNames h.inputNames)) = .ok h.inputNames :=
    congrArg Except.ok (splitNames_joinNames hinputs)
  have houtputs : readNames .outputNames (.string (joinNames h.outputNames)) = .ok h.outputNames :=
    congrArg Except.ok (splitNames_joinNames houtputs)
  simp only [Slot.all, List.map_cons, List.map_nil, fieldText]
  rw [← make_eq hdefaults]
  exact construct_eq_make rfl rfl ((readText_bind ..).trans hdevice) (readEngine_encode _) hinputs
    houtputs (readFlag_flagText _) ((readText_bind ..).trans (Metadata.decode_encode _)) rfl rfl

end Handle

end EngineHost
