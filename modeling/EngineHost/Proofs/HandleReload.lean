import EngineHost.Proofs.HandleExport

/-!
# Handles that were read

Reading a handle normalises it: blanks around the device type go, names that came in several texts
are joined into one list, the flag may have been a number, and what is left open gets its default. A
handle that came out of this is a fixed point of every export: written as a positional list, as
named fields or as JSON, and read again, it is the very same handle (`Handle.reloads_of_read`).

Handles in general have no such law, because a device type that no text means can be given to
`Handle.make`. What reading adds is `DeviceInfo.parse_ok`: a device that was read has a type that
is read as itself, and an index that is not negative. Everything else is `Handle.checked` and the
idempotence of defaults.
-/

namespace EngineHost

/-! ### What reading admits -/

/-- A device that was read from text has one of the two types that text can give it. -/
theorem Device.parse_ok {raw : String} {d : Device} (h : parse raw = .ok d) :
    d.type = "cpu" ∨ d.type = "cuda" := by
  -- However the type was found, it has to be one of the two.
  have hofType : ∀ {type : String} {index : Int64}, ofType type index = .ok d →
      d.type = "cpu" ∨ d.type = "cuda" := by
    intro type index hof
    unfold ofType at hof
    split at hof
    next htype =>
      cases hof
      exact htype
    next => cases hof
  unfold parse at h
  dsimp only at h
  split at h
  next =>
    -- Nothing at all is the processor.
    cases h
    exact .inl rfl
  next =>
  split at h
  next => exact hofType h
  next =>
  split at h
  next =>
    split at h
    next => cases h
    next => exact hofType h
  next => cases h

/-- What a device field admits: its type can be written again, and so can its index. -/
theorem DeviceInfo.parse_ok {raw : String} {d : DeviceInfo} (h : parse raw = .ok d) :
    (d.device.type = "cpu" ∨ d.device.type = "cuda") ∧ 0 ≤ d.device.index := by
  unfold parse at h
  split at h
  next =>
    split at h
    next => cases h
    next =>
    split at h
    next => cases h
    next hindex =>
    split at h
    next => cases h
    next htype =>
    split at h
    next => cases h
    next =>
      cases h
      have htypes := Device.parse_ok htype
      exact ⟨htypes, Int64.not_lt.mp hindex⟩
  next => cases h

namespace Handle

/-- A handle that was constructed is made of parts whose device was read from text. -/
theorem construct_ok {info : List FieldValue} {h : Handle} (hread : construct info = .ok h) :
    ∃ (p : HandleParts) (raw : String), DeviceInfo.parse raw = .ok p.device ∧ make p = .ok h := by
  unfold construct at hread
  split at hread
  next =>
    -- One field after the other; only the device is kept track of.
    obtain ⟨version, -, hread⟩ := bind_eq_ok_iff.mp hread
    dsimp only at hread
    split at hread
    next => cases hread
    obtain ⟨name, -, hread⟩ := bind_eq_ok_iff.mp hread
    obtain ⟨device, hdevice, hread⟩ := bind_eq_ok_iff.mp hread
    obtain ⟨raw, -, hparse⟩ := bind_eq_ok_iff.mp hdevice
    obtain ⟨engine, -, hread⟩ := bind_eq_ok_iff.mp hread
    obtain ⟨inputs, -, hread⟩ := bind_eq_ok_iff.mp hread
    obtain ⟨outputs, -, hread⟩ := bind_eq_ok_iff.mp hread
    obtain ⟨flag, -, hread⟩ := bind_eq_ok_iff.mp hread
    obtain ⟨metadata, -, hread⟩ := bind_eq_ok_iff.mp hread
    obtain ⟨platform, -, hread⟩ := bind_eq_ok_iff.mp hread
    obtain ⟨reserved, -, hmake⟩ := bind_eq_ok_iff.mp hread
    exact ⟨_, raw, hparse, hmake⟩
  next => cases hread

/-- Named fields are read as the list of their values is. -/
theorem exists_construct_of_deserialize {fields : List Field} {h : Handle}
    (hread : deserialize fields = .ok h) : ∃ info, construct info = .ok h := by
  unfold deserialize at hread
  split at hread
  next => cases hread
  next =>
    obtain ⟨info, -, hread⟩ := bind_eq_ok_iff.mp hread
    exact ⟨info, hread⟩

/-- **What reading makes of a handle**: its device comes back from its text, and defaults have
nothing left to do. -/
structure Settled (h : Handle) : Prop where
  device : DeviceInfo.parse h.device.text = .ok h.device
  defaults : h.toHandleParts.withDefaults = h.toHandleParts

/-- The device that a handle is given, with an empty type spelled out. -/
theorem device_of_make {p : HandleParts} {h : Handle} (hmake : make p = .ok h) :
    h.device.device = p.device.device.normalized := by
  rw [toHandleParts_of_make hmake]
  rfl

/-- A handle that was made is settled, if its device has a text form. -/
theorem settled_of_make {p : HandleParts} {h : Handle} (hmake : make p = .ok h)
    (htype : h.device.device.type = "cpu" ∨ h.device.device.type = "cuda")
    (hindex : 0 ≤ h.device.device.index) : h.Settled := by
  obtain ⟨hsignature, hdelim, -, -⟩ := h.checked
  refine ⟨DeviceInfo.parse_text htype hindex hsignature hdelim, ?_⟩
  rw [toHandleParts_of_make hmake, HandleParts.withDefaults_idem]

/-- The device of a handle that was constructed has a text form. -/
theorem device_of_construct {info : List FieldValue} {h : Handle}
    (hread : construct info = .ok h) :
    (h.device.device.type = "cpu" ∨ h.device.device.type = "cuda") ∧ 0 ≤ h.device.device.index := by
  obtain ⟨p, raw, hparse, hmake⟩ := construct_ok hread
  obtain ⟨htype, hindex⟩ := DeviceInfo.parse_ok hparse
  -- The type is not empty, so making the handle left the device as it was read.
  have hdevice : h.device.device = p.device.device := by
    have hne : p.device.device.type ≠ "" := by
      rcases htype with htype | htype <;> rw [htype] <;> decide
    rw [device_of_make hmake, Device.normalized, Device.typeName, if_neg hne]
  rw [hdevice]
  exact ⟨htype, hindex⟩

/-- What was constructed is settled. -/
theorem settled_of_construct {info : List FieldValue} {h : Handle}
    (hread : construct info = .ok h) : h.Settled := by
  obtain ⟨p, -, -, hmake⟩ := construct_ok hread
  obtain ⟨htype, hindex⟩ := device_of_construct hread
  exact settled_of_make hmake htype hindex

/-! ### The positional form -/

/-- A handle comes back from its positional list, where the payload is raw. -/
theorem Settled.construct_serialize {h : Handle} (hsettled : h.Settled) :
    construct h.serialize = .ok h := by
  -- Every field is read back on its own, the names and the device by what was checked of them.
  obtain ⟨-, -, hinputs, houtputs⟩ := h.checked
  have hinputs : readNames .inputNames (.string (joinNames h.inputNames)) = .ok h.inputNames :=
    congrArg Except.ok (splitNames_joinNames hinputs)
  have houtputs : readNames .outputNames (.string (joinNames h.outputNames)) = .ok h.outputNames :=
    congrArg Except.ok (splitNames_joinNames houtputs)
  have hengine : readEngine (.bytes h.engine) = .ok h.engine := rfl
  rw [serialize, ← make_eq hsettled.defaults]
  exact construct_eq_make rfl rfl ((readText_bind ..).trans hsettled.device) hengine hinputs
    houtputs (readFlag_flagText _) ((readText_bind ..).trans (Metadata.decode_encode _)) rfl rfl

/-! ### The JSON form -/

open Json.Reader Json.Reader.Members in
/-- A field with a text is read back from its JSON form, whatever becomes of numbers. -/
theorem read_field (keep : Bool) (name value : String) :
    Field.read keep [.object [("name", .string name), ("value", .string value)]] =
      some { name, value := .string value } := by
  have hvalue : List.mapM (FieldValue.ofJson? keep) [Json.string value] =
      some [.string value] := rfl
  rw [Field.read, record_object]
  -- The two names are different, so each member is given its own value.
  simp (disch := decide) only [get_eq, given_same, given_other, given_nil, text_string, hvalue]
  rfl

/-- The JSON form of a handle is the list of its named fields. -/
theorem list?_toJson (keep : Bool) (h : Handle) :
    Json.Reader.list? (Field.read keep) [h.toJson] = some (some h.flatten) := by
  let write (f : Field) : Json :=
    .object [("name", .string f.name), ("value", .string f.value.text)]
  have hfields : ∀ f ∈ h.flatten, Field.read keep [write f] = some f := by
    intro f hf
    obtain ⟨slot, -, rfl⟩ := List.mem_map.mp hf
    exact read_field keep slot.key (h.fieldText slot)
  have hitems := Json.Reader.list?_array hfields
  rw [flatten, List.map_map] at hitems
  exact hitems

/-- The JSON form is read as the named fields. -/
theorem readList_toJson (h : Handle) : Field.readList false [h.toJson] = some h.flatten := by
  rw [Field.readList, Json.Reader.list, list?_toJson]
  rfl

/-- The JSON form holds texts only, in two levels. -/
theorem plain_toJson {n : Nat} (h : Handle) : Json.Plain (n + 2) h.toJson := by
  refine .array fun v hv => ?_
  obtain ⟨slot, -, rfl⟩ := List.mem_map.mp hv
  refine .object ?_
  simp only [List.forall_mem_cons]
  exact ⟨.string _, .string _, List.forall_mem_nil _⟩

/-- The octets of the JSON form are read as the named fields are. -/
theorem ofJson_toJson (h : Handle) :
    ofJson (Json.chars (Bytes.ofText h.toJson.compact)) = deserialize h.flatten := by
  -- The reader takes ten thousand levels.
  have hread : Json.readWhole? h.toJson.compact.toList = some h.toJson :=
    Json.readWhole?_compact (plain_toJson (n := 9998) h)
  rw [ofJson, Json.chars, Bytes.toChars_ofText, hread, Option.bind_some, readList_toJson]

/-! ### All three forms -/

/-- **A handle that survives every export**: written in any of the three forms and read again, it is
the same in every part. -/
structure Reloads (h : Handle) : Prop where
  positional : construct h.serialize = .ok h
  named : deserialize h.flatten = .ok h
  json : ofJson (Json.chars (Bytes.ofText h.toJson.compact)) = .ok h

/-- **What is settled survives every export.** -/
theorem Settled.reloads {h : Handle} (hsettled : h.Settled) : h.Reloads := by
  have hnamed := deserialize_flatten hsettled.device hsettled.defaults
  exact ⟨hsettled.construct_serialize, hnamed, (ofJson_toJson h).trans hnamed⟩

/-- **Reload stability.** A handle that was read, from a positional list or from named fields in any
spelling, survives every export. -/
theorem reloads_of_read {h : Handle}
    (hread : (∃ info, construct info = .ok h) ∨ ∃ fields, deserialize fields = .ok h) :
    h.Reloads := by
  rcases hread with ⟨info, hread⟩ | ⟨fields, hread⟩
  · exact (settled_of_construct hread).reloads
  · obtain ⟨info, hread⟩ := exists_construct_of_deserialize hread
    exact (settled_of_construct hread).reloads

/-- A profile that is absent on one side, an output without axes, and an axis copied from an
input. -/
def unevenMetadata : Metadata where
  inputs := [{ name := "a", dtype := .float32, min := none, max := some [] },
    { name := "b", dtype := .float32, min := some [0], max := some [-1] }]
  outputs := [{ name := "y", dtype := .float32, shape := some [] },
    { name := "z", dtype := .float32, shape := some [.ofInput "b" 0, .ofSize 0] }]

/-- A positional list with a spelling of its own in every field: a sign and blanks in the device,
names in several texts, a flag inside a list, no reserved text, no platform. -/
def unevenList : List FieldValue :=
  [.list [.string "1"], .string "uneven", .string "+3% CUDA:7 %fam|x/model",
    .string "AQID\nBA==", .strings ["a", "", "b"], .list [.string "y%z"], .list [.string " 1 "],
    .string unevenMetadata.encode, .string "", .null]

/-- What the list means. -/
def unevenParts : HandleParts where
  name := "uneven"
  device := ⟨⟨"cuda", 3⟩, "fam|x/model"⟩
  engine := [1, 2, 3, 4]
  inputNames := ["a", "b"]
  outputNames := ["y", "z"]
  hardwareCompatible := true
  metadata := unevenMetadata

/-- The list is read as the parts that it means, spelling by spelling. -/
theorem construct_unevenList : construct unevenList = make unevenParts := by
  have hdevice : DeviceInfo.parse "+3% CUDA:7 %fam|x/model" = .ok unevenParts.device := by
    decide +kernel
  have hengine : readEngine (.string "AQID\nBA==") = .ok unevenParts.engine := by decide +kernel
  have hinputs : readNames .inputNames (.strings ["a", "", "b"]) = .ok unevenParts.inputNames := by
    decide +kernel
  have houtputs : readNames .outputNames (.list [.string "y%z"]) = .ok unevenParts.outputNames := by
    decide +kernel
  have hflag : readFlag (FieldValue.list [.string " 1 "]).unwrapSingle = .ok true := by
    decide +kernel
  exact construct_eq_make rfl rfl ((readText_bind ..).trans hdevice) hengine hinputs houtputs hflag
    ((readText_bind ..).trans (Metadata.decode_encode _)) rfl rfl

theorem reloads_uneven :
    ∃ h, construct unevenList = .ok h ∧ h.targetPlatform = "linux_x86_64" ∧ h.Reloads := by
  have hmake : (make unevenParts).toOption.isSome = true := by decide +kernel
  have hread := construct_unevenList.trans (eq_ok_get hmake)
  refine ⟨_, hread, ?_, reloads_of_read (.inl ⟨_, hread⟩)⟩
  rw [toHandleParts_of_make (eq_ok_get hmake)]
  rfl

end Handle

end EngineHost
