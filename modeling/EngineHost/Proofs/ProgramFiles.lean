import EngineHost.Program.File
import EngineHost.Proofs.HandleReload
import EngineHost.Proofs.JsonLayout
import EngineHost.Proofs.ProgramTracing

/-!
# Program files that come back

A program whose objects are engines is saved, loaded and bound as the same program with the same
engines (`Program.reloads_with_engines`). Three layers are crossed, and each has its inverse here or
before:

* an engine and its fields — `Handle.deserialize_flatten`, for handles that are settled;
* a program and its JSON value — `Program.read_of_toJson?`, record by record;
* a JSON value and its text — `Json.readFirst?_indented`, since the value is plain: the fields of an
  engine are texts, and every number is a size or an index.

Fields in general have no such law. A program may hold any field that its registry makes, and a
floating-point number comes back as its spelling.
-/

namespace EngineHost

namespace Program

/-! ### Records -/

section

open Json.Reader Json.Reader.Members

/-- Devices come back. -/
theorem readDevice_deviceJson (d : Device) : readDevice [deviceJson d] = some d := by
  rw [readDevice, deviceJson, record_object]
  simp (disch := decide) only [get_eq, given_same, given_other, given_nil, text_string, int64_int]
  rfl

/-- Names come back, also where there is no list of them. -/
theorem list?_strings (xs : Option (List String)) : list? text [.orNull .strings xs] = some xs :=
  list?_orNull fun _ _ s _ => text_string s

/-- Inputs come back. -/
theorem readInput_inputJson (i : ProgramInput) : readInput [inputJson i] = some i := by
  rw [readInput, inputJson, record_object]
  simp (disch := decide) only [get_eq, given_same, given_other, given_nil, text_string,
    DType.read_string, Metadata.list?_ints, readDevice_deviceJson]
  rfl

/-- Nodes come back. -/
theorem readNode_nodeJson (n : ProgramNode) : readNode [nodeJson n] = some n := by
  have hobjects : list text (if n.objects.isEmpty then [] else [.strings n.objects]) =
      some n.objects :=
    list_optional fun s _ => text_string s
  rw [readNode, nodeJson, record_object]
  -- Name by name; only the objects may be left out.
  simp (disch := decide) only [get_eq, given_append, given_optional, given_same, given_other,
    given_nil, ite_self, List.append_nil, List.nil_append, text_string, list?_strings, hobjects]
  rfl

end

/-! ### Plain values -/

theorem plain_strings {n : Nat} (ss : List String) : Json.Plain (n + 1) (.strings ss) :=
  Metadata.plain_array (fun s => .string s) ss

/-- Devices are plain, in one level. -/
theorem plain_deviceJson {n : Nat} (d : Device) : Json.Plain (n + 1) (deviceJson d) := by
  refine .object ?_
  simp only [List.forall_mem_cons]
  exact ⟨.string _, .int _, List.forall_mem_nil _⟩

/-- Inputs are plain, in two levels. -/
theorem plain_inputJson {n : Nat} (i : ProgramInput) : Json.Plain (n + 2) (inputJson i) := by
  have hshape : Json.Plain (n + 1) (.orNull .ints i.shape) :=
    Metadata.plain_orNull (fun k => .int k.toInt) i.shape
  refine .object ?_
  simp only [List.forall_mem_cons]
  exact ⟨.string _, .string _, hshape, plain_deviceJson _, List.forall_mem_nil _⟩

/-- Nodes are plain, in two levels. -/
theorem plain_nodeJson {n : Nat} (node : ProgramNode) : Json.Plain (n + 2) (nodeJson node) := by
  have hnames (xs : Option (List String)) : Json.Plain (n + 1) (.orNull .strings xs) :=
    Metadata.plain_orNull (fun s => .string s) xs
  refine .object ?_
  simp only [List.forall_mem_append, List.forall_mem_cons]
  exact ⟨⟨⟨.string _, .string _, hnames _, List.forall_mem_nil _⟩,
    Metadata.plain_optional (plain_strings _) _⟩, hnames _, List.forall_mem_nil _⟩

/-! ### Objects -/

/-- An object that comes back from a JSON value, which is plain. -/
def Reloads (o : StoredObject) : Prop :=
  ∃ v, objectJson? o = some v ∧ Json.Plain 3 v ∧ readObject [v] = some o

/-- An engine under a name, in exported form. -/
def storedEngine (x : String × Handle) : StoredObject :=
  ⟨x.1, EngineOp.className, some x.2.flatten⟩

open Json.Reader Json.Reader.Members in
/-- Engines come back: their fields are texts. -/
theorem reloads_storedEngine (x : String × Handle) : Reloads (storedEngine x) := by
  have hfields := x.2.list?_toJson true
  refine ⟨.object [("name", .string x.1), ("class", .string EngineOp.className),
    ("fields", x.2.toJson)], rfl, ?_, ?_⟩
  · refine .object ?_
    simp only [List.forall_mem_cons]
    exact ⟨.string _, .string _, x.2.plain_toJson, List.forall_mem_nil _⟩
  · rw [readObject, record_object]
    simp (disch := decide) only [get_eq, given_same, given_other, given_nil, text_string, hfields]
    rfl

/-- All objects at once, each written on its own. -/
theorem mapM_objectJson? {objects : List StoredObject} (h : ∀ o ∈ objects, Reloads o) :
    ∃ write : StoredObject → Json, objects.mapM objectJson? = some (objects.map write) ∧
      ∀ o ∈ objects, Json.Plain 3 (write o) ∧ readObject [write o] = some o := by
  -- Where an object has no value the choice does not matter, and every object has one.
  refine ⟨fun o => (objectJson? o).getD .null, ?_, fun o ho => ?_⟩
  · induction objects with
    | nil => rfl
    | cons o more ih =>
      rw [List.forall_mem_cons] at h
      obtain ⟨⟨v, hv, -⟩, hmore⟩ := h
      rw [List.mapM_cons, ih hmore, hv, List.map_cons, hv]
      rfl
  · obtain ⟨v, hv, hplain, hread⟩ := h o ho
    simp only [hv, Option.getD_some]
    exact ⟨hplain, hread⟩

/-! ### Programs -/

open Json.Reader Json.Reader.Members in
/-- **A program whose objects come back has a JSON value that is read as it**, and the value is
plain. -/
theorem read_of_toJson? {p : Program} (h : ∀ o ∈ p.objects, Reloads o) :
    ∃ v, p.toJson? = some v ∧ Json.Plain 5 v ∧ read [v] = some p := by
  obtain ⟨write, hwrite, hobject⟩ := mapM_objectJson? h
  refine ⟨_, by rw [toJson?, hwrite]; rfl, ?_, ?_⟩
  · have hobjects : Json.Plain 4 (.array (p.objects.map write)) := by
      refine .array fun v hv => ?_
      obtain ⟨o, ho, rfl⟩ := List.mem_map.mp hv
      exact (hobject o ho).1
    refine .object ?_
    simp only [List.forall_mem_append, List.forall_mem_cons]
    exact ⟨⟨⟨.string _, Metadata.plain_orNull plain_inputJson _, List.forall_mem_nil _⟩,
      Metadata.plain_optional hobjects _⟩, Metadata.plain_orNull plain_nodeJson _,
      Metadata.plain_orNull (fun s => .string s) _, List.forall_mem_nil _⟩
  · -- Each list is read back on its own, and then the program name by name.
    have hinputs : list? readInput
        [.orNull (fun is => .array (is.map inputJson)) p.inputs] = some p.inputs :=
      list?_orNull fun _ _ i _ => readInput_inputJson i
    have hnodes : list? readNode [.orNull (fun ns => .array (ns.map nodeJson)) p.nodes] =
        some p.nodes :=
      list?_orNull fun _ _ n _ => readNode_nodeJson n
    have hobjects : list readObject (if p.objects.isEmpty then [] else
        [.array (p.objects.map write)]) = some p.objects :=
      list_optional fun o ho => (hobject o ho).2
    rw [read, record_object]
    simp (disch := decide) only [get_eq, given_append, given_optional, given_same, given_other,
      given_nil, ite_self, List.append_nil, List.nil_append, List.isEmpty_map, text_string, hinputs,
      hnodes, hobjects, list?_strings]
    rfl

/-- **A program is loaded from its file as it was saved**: saving succeeds, and loading what it
wrote gives the program. -/
theorem load_save {p : Program} (h : ∀ o ∈ p.objects, Reloads o) (hvalid : p.validate = .ok ()) :
    ∃ text, p.save = .ok text ∧ load (Bytes.ofText text) = .ok p := by
  obtain ⟨v, hv, hplain, hread⟩ := read_of_toJson? h
  have hsave : p.save = .ok (v.indented ++ "\n") := by
    rw [save, hvalid, hv]
    rfl
  -- A file ends with a line end, which the reader leaves alone.
  have hstops : Json.Stops "\n".toList := Json.stops_cons (.inr (.inr (.inr rfl))) []
  have hfirst : Json.readFirst? (Json.chars (Bytes.ofText (v.indented ++ "\n"))) =
      some (v, "\n".toList) := by
    rw [Json.chars, Bytes.toChars_ofText, String.toList_append]
    exact Json.readFirst?_indented (hplain.mono (by decide)) hstops
  have hdecode : decode (Bytes.ofText (v.indented ++ "\n")) = .ok p := by
    rw [decode, hfirst, Option.bind_some]
    dsimp only
    rw [hread]
  exact ⟨_, hsave, bind_eq_ok_iff.mpr ⟨p, hdecode, bind_eq_ok_iff.mpr ⟨(), hvalid, rfl⟩⟩⟩

/-! ### Engines in programs -/

/-- What adding an engine does. -/
theorem addObject_ok {p q : Program} {x : String × Handle}
    (hadd : p.addObject hostRegistry x.1 (EngineOp.object (some x.2)) = .ok q) :
    q.objects = p.objects ++ [storedEngine x] ∧ x.1 ∉ p.objects.map (·.name) := by
  unfold addObject at hadd
  split at hadd
  next => cases hadd
  next hfresh =>
    obtain ⟨fields, hfields, rfl⟩ := map_eq_ok_iff.mp hadd
    cases hfields
    refine ⟨rfl, fun hmem => hfresh ?_⟩
    obtain ⟨o, ho, heq⟩ := List.mem_map.mp hmem
    exact List.any_eq_true.mpr ⟨o, ho, decide_eq_true heq⟩

/-- A program after engines were added, one after the other: it holds them behind the objects it
had, and no two of them under one name. -/
theorem objects_of_addObjects {engines : List (String × Handle)} {p q : Program}
    (hadd : engines.foldlM
      (fun p x => p.addObject hostRegistry x.1 (EngineOp.object (some x.2))) p = .ok q)
    (hnodup : (p.objects.map (·.name)).Nodup) :
    q.objects = p.objects ++ engines.map storedEngine ∧ (q.objects.map (·.name)).Nodup := by
  induction engines generalizing p with
  | nil =>
    cases hadd
    exact ⟨(List.append_nil _).symm, hnodup⟩
  | cons x more ih =>
    rw [List.foldlM_cons] at hadd
    obtain ⟨p', hx, hmore⟩ := bind_eq_ok_iff.mp hadd
    obtain ⟨hobjects, hfresh⟩ := addObject_ok hx
    have hnodup' : (p'.objects.map (·.name)).Nodup := by
      rw [hobjects, List.map_append, List.map_singleton]
      exact List.nodup_append_comm.mp (List.nodup_cons.mpr ⟨hfresh, hnodup⟩)
    obtain ⟨hq, hqnodup⟩ := ih hmore hnodup'
    rw [hobjects, List.append_assoc, List.singleton_append] at hq
    exact ⟨hq, hqnodup⟩

end Program

namespace BoundProgram

/-- The engines of a program as live objects. -/
def liveEngines (engines : List (String × Handle)) : List (String × Object) :=
  engines.map fun x => (x.1, EngineOp.object (some x.2))

/-- Stored engines become the engines they were stored from. -/
theorem rebuild_storedEngines {engines : List (String × Handle)}
    (hsettled : ∀ x ∈ engines, x.2.Settled) (program : String) :
    rebuild hostRegistry program (engines.map Program.storedEngine) =
      .ok (liveEngines engines) := by
  induction engines with
  | nil => rfl
  | cons x more ih =>
    rw [List.forall_mem_cons] at hsettled
    obtain ⟨hx, hmore⟩ := hsettled
    -- A settled handle is read back from its fields.
    have hread : Handle.deserialize x.2.flatten = .ok x.2 :=
      Handle.deserialize_flatten hx.device hx.defaults
    rw [List.map_cons, rebuild, Program.storedEngine, Option.getD_some,
      hostRegistry_unflatten hread, ih hmore]
    rfl

end BoundProgram

namespace Program

/-- **A program with engines survives its file.** It is saved; loading the file gives the program
back, and saving that writes the same text. Binding what was loaded succeeds exactly when the
operators are known, gives every object the engine that was added under its name, and runs like the
program that was never saved. -/
theorem reloads_with_engines {r : Registry} (hr : Registry.standard = .ok r) {opening p : Program}
    (hempty : opening.objects = []) {engines : List (String × Handle)}
    (hadd : engines.foldlM (fun p x => p.addObject r x.1 (EngineOp.object (some x.2))) opening =
      .ok p)
    (hmade : ∀ x ∈ engines, ∃ parts, Handle.make parts = .ok x.2)
    (htype : ∀ x ∈ engines, x.2.device.device.type = "cpu" ∨ x.2.device.device.type = "cuda")
    (hindex : ∀ x ∈ engines, 0 ≤ x.2.device.device.index) (hvalid : p.validate = .ok ()) :
    ∃ text q, p.save = .ok text ∧ load (Bytes.ofText text) = .ok q ∧ q = p ∧ q.save = .ok text ∧
      ((∃ b, BoundProgram.bind r q = .ok b) ↔
        ∀ n ∈ q.nodeList, (r.operator? n.op).isSome = true) ∧
      ∀ b, BoundProgram.bind r q = .ok b →
        (∀ x ∈ engines, b.objects.lookup x.1 = some (EngineOp.object (some x.2))) ∧
        ∃ b', BoundProgram.bind r p = .ok b' ∧
          ∀ mode given s, b.run mode given s = b'.run mode given s := by
  cases hr
  obtain ⟨hobjects, hnodup⟩ := objects_of_addObjects hadd (by rw [hempty]; exact List.nodup_nil)
  rw [hempty, List.nil_append] at hobjects
  -- All objects are engines, as there were none at the beginning.
  have hreloads : ∀ o ∈ p.objects, Reloads o := by
    intro o ho
    rw [hobjects] at ho
    obtain ⟨x, -, rfl⟩ := List.mem_map.mp ho
    exact reloads_storedEngine x
  have hsettled : ∀ x ∈ engines, x.2.Settled := by
    intro x hx
    obtain ⟨parts, hmake⟩ := hmade x hx
    exact Handle.settled_of_make hmake (htype x hx) (hindex x hx)
  have hrebuild : BoundProgram.rebuild hostRegistry p.name p.objects =
      .ok (BoundProgram.liveEngines engines) := by
    rw [hobjects]
    exact BoundProgram.rebuild_storedEngines hsettled p.name
  -- Binding can only fail at the operators, for the objects are rebuilt.
  have hbind : ∀ b, BoundProgram.bind hostRegistry p = .ok b ↔
      b = ⟨p, hostRegistry, BoundProgram.liveEngines engines⟩ ∧
        ∀ n ∈ p.nodeList, (hostRegistry.operator? n.op).isSome = true := by
    intro b
    rw [BoundProgram.bind_ok_iff, hrebuild]
    simp only [hvalid, true_and, Except.ok.injEq, exists_eq_left']
  -- No name stands twice, so each is looked up as the engine it was given to.
  have hlookup : ∀ x ∈ engines, (BoundProgram.liveEngines engines).lookup x.1 =
      some (EngineOp.object (some x.2)) := by
    intro x hx
    rw [hobjects, List.map_map] at hnodup
    refine lookup_eq_some_of_mem ?_ (List.mem_map_of_mem hx)
    rw [BoundProgram.liveEngines, List.map_map]
    exact hnodup
  obtain ⟨text, hsave, hload⟩ := load_save hreloads hvalid
  refine ⟨text, p, hsave, hload, rfl, hsave, ⟨?_, fun hknown => ?_⟩, fun b hb => ?_⟩
  · rintro ⟨b, hb⟩
    exact ((hbind b).mp hb).2
  · exact ⟨_, (hbind _).mpr ⟨rfl, hknown⟩⟩
  · obtain ⟨rfl, -⟩ := (hbind b).mp hb
    exact ⟨hlookup, _, hb, fun _ _ _ => rfl⟩

open BoundProgram (copyAndRun turningHandle turningHandle_eq turning_fitsWidths)

/-- The parts of an engine on another device, with texts that have to be escaped. -/
def distantParts : HandleParts where
  name := "a \"<b>\" & c"
  device := ⟨⟨"cuda", 1⟩, "sm|90"⟩
  engine := [0, 255, 10]
  inputNames := ["x", "y z"]
  outputNames := ["é"]
  hardwareCompatible := true
  metadata := { outputs := [{ name := "é", dtype := .float32, shape := some [] }] }
  reserved := "\\ \n"

/-- The engine of these parts. -/
def distantEngine : Handle :=
  (Handle.make distantParts).toOption.get (by decide +kernel)

/-- The distant engine is made of its parts. -/
theorem distantEngine_eq : Handle.make distantParts = .ok distantEngine :=
  eq_ok_get _

/-- A program before its engines are added: it has an input without a shape and a size that is not
known. -/
def awaiting : Program :=
  { copyAndRun turningHandle with
    name := "tab\t<two>"
    inputs := some [{ name := "x", dtype := .float32, shape := some [2, -1], device := .cpu },
      { name := "u", dtype := .float32 }]
    objects := [] }

/-- The engines to add: one that was built on this host, and the distant one. -/
def twoEngines : List (String × Handle) :=
  [("engine", turningHandle), ("far", distantEngine)]

/-- The program with its engines. -/
def staffed : Program :=
  { awaiting with objects := twoEngines.map storedEngine }

/-- Nothing is lost on the way: not the escaped texts, nor the device, nor what is left open. -/
theorem reloads_with_engines_staffed :
    ∃ text, staffed.save = .ok text ∧ load (Bytes.ofText text) = .ok staffed ∧
      ∃ b, BoundProgram.bind hostRegistry staffed = .ok b ∧
        b.objects.lookup "engine" = some (EngineOp.object (some turningHandle)) ∧
        b.objects.lookup "far" = some (EngineOp.object (some distantEngine)) := by
  have hbuilt := Handle.builtFrom_of_buildTextHandle turning_fitsWidths turningHandle_eq
  have hmade : ∀ x ∈ twoEngines, ∃ parts, Handle.make parts = .ok x.2 := by
    simp only [twoEngines, List.forall_mem_cons]
    exact ⟨⟨_, Handle.make_eq hbuilt.defaults⟩, ⟨_, distantEngine_eq⟩, List.forall_mem_nil _⟩
  have htype : ∀ x ∈ twoEngines,
      x.2.device.device.type = "cpu" ∨ x.2.device.device.type = "cuda" := by
    simp only [twoEngines, List.forall_mem_cons]
    exact ⟨.inl (by rw [hbuilt.device]; rfl), .inr rfl, List.forall_mem_nil _⟩
  have hindex : ∀ x ∈ twoEngines, 0 ≤ x.2.device.device.index := by
    simp only [twoEngines, List.forall_mem_cons]
    exact ⟨by rw [hbuilt.device]; decide, by decide +kernel, List.forall_mem_nil _⟩
  have hadd : twoEngines.foldlM (fun p x =>
      p.addObject hostRegistry x.1 (EngineOp.object (some x.2))) awaiting = .ok staffed := rfl
  obtain ⟨text, q, hsave, hload, rfl, -, hbinds, hengines⟩ :=
    reloads_with_engines Registry.standard_eq rfl hadd hmade htype hindex rfl
  obtain ⟨b, hb⟩ := hbinds.mpr (by decide +kernel)
  obtain ⟨hlookup, -⟩ := hengines b hb
  rw [twoEngines, List.forall_mem_cons, List.forall_mem_singleton] at hlookup
  exact ⟨text, hsave, hload, b, hb, hlookup⟩

end Program

end EngineHost
