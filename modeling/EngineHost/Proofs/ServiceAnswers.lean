import EngineHost.Proofs.MessageText
import EngineHost.Proofs.NodeOrder
import EngineHost.Service.Handler

/-!
# What is answered to a run

A run or a trace that is answered with the status of success was made on the inputs of the request
and gave one value for each output of the program, in order (`Service.respond_in_full`). If all
elements of these values are finite, the body is one JSON object with the id of the request and a
message for each output, which carries the value under its name. If not, the body is empty: the
status is out before the values turn out to have no JSON form, and nothing takes it back
(`Service.respond_empty`).

Where operators keep to their modes, as those of the host do (`hostRegistry_keepsModes`), a run
makes tensors of tensors and a trace symbols of symbols (`BoundProgram.run_suits`), so a trace is
always answered in full.
-/

namespace EngineHost

/-! ### Values of a mode -/

namespace Value

/-- The values of a mode: tensors of a run, symbols of a trace. -/
def Suits : Mode → Value → Prop
  | .concrete, .tensor _ => True
  | .symbolic, .symbol _ => True
  | _, _ => False

/-- All elements of a value are finite numbers; a symbol has none. -/
def AllFinite : Value → Prop
  | .tensor t => t.elements.AllFinite
  | .symbol _ => True

/-- A symbol has no elements that could be infinite. -/
theorem Suits.allFinite {v : Value} (h : v.Suits .symbolic) : v.AllFinite := by
  cases v with
  | tensor t => exact h.elim
  | symbol d => exact trivial

end Value

/-- **An operator keeps to its modes**: its kernel on descriptors gives descriptors, and the one on
tensors gives tensors. -/
structure Operator.KeepsModes (op : Operator) : Prop where
  symbolic : ∀ inputs objects s results, (op.symbolic inputs objects s).1 = .ok results →
    ∃ found, results = Value.symbols found
  concrete : ∀ inputs objects s results, (op.concrete inputs objects s).1 = .ok results →
    ∃ outs, results = Value.tensors outs

/-- All operators of a registry keep to their modes. -/
def Registry.KeepsModes (r : Registry) : Prop :=
  ∀ entry ∈ r.operators, entry.2.KeepsModes

/-- Pure kernels keep to their modes. -/
theorem Native.pureKernel_keepsModes (f : List Descriptor → Except Failure (List Descriptor))
    (g : List Tensor → Except Failure (List Tensor)) :
    Operator.KeepsModes ⟨pureKernel Value.symbols f, pureKernel Value.tensors g⟩ := by
  constructor
  · intro inputs objects s results hok
    obtain ⟨found, -, rfl⟩ := map_eq_ok_iff.mp hok
    exact ⟨found, rfl⟩
  · intro inputs objects s results hok
    obtain ⟨outs, -, rfl⟩ := map_eq_ok_iff.mp hok
    exact ⟨outs, rfl⟩

/-- The engine operator keeps to its modes. -/
theorem EngineOp.operator_keepsModes : EngineOp.operator.KeepsModes := by
  constructor
  · intro inputs objects s results hok
    change (EngineOp.symbolic inputs objects s).1 = _ at hok
    unfold EngineOp.symbolic at hok
    split at hok
    next => cases hok
    next =>
    obtain ⟨found, -, rfl⟩ := map_eq_ok_iff.mp hok
    exact ⟨found, rfl⟩
  · intro inputs objects s results hok
    change (EngineOp.concrete inputs objects s).1 = _ at hok
    unfold EngineOp.concrete at hok
    split at hok
    next => cases hok
    next =>
    obtain ⟨outs, -, rfl⟩ := map_eq_ok_iff.mp hok
    exact ⟨outs, rfl⟩

/-- The operators of the host keep to their modes. -/
theorem hostRegistry_keepsModes : hostRegistry.KeepsModes := by
  simp only [Registry.KeepsModes, hostRegistry, List.forall_mem_cons]
  exact ⟨Native.pureKernel_keepsModes _ _, Native.pureKernel_keepsModes _ _,
    Native.pureKernel_keepsModes _ _, EngineOp.operator_keepsModes, List.forall_mem_nil _⟩

/-- An operator that keeps to its modes gives values of the mode it is called in. -/
theorem Registry.KeepsModes.invoke_suits {r : Registry} (hmodes : r.KeepsModes) {mode : Mode}
    {name : String} {inputs : List (Option Value)} {objects : List Object} {s s' : Station}
    {results : List (Option Value)}
    (hok : r.invoke mode name inputs objects s = (.ok results, s')) :
    ∀ v ∈ results, ∃ x, v = some x ∧ x.Suits mode := by
  unfold invoke at hok
  split at hok
  next => cases hok
  next op hop =>
  have hkeeps := hmodes _ (mem_of_lookup hop)
  -- The mode says which kernel is called.
  cases mode with
  | symbolic =>
    dsimp only at hok
    split at hok
    next => cases hok
    next ds _ =>
    obtain ⟨found, rfl⟩ := hkeeps.symbolic _ _ _ _ (congrArg Prod.fst hok)
    simp only [Value.symbols, List.forall_mem_map]
    exact fun d _ => ⟨_, rfl, trivial⟩
  | concrete =>
    dsimp only at hok
    split at hok
    next => cases hok
    next ts _ =>
    obtain ⟨outs, rfl⟩ := hkeeps.concrete _ _ _ _ (congrArg Prod.fst hok)
    simp only [Value.tensors, List.forall_mem_map]
    exact fun t _ => ⟨_, rfl, trivial⟩
  | other n => cases hok

namespace BoundProgram

variable {b : BoundProgram} {mode : Mode}

/-- All values that are defined are there, and of a mode. -/
def Env.Suits (mode : Mode) (env : Env) : Prop :=
  ∀ x ∈ env, ∃ v, x.2 = some v ∧ v.Suits mode

/-- Taking the inputs defines values that are given. -/
theorem takeInputs_suits {program : String} {given : List (String × Option Value)} {env env' : Env}
    {inputs : List ProgramInput} (hgiven : ∀ x ∈ given, ∀ v ∈ x.2, v.Suits mode)
    (henv : Env.Suits mode env) (hok : takeInputs program given env inputs = .ok env') :
    Env.Suits mode env' := by
  -- The table grows by each input that is taken.
  induction inputs generalizing env with
  | nil =>
    cases hok
    exact henv
  | cons spec more ih =>
    rw [takeInputs] at hok
    split at hok
    next => cases hok
    next v hv =>
    split at hok
    next => cases hok
    next =>
    have hlookup : given.lookup spec.name = some (some v) := Option.join_eq_some_iff.mp hv
    refine ih (List.forall_mem_cons.mpr ⟨⟨v, rfl, ?_⟩, henv⟩) hok
    exact hgiven _ (mem_of_lookup hlookup) v rfl

/-- All calls keep the values in their mode. -/
theorem callNodes_suits (hmodes : b.registry.KeepsModes) {nodes : List ProgramNode}
    {env env' : Env} {s s' : Station} (henv : Env.Suits mode env)
    (hok : b.callNodes mode env nodes s = (.ok env', s')) : Env.Suits mode env' := by
  -- The table and the station change from call to call.
  induction nodes generalizing env s with
  | nil =>
    cases hok
    exact henv
  | cons n more ih =>
    obtain ⟨between, s₁, hnode, hmore⟩ := callNodes_cons_eq_ok_iff.mp hok
    obtain ⟨values, hinvoke, -, rfl⟩ := callNode_eq_ok_iff.mp hnode
    refine ih ?_ hmore
    -- New values come from the call, which keeps to the mode.
    rw [Env.Suits, bindOutputs_eq, List.forall_mem_append]
    refine ⟨fun x hx => ?_, henv⟩
    exact hmodes.invoke_suits hinvoke _ (List.of_mem_zip (List.mem_reverse.mp hx)).2

/-- A run that succeeds gives one value for each output. -/
theorem length_run {given : List (String × Option Value)} {s : Station}
    {outs : List (Option Value)} (hok : (b.run mode given s).1 = .ok outs) :
    outs.length = b.program.outputList.length := by
  obtain ⟨-, env, final, s₁, -, -, rfl⟩ := run_eq_ok_iff.mp hok
  exact List.length_map _

/-- **A run with operators that keep to their modes** gives values that are there, and of its
mode. -/
theorem run_suits {r : Registry} (hmodes : r.KeepsModes) {p : Program} (hbind : bind r p = .ok b)
    {given : List (String × Option Value)} (hgiven : ∀ x ∈ given, ∀ v ∈ x.2, v.Suits mode)
    {s : Station} {outs : List (Option Value)} (hok : (b.run mode given s).1 = .ok outs) :
    ∀ out ∈ outs, ∃ v, out = some v ∧ v.Suits mode := by
  obtain ⟨hvalid, rfl⟩ := valid_of_bind hbind
  obtain ⟨-, env, final, s₁, hinputs, hnodes, rfl⟩ := run_eq_ok_iff.mp hok
  have hfinal := callNodes_suits hmodes
    (takeInputs_suits hgiven (List.forall_mem_nil _) hinputs) hnodes
  rw [List.forall_mem_map]
  intro o ho
  -- The check of the program says that every output is defined in the end.
  obtain ⟨v, hv⟩ := exists_lookup (mem_names_of_output hvalid hinputs hnodes ho)
  rw [hv, Option.join_some]
  exact hfinal _ (mem_of_lookup hv)

end BoundProgram

/-! ### Messages of values -/

namespace TensorMessage

/-- **A message carries a value** under a name: its element type, shape and device, and of a tensor
all elements, as far as the numbers of a message hold them. -/
structure Carries (m : TensorMessage) (name : String) (v : Value) : Prop where
  name : m.name = name
  dtype : m.dtype = v.descriptor.dtype
  shape : m.shape = v.descriptor.shape
  device : m.device = v.descriptor.device
  elements : ∀ t, v = .tensor t → t.elements.Returns (m.elements t.elements.kind)

/-- The message of a finite value carries it. -/
theorem carries_ofValue (name : String) {v : Value} (hfinite : v.AllFinite) :
    (ofValue name v).Carries name v := by
  cases v with
  | tensor t =>
    refine ⟨rfl, rfl, rfl, rfl, ?_⟩
    rintro _ ⟨⟩
    exact returns_elements hfinite rfl
  | symbol d =>
    refine ⟨rfl, rfl, rfl, rfl, ?_⟩
    rintro _ ⟨⟩

/-- The numbers in the message of a value are finite exactly if its elements are. -/
theorem ofValue_finite_iff (name : String) (v : Value) :
    (∀ x ∈ (ofValue name v).data, x.isFinite = true) ↔ v.AllFinite := by
  cases v with
  | tensor t => exact numbers_finite_iff t.elements
  | symbol d => exact iff_of_true (List.forall_mem_nil _) trivial

end TensorMessage

namespace Service

/-! ### Inputs of a request -/

variable {mode : Mode}

/-- The inputs of a request are values of its mode. -/
theorem takeInputs_suits (hmode : mode = .concrete ∨ mode = .symbolic)
    {messages : List TensorMessage} {taken given : List (String × Option Value)}
    (htaken : ∀ x ∈ taken, ∀ v ∈ x.2, v.Suits mode)
    (hok : takeInputs mode taken messages = .ok given) :
    ∀ x ∈ given, ∀ v ∈ x.2, v.Suits mode := by
  -- What was taken grows from message to message.
  induction messages generalizing taken with
  | nil =>
    cases hok
    exact htaken
  | cons m more ih =>
    rw [takeInputs] at hok
    split at hok
    next => cases hok
    next =>
    split at hok
    next => cases hok
    next =>
    dsimp only at hok
    split at hok
    next => cases hok
    next v hv =>
    refine ih (List.forall_mem_append.mpr ⟨htaken, List.forall_mem_singleton.mpr ?_⟩) hok
    rintro _ ⟨⟩
    -- A run takes the message for a tensor, a trace for a descriptor.
    rcases hmode with rfl | rfl
    · rw [if_neg (by decide)] at hv
      obtain ⟨t, -, rfl⟩ := map_eq_ok_iff.mp hv
      exact trivial
    · rw [if_pos rfl] at hv
      obtain ⟨d, -, rfl⟩ := map_eq_ok_iff.mp hv
      exact trivial

/-- All inputs of a request are values of its mode. -/
theorem inputs_suits (hmode : mode = .concrete ∨ mode = .symbolic) {served : Served}
    {messages : List TensorMessage} {given : List (String × Option Value)}
    (hok : inputs served mode messages = .ok given) : ∀ x ∈ given, ∀ v ∈ x.2, v.Suits mode := by
  unfold inputs at hok
  split at hok
  next h =>
    -- A trace without messages is of the declared inputs, which are symbols.
    cases hok
    rintro x hx v hv
    obtain ⟨i, -, rfl⟩ := List.mem_map.mp hx
    cases hv
    rw [h.1]
    exact trivial
  next => exact takeInputs_suits hmode (List.forall_mem_nil _) hok

/-! ### The body of an answer -/

/-- **An answer in full**: one JSON object with the id of the request and, for each output in order,
a message that carries its value under its name. -/
def InFull (body id : String) (names : List String) (outs : List Value) : Prop :=
  ∃ members entries, Json.readWhole? body.toList = some (.object members) ∧
    members.lookup "request_id" = some (.string id) ∧
    members.lookup "outputs" = some (.array entries) ∧
    List.Forall₂ (fun output entry =>
      ∃ m, TensorMessage.read [entry] = some m ∧ m.Carries output.1 output.2)
        (names.zip outs) entries

section

variable {names : List String} {id : String} {durationMs : Int64} {outs : List Value}

/-- The members of the answer to a run, if its values have a JSON form. -/
def resultMembers (names : List String) (id : String) (durationMs : Int64) (outs : List Value) :
    List (String × Json) :=
  [("request_id", .string id),
    ("outputs", .array ((names.zip outs).map fun output =>
      (TensorMessage.ofValue output.1 output.2).json)),
    ("duration_ms", .int durationMs.toInt)]

/-- The messages of finite values have finite numbers. -/
theorem data_of_finite (hfinite : ∀ v ∈ outs, v.AllFinite) {output : String × Value}
    (houtput : output ∈ names.zip outs) :
    ∀ x ∈ (TensorMessage.ofValue output.1 output.2).data, x.isFinite = true := by
  rw [TensorMessage.ofValue_finite_iff]
  exact hfinite _ (List.of_mem_zip houtput).2

/-- The answer is plain, in four levels. -/
theorem plain_resultMembers (hfinite : ∀ v ∈ outs, v.AllFinite) :
    Json.Plain 4 (.object (resultMembers names id durationMs outs)) := by
  have hmessages : Json.Plain 3 (.array ((names.zip outs).map fun output =>
      (TensorMessage.ofValue output.1 output.2).json)) := by
    refine .array fun v hv => ?_
    obtain ⟨output, houtput, rfl⟩ := List.mem_map.mp hv
    exact TensorMessage.plain_json (data_of_finite hfinite houtput)
  refine .object ?_
  simp only [resultMembers, List.forall_mem_cons]
  exact ⟨.string _, hmessages, .int _, List.forall_mem_nil _⟩

/-- On a line of its own, the object of these members is an answer in full. -/
theorem inFull_resultMembers (hfinite : ∀ v ∈ outs, v.AllFinite) :
    InFull ((Json.object (resultMembers names id durationMs outs)).compact ++ "\n")
      id names outs := by
  -- Four levels are within the depth that is read.
  have hplain : Json.Plain Json.maxDepth (.object (resultMembers names id durationMs outs)) :=
    (plain_resultMembers hfinite).mono (by decide)
  refine ⟨_, _, Json.readWhole?_line hplain, rfl, rfl, ?_⟩
  rw [List.forall₂_map_right_iff]
  refine List.forall₂_same.mpr fun output houtput => ?_
  refine ⟨_, TensorMessage.read_json (data_of_finite hfinite houtput), ?_⟩
  exact TensorMessage.carries_ofValue output.1 (hfinite _ (List.of_mem_zip houtput).2)

/-- Finite values have an answer. -/
theorem resultJson_of_finite (served : Served) (hfinite : ∀ v ∈ outs, v.AllFinite) :
    resultJson served id durationMs outs =
      some (.object (resultMembers served.program.outputList id durationMs outs)) := by
  -- Each message has a JSON form, and so have all together.
  have hmessages : (served.program.outputList.zip outs).mapM (fun output =>
      (TensorMessage.ofValue output.1 output.2).toJson?) =
      some ((served.program.outputList.zip outs).map fun output =>
        (TensorMessage.ofValue output.1 output.2).json) :=
    mapM_eq_some fun output houtput =>
      TensorMessage.toJson?_of_finite (data_of_finite hfinite houtput)
  unfold resultJson
  rw [hmessages]
  rfl

/-- One element that is not finite leaves the whole answer without a JSON form. -/
theorem resultJson_of_not_finite {served : Served}
    (hlength : outs.length = served.program.outputList.length)
    (hinfinite : ∃ v ∈ outs, ¬v.AllFinite) : resultJson served id durationMs outs = none := by
  obtain ⟨v, hv, hinfinite⟩ := hinfinite
  -- The value stands at the place of some output, so its message is among those to be written.
  obtain ⟨name, houtput⟩ : ∃ name, (name, v) ∈ served.program.outputList.zip outs := by
    rw [← List.map_snd_zip hlength.le, List.mem_map] at hv
    obtain ⟨output, houtput, rfl⟩ := hv
    exact ⟨output.1, houtput⟩
  have hnone : (TensorMessage.ofValue name v).toJson? = none :=
    TensorMessage.toJson?_of_not_finite (mt (TensorMessage.ofValue_finite_iff _ _).mp hinfinite)
  unfold resultJson
  rw [mapM_eq_none houtput hnone]
  rfl

end

/-! ### The status of an answer -/

/-- A body that is refused is not answered with success. -/
theorem readBody_status_ne {limit : Int64} {body : Bytes} {status : Nat} {message : String}
    (herror : readBody limit body = .error (status, message)) : status ≠ 200 := by
  unfold readBody at herror
  dsimp only at herror
  split at herror
  next => cases herror
  next =>
  split at herror
  next =>
    cases herror
    decide
  next =>
  split at herror
  next => cases herror
  next =>
    cases herror
    decide

/-- Nor is a run that fails. -/
theorem statusOf_ne (f : Failure) : statusOf f ≠ 200 := by
  unfold statusOf
  split
  next => decide
  next =>
  split
  next => decide
  next => split <;> decide

/-- Values that are all there are what they were looked into as. -/
theorem eq_map_some_of_mapM {outs : List (Option Value)} {values : List Value}
    (h : outs.mapM (fun v => v) = some values) : outs = values.map some := by
  induction outs generalizing values with
  | nil =>
    cases h
    rfl
  | cons out more ih =>
    simp only [List.mapM_cons, Option.bind_eq_bind, Option.bind_eq_some_iff] at h
    obtain ⟨v, rfl, rest, hrest, hvalues⟩ := h
    cases hvalues
    rw [ih hrest, List.map_cons]

/-- Behind an answer of success to a run stand values that are all there. -/
theorem answerRun_ok {served : Served} {id : String} {durationMs : Int64}
    {result : Except Failure (List (Option Value))} {answer : Response}
    (hanswer : answerRun served id durationMs result = some answer) (hok : answer.status = 200) :
    ∃ outs, result = .ok (outs.map some) ∧
      answer = respondJson 200 id (resultJson served id durationMs outs) := by
  unfold answerRun at hanswer
  split at hanswer
  next f =>
    split at hanswer
    next => cases hanswer
    next =>
    cases hanswer
    exact absurd hok (statusOf_ne f)
  next outs =>
    obtain ⟨values, hvalues, rfl⟩ := Option.map_eq_some_iff.mp hanswer
    exact ⟨values, congrArg Except.ok (eq_map_some_of_mapM hvalues), rfl⟩

/-- Behind the status of success stands a run on the inputs of the request. -/
theorem respondRun_ok {o : ServiceOptions} {served : Served} {isBusy : Bool} {durationMs : Int64}
    {id : String} {q : Request} {s : Station} {answer : Response}
    (hanswer : (respondRun o served mode isBusy durationMs id q s).1 = some answer)
    (hok : answer.status = 200) :
    q.verb = "POST" ∧ ∃ messages given outs s', readBody o.maxBodyBytes q.body = .ok messages ∧
      inputs served mode messages = .ok given ∧
      served.run mode given { s with signal := runSignal o q } = (.ok (outs.map some), s') ∧
      answer = respondJson 200 id (resultJson served id durationMs outs) := by
  -- Every branch but the last has the status of an error.
  unfold respondRun at hanswer
  split at hanswer
  next =>
    cases hanswer
    cases hok
  next hpost =>
  split at hanswer
  next status message hbody =>
    cases hanswer
    exact absurd hok (readBody_status_ne hbody)
  next messages hbody =>
  split at hanswer
  next =>
    cases hanswer
    cases hok
  next given hgiven =>
  split at hanswer
  next =>
    cases hanswer
    cases hok
  next hfree =>
  obtain ⟨outs, hresult, hbody'⟩ := answerRun_ok hanswer hok
  exact ⟨not_not.mp hpost, messages, given, outs, _, hbody, hgiven, Prod.ext hresult rfl, hbody'⟩

/-- With the status of success, the answer at a path is that of its run. -/
theorem respond_of_path {o : ServiceOptions} {served : Served} {fresh : String} {isBusy : Bool}
    {durationMs : Int64} {q : Request} {u : Url} (hurl : q.url = .ok u)
    (hpath : (u.path.toText = "/run" ∧ mode = .concrete) ∨
      (u.path.toText = "/trace" ∧ mode = .symbolic))
    {s : Station} {answer : Response}
    (hanswer : (respond o served fresh isBusy durationMs q s).1 = some answer)
    (hok : answer.status = 200) :
    (respondRun o served mode isBusy durationMs (RequestId.choose fresh q.id) q s).1 =
      some answer := by
  unfold respond at hanswer
  dsimp only at hanswer
  split at hanswer
  next =>
    cases hanswer
    cases hok
  next hstar =>
  rw [hurl] at hanswer
  dsimp only at hanswer
  -- A path with detours is answered with where it leads, which is no success either.
  split at hanswer
  next =>
    cases hanswer
    cases hok
  next hclean =>
  rw [respondAt] at hanswer
  rcases hpath with ⟨hrun, rfl⟩ | ⟨htrace, rfl⟩
  · rw [hrun] at hanswer
    exact hanswer
  · rw [htrace] at hanswer
    exact hanswer

/-- **What is answered to a run with the status of success.** The program was run on the inputs of
the request and gave a value for each of its outputs, of the right kind if its operators keep to
their modes. If all elements are finite, as they are in a trace of such operators, the answer has
all of them; if one is not, it is empty. -/
theorem respond_in_full {r : Registry} {p : Program} {b : BoundProgram}
    (hbind : BoundProgram.bind r p = .ok b) (o : ServiceOptions) (fresh : String) (isBusy : Bool)
    (durationMs : Int64) {q : Request} {u : Url} (hurl : q.url = .ok u)
    (hpath : (u.path.toText = "/run" ∧ mode = .concrete) ∨
      (u.path.toText = "/trace" ∧ mode = .symbolic))
    (s : Station) {answer : Response}
    (hanswer : (respond o b.served fresh isBusy durationMs q s).1 = some answer)
    (hok : answer.status = 200) :
    q.verb = "POST" ∧ ∃ messages given outs s', readBody o.maxBodyBytes q.body = .ok messages ∧
      inputs b.served mode messages = .ok given ∧
      b.run mode given { s with signal := runSignal o q } = (.ok (outs.map some), s') ∧
      outs.length = b.program.outputList.length ∧
      (r.KeepsModes → ∀ v ∈ outs, v.Suits mode) ∧
      (((r.KeepsModes ∧ mode = .symbolic) ∨ ∀ v ∈ outs, v.AllFinite) →
        InFull answer.body (RequestId.choose fresh q.id) b.program.outputList outs) ∧
      ((∃ v ∈ outs, ¬v.AllFinite) → answer.body = "") := by
  obtain ⟨hpost, messages, given, outs, s', hbody, hinputs, hrun, rfl⟩ :=
    respondRun_ok (respond_of_path hurl hpath hanswer hok) hok
  have hmode : mode = .concrete ∨ mode = .symbolic := hpath.imp And.right And.right
  have hlength : outs.length = b.program.outputList.length := by
    rw [← BoundProgram.length_run (congrArg Prod.fst hrun), List.length_map]
  have hsuits (hmodes : r.KeepsModes) : ∀ v ∈ outs, v.Suits mode := by
    intro v hv
    obtain ⟨_, ⟨⟩, hsuits⟩ := BoundProgram.run_suits hmodes hbind (inputs_suits hmode hinputs)
      (congrArg Prod.fst hrun) (some v) (List.mem_map_of_mem hv)
    exact hsuits
  refine ⟨hpost, messages, given, outs, s', hbody, hinputs, hrun, hlength, hsuits, ?_, ?_⟩
  · intro hwritable
    have hfinite : ∀ v ∈ outs, v.AllFinite := by
      -- Symbols have no elements, so in a trace none is infinite.
      rcases hwritable with ⟨hmodes, rfl⟩ | hfinite
      · exact fun v hv => (hsuits hmodes v hv).allFinite
      · exact hfinite
    rw [resultJson_of_finite b.served hfinite]
    exact inFull_resultMembers hfinite
  · intro hinfinite
    rw [resultJson_of_not_finite hlength hinfinite]
    rfl

/-- A program that gives a tensor rectified and as it came. -/
def rectifier : BoundProgram where
  program :=
    { name := "p"
      inputs := some [⟨"x", ⟨"float32"⟩, some [-1], .cpu⟩]
      nodes := some
        [{ name := "n", op := Native.reluName, args := some ["x"], outputs := some ["y"] }]
      outputs := some ["y", "x"] }
  registry := (Native.register {}).2
  objects := []

/-- A run on one element, as it is written in JSON. -/
def runRequest (element : String) : Request where
  method := "POST"
  target := "/run"
  body := Bytes.ofText
    ("\x7b\"inputs\":[\x7b\"name\":\"x\",\"dtype\":\"float32\",\"shape\":[1],\"device\":" ++
    "\x7b\"type\":\"cpu\",\"index\":0\x7d,\"data\":[" ++ element ++ "]\x7d]\x7d")
  id := "00000000-0000-0000-0000-000000000001"

/-- The program binds. -/
theorem bind_rectifier :
    BoundProgram.bind rectifier.registry rectifier.program = .ok rectifier := by
  rfl

/-- Its operators keep to their modes. -/
theorem rectifier_keepsModes : rectifier.registry.KeepsModes := by
  refine List.forall_mem_cons.mpr ⟨Native.pureKernel_keepsModes _ _, ?_⟩
  refine List.forall_mem_cons.mpr ⟨Native.pureKernel_keepsModes _ _, ?_⟩
  exact List.forall_mem_cons.mpr ⟨Native.pureKernel_keepsModes _ _, List.forall_mem_nil _⟩

theorem respond_in_full_rectified :
    ∃ answer, (respond {} rectifier.served "" false 0 (runRequest "-0.25") {}).1 = some answer ∧
      answer.status = 200 ∧ ∃ outs, outs.length = 2 ∧ (∀ v ∈ outs, v.Suits .concrete) ∧
        InFull answer.body "00000000-0000-0000-0000-000000000001" ["y", "x"] outs := by
  have hanswered :
      (respond {} rectifier.served "" false 0 (runRequest "-0.25") {}).1.isSome = true := by
    decide +kernel
  obtain ⟨answer, hanswer⟩ := Option.isSome_iff_exists.mp hanswered
  have hok : (respond {} rectifier.served "" false 0 (runRequest "-0.25") {}).1.map (·.status) =
      some 200 := by
    decide +kernel
  have hbody : (respond {} rectifier.served "" false 0 (runRequest "-0.25") {}).1.map (·.body) ≠
      some "" := by
    decide +kernel
  have hurl : (runRequest "-0.25").url = .ok { path := Bytes.ofText "/run" } := by decide +kernel
  have hpath : (Bytes.ofText "/run").toText = "/run" := by decide +kernel
  rw [hanswer] at hok hbody
  have hstatus : answer.status = 200 := Option.some.inj hok
  obtain ⟨-, -, -, outs, -, -, -, -, hlength, hsuits, hfull, hempty⟩ :=
    respond_in_full bind_rectifier {} "" false 0 hurl (.inl ⟨hpath, rfl⟩) {} hanswer hstatus
  refine ⟨answer, hanswer, hstatus, outs, hlength, hsuits rectifier_keepsModes, hfull (.inr ?_)⟩
  -- An element that is not finite would leave no body, and there is one.
  by_contra hinfinite
  push Not at hinfinite
  exact hbody (congrArg some (hempty hinfinite))

/-- A number that is too large for its element type is answered with success and without a body,
which is an answer in full for no values at all. -/
theorem respond_empty :
    (respond {} rectifier.served "" false 0 (runRequest "1e39") {}).1 =
        some ⟨200, "00000000-0000-0000-0000-000000000001", "application/json", ""⟩ ∧
      ∀ outs, ¬InFull "" "00000000-0000-0000-0000-000000000001" ["y", "x"] outs := by
  constructor
  · decide +kernel
  · rintro outs ⟨members, entries, hread, -⟩
    cases hread

end Service

end EngineHost
