import EngineHost.Program.Bound
import EngineHost.Proofs.NetworkSound

/-!
# The calls of a program

A program that passes its check defines every name once, in front of where it is used
(`Program.validate_ok`). A run makes one call after the other, and the names that it has defined are
those that the check has seen: after all calls they are `Program.definedAfter`, whatever the calls
returned (`BoundProgram.names_callNodes`). So every output of the program is defined in the end
(`BoundProgram.mem_names_of_output`).

Two runs are compared name by name. `Value.Both R` relates values that are there in both, and such
tables stay related when calls define related values (`BoundProgram.bindOutputs_both`); so do the
outputs that are looked up (`BoundProgram.outputs_both`).
-/

namespace EngineHost

/-! ### What the check of a program says -/

namespace Program

/-- **Nodes that can be called in order**, where some values are defined: each takes values that are
defined before it and defines new ones, each once. -/
def Callable : List String → List ProgramNode → Prop
  | _, [] => True
  | defined, n :: more =>
    (∀ a ∈ n.argList, a ∈ defined) ∧ n.outputList.Nodup ∧ (∀ o ∈ n.outputList, o ∉ defined) ∧
      Callable (n.outputList.reverse ++ defined) more

/-- What is defined after nodes, latest first. -/
def definedAfter (defined : List String) (nodes : List ProgramNode) : List String :=
  nodes.foldl (fun defined n => n.outputList.reverse ++ defined) defined

/-- A name is defined if it was not defined before. -/
theorem define_ok {what name : String} {defined defined' : List String}
    (hok : define what defined name = .ok defined') :
    name ∉ defined ∧ defined' = name :: defined := by
  unfold define at hok
  split at hok
  next => cases hok
  next =>
  split at hok
  next => cases hok
  next hfresh =>
  cases hok
  exact ⟨by simpa using hfresh, rfl⟩

/-- Names are defined in a row, each once. -/
theorem defineAll_ok {what : String} {names defined defined' : List String}
    (hok : names.foldlM (define what) defined = .ok defined') :
    names.Nodup ∧ (∀ o ∈ names, o ∉ defined) ∧ defined' = names.reverse ++ defined := by
  -- What is defined grows from name to name.
  induction names generalizing defined with
  | nil =>
    cases hok
    exact ⟨List.nodup_nil, fun o ho => absurd ho List.not_mem_nil, rfl⟩
  | cons name more ih =>
    obtain ⟨between, hfirst, hmore⟩ := bind_eq_ok_iff.mp hok
    obtain ⟨hfresh, rfl⟩ := define_ok hfirst
    obtain ⟨hnodup, hothers, rfl⟩ := ih hmore
    refine ⟨List.nodup_cons.mpr ⟨fun hmem => hothers name hmem List.mem_cons_self, hnodup⟩,
      ?_, by simp⟩
    intro o ho
    rcases List.mem_cons.mp ho with rfl | ho
    · exact hfresh
    · exact fun hmem => hothers o ho (List.mem_cons_of_mem _ hmem)

/-- Nodes that pass the check can be called in order. -/
theorem checkNodes_ok {objects defined final : List String} {i : Nat} {nodes : List ProgramNode}
    (hok : checkNodes objects defined i nodes = .ok final) :
    Callable defined nodes ∧ final = definedAfter defined nodes := by
  -- What is defined grows from node to node.
  induction nodes generalizing defined i with
  | nil =>
    cases hok
    exact ⟨trivial, rfl⟩
  | cons n more ih =>
    obtain ⟨between, hnode, hmore⟩ := bind_eq_ok_iff.mp hok
    unfold checkNode at hnode
    split at hnode
    next => cases hnode
    next =>
    split at hnode
    next => cases hnode
    next hargs =>
    split at hnode
    next => cases hnode
    next =>
    obtain ⟨hnodup, hfresh, rfl⟩ := defineAll_ok hnode
    obtain ⟨hcallable, rfl⟩ := ih hmore
    refine ⟨⟨fun a ha => ?_, hnodup, hfresh, hcallable⟩, rfl⟩
    simpa using List.find?_eq_none.mp hargs a ha

/-- Inputs that pass the check have distinct names. -/
theorem checkInputs_ok {inputs : List ProgramInput} {defined defined' : List String}
    (hok : inputs.foldlM checkInput defined = .ok defined') (hnodup : defined.Nodup) :
    defined'.Nodup ∧ defined' = (inputs.map (·.name)).reverse ++ defined := by
  induction inputs generalizing defined with
  | nil =>
    cases hok
    exact ⟨hnodup, rfl⟩
  | cons i more ih =>
    obtain ⟨between, hfirst, hmore⟩ := bind_eq_ok_iff.mp hok
    obtain ⟨defined₁, hdefine, hfirst⟩ := bind_eq_ok_iff.mp hfirst
    dsimp only at hfirst
    split at hfirst
    next => cases hfirst
    next =>
    cases hfirst
    obtain ⟨hfresh, rfl⟩ := define_ok hdefine
    obtain ⟨hfinal, rfl⟩ := ih hmore (List.nodup_cons.mpr ⟨hfresh, hnodup⟩)
    exact ⟨hfinal, by simp⟩

/-- **A program that passes its check**: inputs have distinct names, its nodes can be called in
order, and its outputs are defined in the end. -/
theorem validate_ok {p : Program} (hok : p.validate = .ok ()) :
    ((p.inputList.map (·.name)).reverse).Nodup ∧
      Callable (p.inputList.map (·.name)).reverse p.nodeList ∧
      ∀ o ∈ p.outputList, o ∈ definedAfter (p.inputList.map (·.name)).reverse p.nodeList := by
  -- A check that fails is reported under the program's name; one that succeeds is left as it is.
  have hcheck : p.check = .ok () := by
    unfold validate at hok
    cases h : p.check with
    | error f => rw [h] at hok; cases hok
    | ok u => rfl
  obtain ⟨defined, hinputs, hcheck⟩ := bind_eq_ok_iff.mp hcheck
  obtain ⟨objects, -, hcheck⟩ := bind_eq_ok_iff.mp hcheck
  obtain ⟨final, hnodes, hcheck⟩ := bind_eq_ok_iff.mp hcheck
  dsimp only at hcheck
  split at hcheck
  next => cases hcheck
  next =>
  obtain ⟨hnodup, hdefined⟩ := checkInputs_ok hinputs List.nodup_nil
  rw [List.append_nil] at hdefined
  subst hdefined
  obtain ⟨hcallable, rfl⟩ := checkNodes_ok hnodes
  refine ⟨hnodup, hcallable, fun o ho => ?_⟩
  split at hcheck
  next => cases hcheck
  next houtputs => simpa using List.find?_eq_none.mp houtputs o ho

end Program

namespace BoundProgram

/-- **What binding does**: it checks the program, rebuilds its objects and wants its operators to be
known. -/
theorem bind_ok_iff {r : Registry} {p : Program} {b : BoundProgram} :
    bind r p = .ok b ↔ p.validate = .ok () ∧
      (∃ objects, rebuild r p.name p.objects = .ok objects ∧ b = ⟨p, r, objects⟩) ∧
      ∀ n ∈ p.nodeList, (r.operator? n.op).isSome = true := by
  have hfind : p.nodeList.find? (fun n => (r.operator? n.op).isNone) = none ↔
      ∀ n ∈ p.nodeList, (r.operator? n.op).isSome = true := by
    simp only [List.find?_eq_none, Bool.not_eq_true, Option.isNone_eq_false_iff]
  rw [← hfind]
  constructor
  · intro hok
    obtain ⟨⟨⟩, hvalid, hok⟩ := bind_eq_ok_iff.mp hok
    obtain ⟨objects, hobjects, hok⟩ := bind_eq_ok_iff.mp hok
    split at hok
    next => cases hok
    next hknown =>
      cases hok
      exact ⟨hvalid, ⟨objects, hobjects, rfl⟩, hknown⟩
  · rintro ⟨hvalid, ⟨objects, hobjects, rfl⟩, hknown⟩
    refine bind_eq_ok_iff.mpr ⟨(), hvalid, bind_eq_ok_iff.mpr ⟨objects, hobjects, ?_⟩⟩
    rw [hknown]
    rfl

/-- What is bound passed its check, and calls the registry it was bound to. -/
theorem valid_of_bind {r : Registry} {p : Program} {b : BoundProgram} (hbind : bind r p = .ok b) :
    b.program.validate = .ok () ∧ b.registry = r := by
  obtain ⟨hvalid, ⟨objects, -, rfl⟩, -⟩ := bind_ok_iff.mp hbind
  exact ⟨hvalid, rfl⟩

/-! ### Names that are defined -/

/-- The names that are defined. -/
def Env.names (env : Env) : List String :=
  env.map (·.1)

/-- A name that is defined has an entry. -/
theorem exists_lookup {env : Env} {name : String} (h : name ∈ Env.names env) :
    ∃ v, env.lookup name = some v := by
  apply Option.ne_none_iff_exists'.mp
  intro hnone
  obtain ⟨x, hx, rfl⟩ := List.mem_map.mp h
  simpa using List.lookup_eq_none_iff.mp hnone x hx

/-- Outputs are put in front, the last one first. -/
theorem bindOutputs_eq (env : Env) (names : List String) (values : List (Option Value)) :
    bindOutputs env names values = (names.zip values).reverse ++ env := by
  have hcons (entries : List (String × Option Value)) (env : Env) :
      entries.foldl (fun env entry => entry :: env) env = entries.reverse ++ env := by
    induction entries generalizing env with
    | nil => rfl
    | cons x more ih => simp [ih]
  exact hcons _ _

/-- A call that gives as many values as it has outputs defines all of them. -/
theorem names_bindOutputs {env : Env} {names : List String} {values : List (Option Value)}
    (hlength : values.length = names.length) :
    Env.names (bindOutputs env names values) = names.reverse ++ Env.names env := by
  rw [bindOutputs_eq, Env.names, List.map_append, List.map_reverse, List.map_fst_zip]
  · rfl
  · omega

/-- Taking the inputs defines their names. -/
theorem names_takeInputs {program : String} {given : List (String × Option Value)} {env env' : Env}
    {inputs : List ProgramInput} (hok : takeInputs program given env inputs = .ok env') :
    Env.names env' = (inputs.map (·.name)).reverse ++ Env.names env := by
  induction inputs generalizing env with
  | nil =>
    cases hok
    rfl
  | cons spec more ih =>
    rw [takeInputs] at hok
    split at hok
    next => cases hok
    next v _ =>
    split at hok
    next => cases hok
    next =>
    rw [ih hok, List.map_cons, List.reverse_cons, List.append_assoc]
    rfl

/-! ### Calls and runs that succeed -/

variable (b : BoundProgram) (mode : Mode)

/-- The operator of a node, called on the arguments that it has among values. -/
def invokeNode (env : Env) (n : ProgramNode) :
    Station → Except Failure (List (Option Value)) × Station :=
  b.registry.invoke mode n.op (n.argList.map fun a => (env.lookup a).join)
    (n.objects.filterMap fun o => b.objects.lookup o)

variable {b mode}

/-- **A call that ends well** gives as many values as its node has outputs. -/
theorem callNode_eq_ok_iff {env env' : Env} {n : ProgramNode} {s s' : Station} :
    b.callNode mode env n s = (.ok env', s') ↔
      ∃ values, b.invokeNode mode env n s = (.ok values, s') ∧
        values.length = n.outputList.length ∧ env' = bindOutputs env n.outputList values := by
  constructor
  · intro hok
    unfold callNode at hok
    dsimp only at hok
    split at hok
    next => cases hok
    next values after hinvoke =>
    split at hok
    next => cases hok
    next hlength =>
    obtain ⟨henv, rfl⟩ := Prod.mk.inj hok
    exact ⟨values, hinvoke, not_not.mp hlength, (Except.ok.inj henv).symm⟩
  · rintro ⟨values, hinvoke, hlength, rfl⟩
    unfold invokeNode at hinvoke
    unfold callNode
    dsimp only
    rw [hinvoke]
    dsimp only
    rw [if_neg (not_not.mpr hlength)]

/-- Calls end well if the first does and then the others. -/
theorem callNodes_cons_eq_ok_iff {env env' : Env} {n : ProgramNode} {more : List ProgramNode}
    {s s' : Station} : b.callNodes mode env (n :: more) s = (.ok env', s') ↔
      ∃ between s₁, b.callNode mode env n s = (.ok between, s₁) ∧
        b.callNodes mode between more s₁ = (.ok env', s') := by
  rw [callNodes]
  cases b.callNode mode env n s with
  | mk result s₁ =>
    cases result with
    | error f => simp
    | ok between => simp

/-- **A run that ends well**: inputs are taken, calls are made, and outputs are looked up. -/
theorem run_eq_ok_iff {given : List (String × Option Value)} {s : Station}
    {values : List (Option Value)} :
    (b.run mode given s).1 = .ok values ↔ given.length = b.program.inputList.length ∧
      ∃ env final s', takeInputs b.program.name given [] b.program.inputList = .ok env ∧
        b.callNodes mode env b.program.nodeList s = (.ok final, s') ∧
        values = b.program.outputList.map fun o => (final.lookup o).join := by
  unfold run
  dsimp only
  by_cases hcount : given.length = b.program.inputList.length
  · rw [if_neg (not_not.mpr hcount)]
    cases takeInputs b.program.name given [] b.program.inputList with
    | error f => simp
    | ok env =>
      cases hcalls : b.callNodes mode env b.program.nodeList s with
      | mk result s' =>
        cases result with
        | error f => simp [hcalls]
        | ok final => simp [hcalls, hcount, eq_comm]
  · rw [if_pos hcount]
    simp [hcount]

/-- **The names that calls define** are those that the check has seen. -/
theorem names_callNodes {nodes : List ProgramNode} {env final : Env} {s s' : Station}
    (hok : b.callNodes mode env nodes s = (.ok final, s')) :
    Env.names final = Program.definedAfter (Env.names env) nodes := by
  -- The table and the station change from call to call.
  induction nodes generalizing env s with
  | nil =>
    cases hok
    rfl
  | cons n more ih =>
    obtain ⟨between, s₁, hcall, hmore⟩ := callNodes_cons_eq_ok_iff.mp hok
    obtain ⟨values, -, hlength, rfl⟩ := callNode_eq_ok_iff.mp hcall
    rw [ih hmore, names_bindOutputs hlength]
    rfl

/-- Every output of a program that passes its check is defined by its calls. -/
theorem mem_names_of_output (hvalid : b.program.validate = .ok ())
    {given : List (String × Option Value)} {env final : Env} {s s' : Station}
    (htake : takeInputs b.program.name given [] b.program.inputList = .ok env)
    (hcalls : b.callNodes mode env b.program.nodeList s = (.ok final, s')) {o : String}
    (ho : o ∈ b.program.outputList) : o ∈ Env.names final := by
  have hinputs : Env.names env = (b.program.inputList.map (·.name)).reverse :=
    (names_takeInputs htake).trans (List.append_nil _)
  rw [names_callNodes hcalls, hinputs]
  exact (Program.validate_ok hvalid).2.2 o ho

end BoundProgram

/-! ### Two runs side by side -/

@[simp] theorem Value.length_tensors (ts : List Tensor) :
    (Value.tensors ts).length = ts.length := by
  simp [Value.tensors]

@[simp] theorem Value.length_symbols (ds : List Descriptor) :
    (Value.symbols ds).length = ds.length := by
  simp [Value.symbols]

/-- Two values that are there, in a relation. -/
def Value.Both (R : Value → Value → Prop) (v w : Option Value) : Prop :=
  ∃ x y, v = some x ∧ w = some y ∧ R x y

namespace BoundProgram

variable {R : Value → Value → Prop} {env env' : Env}

/-- Calls that define related values keep the tables related. -/
theorem bindOutputs_both (henv : Matches (Value.Both R) env env') (names : List String)
    {xs ys : List Value} (hvalues : List.Forall₂ R xs ys) :
    Matches (Value.Both R) (bindOutputs env names (xs.map some))
      (bindOutputs env' names (ys.map some)) := by
  unfold bindOutputs
  -- Both tables grow by the same name at a time.
  induction hvalues generalizing names env env' with
  | nil => simpa using henv
  | @cons x y _ _ hxy _ ih =>
    cases names with
    | nil => exact henv
    | cons name more =>
      have hnext : Matches (Value.Both R) ((name, some x) :: env) ((name, some y) :: env') :=
        .cons ⟨rfl, x, y, rfl, rfl, hxy⟩ henv
      exact ih hnext more

/-- Outputs that are defined are there in both runs, and related. -/
theorem outputs_both (henv : Matches (Value.Both R) env env') {names : List String}
    (hnames : ∀ o ∈ names, o ∈ Env.names env) :
    ∃ xs ys, names.map (fun o => (env.lookup o).join) = xs.map some ∧
      names.map (fun o => (env'.lookup o).join) = ys.map some ∧ List.Forall₂ R xs ys := by
  induction names with
  | nil => exact ⟨[], [], rfl, rfl, .nil⟩
  | cons name more ih =>
    rw [List.forall_mem_cons] at hnames
    obtain ⟨xs, ys, hxs, hys, hrest⟩ := ih hnames.2
    -- The tables match, so the name has an entry in the other one, and a related one.
    obtain ⟨v, hv⟩ := exists_lookup hnames.1
    obtain ⟨w, hw, x, y, rfl, rfl, hxy⟩ := henv.lookup hv
    refine ⟨x :: xs, y :: ys, ?_, ?_, .cons hxy hrest⟩
    · rw [List.map_cons, hv, hxs]
      rfl
    · rw [List.map_cons, hw, hys]
      rfl

end BoundProgram

end EngineHost
