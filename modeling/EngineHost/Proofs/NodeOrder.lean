import EngineHost.Proofs.Metered

/-!
# The order of calls

A program that passes its check defines every value once and uses it later. So the values that a run
ends with say of each call what it was called on and what it returned, whenever it was made: a run
makes the values hold at every node (`BoundProgram.callNodes_holds`). And values that hold at every
node can be found again by calling the nodes in any other order that passes the check
(`BoundProgram.callNodes_of_holds`): the arguments of a node are defined before it, with the values
they end up with, and the polls of all calls come to the same number.

`BoundProgram.run_reordered` follows: two programs that differ in the order of their nodes run
alike. Operators have to be functions for that; one that counts its calls tells the orders apart
(`BoundProgram.counted_in_order`).
-/

namespace EngineHost

/-! ### Values that hold at a node -/

namespace BoundProgram

/-- What is defined in the part of a table is found in the whole, if no name stands twice there. -/
theorem lookup_eq_of_subset {env whole : Env} (hsubset : ∀ x ∈ env, x ∈ whole)
    (hnodup : (Env.names whole).Nodup) {name : String} (hname : name ∈ Env.names env) :
    env.lookup name = whole.lookup name := by
  cases hlookup : env.lookup name with
  | none =>
    obtain ⟨x, hx, rfl⟩ := List.mem_map.mp hname
    have hother := List.lookup_eq_none_iff.mp hlookup x hx
    simp at hother
  | some v =>
    exact (lookup_eq_some_of_mem hnodup (hsubset _ (mem_of_lookup hlookup))).symm

variable (b : BoundProgram) (runtimes : List Runtime) (mode : Mode)

/-- **Values hold at a node**: on the arguments that they give it, its operator yields, for some
polls, the values that they give its outputs. -/
def Holds (whole : Env) (n : ProgramNode) (polls : Nat) : Prop :=
  ∃ values, Yields runtimes (b.invokeNode mode whole n) values polls ∧
    values.length = n.outputList.length ∧ ∀ x ∈ n.outputList.zip values, x ∈ whole

variable {b runtimes mode}

/-- A call depends on the arguments of its node alone. -/
theorem invokeNode_congr {env whole : Env} {n : ProgramNode}
    (hargs : ∀ a ∈ n.argList, env.lookup a = whole.lookup a) :
    b.invokeNode mode env n = b.invokeNode mode whole n := by
  rw [invokeNode, invokeNode, List.map_congr_left fun a ha => congrArg Option.join (hargs a ha)]

/-! ### From a run to its values -/

/-- Defining the outputs of a node keeps names distinct. -/
theorem nodup_outputs {env : Env} {n : ProgramNode} (hnodup : (Env.names env).Nodup)
    (houtputs : n.outputList.Nodup) (hfresh : ∀ o ∈ n.outputList, o ∉ Env.names env) :
    (n.outputList.reverse ++ Env.names env).Nodup := by
  refine List.nodup_append.mpr ⟨List.nodup_reverse.mpr houtputs, hnodup, ?_⟩
  rintro o ho _ hdefined rfl
  exact hfresh o (List.mem_reverse.mp ho) hdefined

/-- **The values of a run hold at every node**, and the polls at the nodes are those of the run. -/
theorem callNodes_holds (hregistry : b.registry.Functional)
    (hruntimes : Runtime.AllMetered runtimes) {nodes : List ProgramNode} {env final : Env}
    (hnodup : (Env.names env).Nodup) (hcallable : Program.Callable (Env.names env) nodes)
    {s s' : Station} (hs : s.Plain runtimes)
    (hok : b.callNodes mode env nodes s = (.ok final, s')) :
    (∀ x ∈ env, x ∈ final) ∧ (Env.names final).Nodup ∧
      Env.names final = Program.definedAfter (Env.names env) nodes ∧
      ∃ polls, List.Forall₂ (b.Holds runtimes mode final) nodes polls ∧
        s.signal.after polls.sum = some s'.signal := by
  -- The table and the station change from call to call, so both are arbitrary.
  induction nodes generalizing env s with
  | nil =>
    obtain ⟨henv, rfl⟩ := Prod.mk.inj hok
    cases henv
    exact ⟨fun x hx => hx, hnodup, rfl, [], .nil, s.signal.after_zero⟩
  | cons n more ih =>
    obtain ⟨hargs, houtputs, hfresh, hmore⟩ := hcallable
    obtain ⟨between, s₁, hcall, hrest⟩ := callNodes_cons_eq_ok_iff.mp hok
    obtain ⟨values, hinvoke, hlength, rfl⟩ := callNode_eq_ok_iff.mp hcall
    have hnames := @names_bindOutputs env n.outputList values hlength
    have hsteady := hregistry.invoke_steady hruntimes mode n.op
      (n.argList.map fun a => (env.lookup a).join)
      (n.objects.filterMap fun o => b.objects.lookup o)
    obtain ⟨hs₁, first, hfirst, hyields⟩ := hsteady hs hinvoke
    -- The induction gives the values of the rest; those defined up to here are among them.
    rw [← hnames] at hmore
    obtain ⟨hkept, hfinal, hdefined, polls, hholds, hpolls⟩ :=
      ih (hnames ▸ nodup_outputs hnodup houtputs hfresh) hmore hs₁ hrest
    rw [bindOutputs_eq] at hkept
    have hold : ∀ x ∈ env, x ∈ final := fun x hx => hkept x (List.mem_append_right _ hx)
    refine ⟨hold, hfinal, ?_, first :: polls, .cons ⟨values, ?_, hlength, ?_⟩ hholds, ?_⟩
    · rw [hdefined, hnames]
      rfl
    · -- The arguments were defined before, and nothing is defined twice.
      rw [← invokeNode_congr fun a ha => lookup_eq_of_subset hold hfinal (hargs a ha)]
      exact hyields
    · exact fun x hx => hkept x (List.mem_append_left _ (List.mem_reverse.mpr hx))
    · rw [List.sum_cons, Signal.after_add, hfirst, Option.bind_some, hpolls]

/-! ### From values to a run -/

/-- **Values that hold at every node are found by calling the nodes**, in any order in which they
can be called, if the signal is silent for all the polls. -/
theorem callNodes_of_holds {whole : Env} (hwhole : (Env.names whole).Nodup)
    {nodes : List ProgramNode} {polls : List Nat}
    (hholds : List.Forall₂ (b.Holds runtimes mode whole) nodes polls) {env : Env}
    (hsubset : ∀ x ∈ env, x ∈ whole) (hcallable : Program.Callable (Env.names env) nodes)
    {s : Station} (hs : s.Plain runtimes) {rest : Signal}
    (hafter : s.signal.after polls.sum = some rest) :
    ∃ final s', b.callNodes mode env nodes s = (.ok final, s') ∧ (∀ x ∈ final, x ∈ whole) ∧
      Env.names final = Program.definedAfter (Env.names env) nodes := by
  -- By the nodes with their polls, for any table that is a part of the whole.
  induction hholds generalizing env s with
  | nil => exact ⟨env, s, rfl, hsubset, rfl⟩
  | @cons n first more polls hnode _ ih =>
    obtain ⟨hargs, -, -, hmore⟩ := hcallable
    obtain ⟨values, hyields, hlength, hvalues⟩ := hnode
    -- The signal that is silent for all the polls is silent for those of the first call.
    rw [List.sum_cons, Signal.after_add] at hafter
    obtain ⟨later, hlater, hafter⟩ := Option.bind_eq_some_iff.mp hafter
    obtain ⟨s₁, hinvoke, hs₁, rfl⟩ := hyields hs hlater
    rw [← invokeNode_congr fun a ha => lookup_eq_of_subset hsubset hwhole (hargs a ha)] at hinvoke
    have hcall := callNode_eq_ok_iff.mpr ⟨values, hinvoke, hlength, rfl⟩
    -- What the call defines belongs to the whole, too.
    have hnames := @names_bindOutputs env n.outputList values hlength
    have hsubset' : ∀ x ∈ bindOutputs env n.outputList values, x ∈ whole := by
      intro x hx
      rw [bindOutputs_eq] at hx
      rcases List.mem_append.mp hx with hx | hx
      · exact hvalues x (List.mem_reverse.mp hx)
      · exact hsubset x hx
    rw [← hnames] at hmore
    obtain ⟨final, s', hrest, hfinal, hdefined⟩ := ih hsubset' hmore hs₁ hafter
    refine ⟨final, s', callNodes_cons_eq_ok_iff.mpr ⟨_, s₁, hcall, hrest⟩, hfinal, ?_⟩
    rw [hdefined, hnames]
    rfl

/-! ### Two orders -/

/-- **Calls in another order** define the same values. -/
theorem callNodes_reordered (hregistry : b.registry.Functional)
    (hruntimes : Runtime.AllMetered runtimes) {nodes nodes' : List ProgramNode}
    (hperm : nodes.Perm nodes') {env final : Env} (hnodup : (Env.names env).Nodup)
    (hcallable : Program.Callable (Env.names env) nodes)
    (hcallable' : Program.Callable (Env.names env) nodes') {s s' : Station} (hs : s.Plain runtimes)
    (hok : b.callNodes mode env nodes s = (.ok final, s')) :
    ∃ final' s'', b.callNodes mode env nodes' s = (.ok final', s'') ∧
      ∀ o ∈ Program.definedAfter (Env.names env) nodes', final'.lookup o = final.lookup o := by
  obtain ⟨hkept, hfinal, -, polls, hholds, hpolls⟩ :=
    callNodes_holds hregistry hruntimes hnodup hcallable hs hok
  -- Each node keeps its polls, so that the sum is that of the other order.
  obtain ⟨polls', hholds', hperm'⟩ := List.perm_comp_forall₂ hperm.symm hholds
  rw [← hperm'.sum_eq] at hpolls
  obtain ⟨final', s'', hok', hsubset, hnames⟩ :=
    callNodes_of_holds hfinal hholds' hkept hcallable' hs hpolls
  refine ⟨final', s'', hok', fun o ho => lookup_eq_of_subset hsubset hfinal ?_⟩
  rw [hnames]
  exact ho

/-- Calls look at the operators and the objects alone. -/
theorem callNodes_program (p q : Program) (r : Registry) (objects : List (String × Object)) :
    callNodes ⟨p, r, objects⟩ = callNodes ⟨q, r, objects⟩ := by
  funext mode env nodes s
  induction nodes generalizing env s with
  | nil => rfl
  | cons n more ih =>
    simp only [callNodes, ih]
    rfl

/-- A run in one order is a run in another. -/
theorem run_ok_of_perm {r : Registry} (hregistry : r.Functional) {p : Program}
    {nodes : Option (List ProgramNode)} (hperm : p.nodeList.Perm (nodes.getD []))
    {b c : BoundProgram} (hb : bind r p = .ok b) (hc : bind r { p with nodes := nodes } = .ok c)
    {given : List (String × Option Value)} (hruntimes : Runtime.AllMetered runtimes) {s : Station}
    (hs : s.Plain runtimes) {values : List (Option Value)}
    (hok : (b.run mode given s).1 = .ok values) : (c.run mode given s).1 = .ok values := by
  obtain ⟨hvalid, ⟨objects, hobjects, rfl⟩, -⟩ := bind_ok_iff.mp hb
  obtain ⟨hvalid', ⟨objects', hobjects', rfl⟩, -⟩ := bind_ok_iff.mp hc
  -- Objects are rebuilt from what the programs share.
  obtain rfl : objects = objects' := Except.ok.inj (hobjects.symm.trans hobjects')
  obtain ⟨hnodup, hcallable, -⟩ := Program.validate_ok hvalid
  obtain ⟨-, hcallable', hdefined⟩ := Program.validate_ok hvalid'
  obtain ⟨hcount, env, final, s', htake, hcalls, rfl⟩ := run_eq_ok_iff.mp hok
  -- The names that are defined at the start are those of the inputs, in reverse.
  have hnames : Env.names env = (p.inputList.map (·.name)).reverse :=
    (names_takeInputs htake).trans (List.append_nil _)
  obtain ⟨final', s'', hcalls', hlookup⟩ := callNodes_reordered (b := ⟨p, r, objects⟩) hregistry
    hruntimes hperm (hnames ▸ hnodup) (hnames ▸ hcallable) (hnames ▸ hcallable') hs hcalls
  rw [callNodes_program p { p with nodes := nodes }] at hcalls'
  refine run_eq_ok_iff.mpr ⟨hcount, env, final', s'', htake, hcalls', ?_⟩
  -- An output is defined in either order, hence alike.
  refine List.map_congr_left fun o ho => congrArg Option.join (hlookup o ?_).symm
  rw [hnames]
  exact hdefined o ho

/-- **The order of the nodes does not matter** where every operator is a function of what it is
called on, and every runtime of how often it polls: where no engines are kept and no probes are
made, two programs that differ in the order and can both be bound run alike on all inputs, in every
mode. The one ends well if the other does, also where the signal may interrupt them, and with the
same values. -/
theorem run_reordered {r : Registry} (hregistry : r.Functional) {p : Program}
    {nodes : Option (List ProgramNode)} (hperm : p.nodeList.Perm (nodes.getD []))
    {b c : BoundProgram} (hb : bind r p = .ok b) (hc : bind r { p with nodes := nodes } = .ok c)
    (mode : Mode) (given : List (String × Option Value)) {s : Station}
    (hruntimes : Runtime.AllMetered s.executor.runtimes)
    (hcaching : s.executor.isCaching = false) (hprobes : s.tracer.allowsProbes = false)
    (values : List (Option Value)) :
    (b.run mode given s).1 = .ok values ↔ (c.run mode given s).1 = .ok values := by
  have hs : s.Plain s.executor.runtimes := ⟨rfl, hcaching, hprobes⟩
  constructor
  · exact run_ok_of_perm hregistry hperm hb hc hruntimes hs
  · exact run_ok_of_perm hregistry (p := { p with nodes := nodes }) hperm.symm hc hb hruntimes hs

/-- Runs the engine on the input. -/
def engineNode : ProgramNode where
  name := "run"
  op := EngineOp.operatorName
  args := some ["x"]
  objects := ["engine"]
  outputs := some ["y"]

/-- Rectifies the input. -/
def rectifyNode : ProgramNode where
  name := "rectify"
  op := Native.reluName
  args := some ["x"]
  outputs := some ["z"]

/-- Two nodes that do not depend on each other. -/
def runAndRectify (h : Handle) (nodes : List ProgramNode) : Program where
  name := "both"
  inputs := some [{ name := "x", dtype := .float32, shape := some [2, -1], device := .cpu }]
  objects := [⟨"engine", EngineOp.className, some h.flatten⟩]
  nodes := some nodes
  outputs := some ["y", "z"]

/-- The program with its engine. -/
def runAndRectifyBound (h : Handle) (nodes : List ProgramNode) : BoundProgram :=
  ⟨runAndRectify h nodes, hostRegistry, [("engine", EngineOp.object (some h))]⟩

/-- The program is bound in either order, with the engine that it holds. -/
theorem bind_runAndRectify {h : Handle} {d : NetworkDraft} (hbuilt : h.BuiltFrom d)
    {nodes : List ProgramNode}
    (hnodes : nodes = [engineNode, rectifyNode] ∨ nodes = [rectifyNode, engineNode]) :
    bind hostRegistry (runAndRectify h nodes) = .ok (runAndRectifyBound h nodes) := by
  have hrebuild : rebuild hostRegistry "both" (runAndRectify h nodes).objects =
      .ok [("engine", EngineOp.object (some h))] := by
    rw [runAndRectify, rebuild, Option.getD_some, hostRegistry_unflatten hbuilt.deserialize_flatten]
    rfl
  rcases hnodes with rfl | rfl
  all_goals exact bind_eq_ok_iff.mpr ⟨(), rfl, bind_eq_ok_iff.mpr ⟨_, hrebuild, rfl⟩⟩

set_option maxRecDepth 20000 in
theorem runAndRectify_runs :
    ((runAndRectifyBound turningHandle [engineNode, rectifyNode]).run .concrete
      (tensorInputs [("x", column)]) plainStation).1.toOption.isSome = true := by
  decide +kernel

/-- The engine may as well run last. -/
theorem rectified_before_run :
    ∃ values,
      ((runAndRectifyBound turningHandle [engineNode, rectifyNode]).run .concrete
        (tensorInputs [("x", column)]) plainStation).1 = .ok values ∧
      ((runAndRectifyBound turningHandle [rectifyNode, engineNode]).run .concrete
        (tensorInputs [("x", column)]) plainStation).1 = .ok values := by
  have hbuilt := Handle.builtFrom_of_buildTextHandle turning_fitsWidths turningHandle_eq
  have hperm : (runAndRectify turningHandle [engineNode, rectifyNode]).nodeList.Perm
      ((some [rectifyNode, engineNode]).getD []) := List.Perm.swap _ _ _
  have hrun := eq_ok_get runAndRectify_runs
  have hruntimes : Runtime.AllMetered plainStation.executor.runtimes :=
    Backends.allMetered OnnxLibrary.absent_isMetered (show
      (Backends.all .absent).openChoice {} "" = .ok plainStation.executor.runtimes from rfl)
  exact ⟨_, hrun, (run_reordered hostRegistry_functional hperm
    (bind_runAndRectify hbuilt (.inl rfl)) (bind_runAndRectify hbuilt (.inr rfl)) .concrete _
    hruntimes rfl rfl _).mp hrun⟩

/-! ### A kernel with a memory -/

/-- Gives a descriptor with the number of calls before as its only size, and notes the call. -/
def countCalls {α : Type} : OperatorKernel α := fun _ _ s =>
  let calls := Int64.ofNat s.executor.journal.length
  (.ok [some (.symbol ⟨.float32, [calls], .cpu⟩)],
    { s with executor := s.executor.note [.engineOpened 0] })

/-- The one operator that counts its calls. -/
def countingRegistry : Registry where
  operators := [("count", ⟨countCalls, countCalls⟩)]

/-- A call of the operator. -/
def countNode (output : String) : ProgramNode where
  name := output
  op := "count"
  outputs := some [output]

/-- Calls it twice. -/
def countTwice (nodes : List ProgramNode) : Program where
  name := "twice"
  nodes := some nodes
  outputs := some ["y", "z"]

/-- **With a kernel that has a memory the order matters**: in a station that keeps no engines and
makes no probes both programs can be bound and run, and what is counted first in one order is
counted last in the other. -/
theorem counted_in_order :
    let counted (first second : Int64) : Except Failure (List (Option Value)) :=
      .ok [some (.symbol ⟨.float32, [first], .cpu⟩), some (.symbol ⟨.float32, [second], .cpu⟩)]
    ∃ b c, bind countingRegistry (countTwice [countNode "y", countNode "z"]) = .ok b ∧
      bind countingRegistry (countTwice [countNode "z", countNode "y"]) = .ok c ∧
      (b.run .symbolic [] {}).1 = counted 0 1 ∧ (c.run .symbolic [] {}).1 = counted 1 0 ∧
      counted 0 1 ≠ counted 1 0 := by
  refine ⟨_, _, rfl, rfl, rfl, rfl, fun heq => ?_⟩
  simp at heq

end BoundProgram

end EngineHost
