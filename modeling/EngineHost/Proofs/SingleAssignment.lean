import EngineHost.Proofs.NodeOrder

/-!
# Programs in single assignment

The check of a program leaves every name one definition, as an input or as an output of a node
(`Program.Defines.unique`). This file follows the definitions through a run.

To speak of the calls that a run makes, `BoundProgram.runNoted` is the run in which every request to
the registry is noted; without the notes it is the run (`BoundProgram.runNoted_fst`). The calls that
are noted grow along the nodes, and `BoundProgram.Sourced` is what stays true of the values defined
up to a node: each comes from a definition of its name in front of the node, and is the value that
was given or returned there. A node that can be called finds all its arguments among them.

`BoundProgram.singleAssignment_of_bind` says what follows for a whole run: where arguments, objects
and outputs come from, which calls are made, and when the run fails.
-/

namespace EngineHost

/-! ### Definitions in a program -/

/-- A place where a value is defined: an input, or an output of a node. -/
inductive Site where
  | input (k : Nat)
  | output (node k : Nat)
  deriving DecidableEq, Repr

/-- A place is in front of node `i`. -/
def Site.Precedes (i : Nat) : Site → Prop
  | .input _ => True
  | .output node _ => node < i

/-- What is in front of a node is in front of the later ones. -/
theorem Site.Precedes.mono {site : Site} {i j : Nat} (h : site.Precedes i) (hij : i ≤ j) :
    site.Precedes j := by
  cases site with
  | input k => trivial
  | output node k => exact Nat.lt_of_lt_of_le h hij

/-- Where every entry has an answer, the answers are as many as the entries. -/
theorem forall₂_filterMap {α β : Type} {R : α → β → Prop} {f : α → Option β} {as : List α}
    (h : ∀ a ∈ as, ∃ b, f a = some b ∧ R a b) : List.Forall₂ R as (as.filterMap f) := by
  induction as with
  | nil => exact .nil
  | cons a more ih =>
    obtain ⟨⟨b, hb, hR⟩, hmore⟩ := List.forall_mem_cons.mp h
    rw [List.filterMap_cons_some hb]
    exact .cons hR (ih hmore)

namespace Program

/-- A program defines a name at a place. -/
def Defines (p : Program) : Site → String → Prop
  | .input k, name => ∃ spec, p.inputList[k]? = some spec ∧ spec.name = name
  | .output i k, name => ∃ n, p.nodeList[i]? = some n ∧ n.outputList[k]? = some name

/-- The outputs of a node that can be called are new: distinct, not defined at the start, and not by
a node in front of it. -/
theorem Callable.fresh {defined : List String} {nodes : List ProgramNode}
    (h : Callable defined nodes) {i : Nat} {n : ProgramNode} (hn : nodes[i]? = some n) :
    n.outputList.Nodup ∧ ∀ o ∈ n.outputList, o ∉ defined ∧
      ∀ j m, j < i → nodes[j]? = some m → o ∉ m.outputList := by
  induction nodes generalizing defined i with
  | nil => simp at hn
  | cons first more ih =>
    obtain ⟨-, hnodup, hfresh, hmore⟩ := h
    cases i with
    | zero =>
      obtain rfl : first = n := by simpa using hn
      exact ⟨hnodup, fun o ho => ⟨hfresh o ho, fun j m hj => absurd hj (Nat.not_lt_zero j)⟩⟩
    | succ i =>
      rw [List.getElem?_cons_succ] at hn
      obtain ⟨hnodup', hlater⟩ := ih hmore hn
      refine ⟨hnodup', fun o ho => ?_⟩
      -- What is defined for the rest holds the outputs of the first node.
      obtain ⟨hnew, hnodes⟩ := hlater o ho
      rw [List.mem_append, List.mem_reverse, not_or] at hnew
      refine ⟨hnew.2, fun j m hj hm => ?_⟩
      cases j with
      | zero =>
        obtain rfl : first = m := by simpa using hm
        exact hnew.1
      | succ j => exact hnodes j m (Nat.lt_of_succ_lt_succ hj) (by simpa using hm)

/-- In a list without repetitions an entry has one place. -/
theorem getElem?_inj_of_nodup {α : Type} {xs : List α} (hnodup : xs.Nodup) {i j : Nat} {a : α}
    (hi : xs[i]? = some a) (hj : xs[j]? = some a) : i = j := by
  have hlt : i < xs.length := (List.getElem?_eq_some_iff.mp hi).1
  exact (List.getElem?_inj hlt hnodup).mp (hi.trans hj.symm)

/-- **Every name has one definition** in a program that passes its check. -/
theorem Defines.unique {p : Program} (hvalid : p.validate = .ok ()) {site site' : Site}
    {name : String} (h : p.Defines site name) (h' : p.Defines site' name) : site = site' := by
  obtain ⟨hinputs, hcallable, -⟩ := validate_ok hvalid
  rw [List.nodup_reverse] at hinputs
  -- An output is not an input, and not an output of an earlier node.
  have hapart {k i j : Nat} (hinput : p.Defines (.input k) name)
      (houtput : p.Defines (.output i j) name) : False := by
    obtain ⟨spec, hspec, rfl⟩ := hinput
    obtain ⟨n, hn, ho⟩ := houtput
    refine ((hcallable.fresh hn).2 _ (List.mem_of_getElem? ho)).1 ?_
    rw [List.mem_reverse]
    exact List.mem_map_of_mem (List.mem_of_getElem? hspec)
  have hearlier {i j k l : Nat} (hij : i < j) (hfirst : p.Defines (.output i k) name)
      (hsecond : p.Defines (.output j l) name) : False := by
    obtain ⟨m, hm, hom⟩ := hfirst
    obtain ⟨n, hn, hon⟩ := hsecond
    exact ((hcallable.fresh hn).2 _ (List.mem_of_getElem? hon)).2 i m hij hm
      (List.mem_of_getElem? hom)
  -- Two inputs, two outputs of one node, or two places that are apart.
  cases site with
  | input k =>
    cases site' with
    | input k' =>
      obtain ⟨spec, hspec, rfl⟩ := h
      obtain ⟨spec', hspec', hname⟩ := h'
      rw [getElem?_inj_of_nodup (i := k) (j := k') hinputs (a := spec.name)]
      · rw [List.getElem?_map, hspec]
        rfl
      · rw [List.getElem?_map, hspec', ← hname]
        rfl
    | output i j => exact (hapart h h').elim
  | output i k =>
    cases site' with
    | input k' => exact (hapart h' h).elim
    | output j l =>
      rcases Nat.lt_trichotomy i j with hij | rfl | hji
      · exact (hearlier hij h h').elim
      · obtain ⟨n, hn, hk⟩ := h
        obtain ⟨n', hn', hl⟩ := h'
        obtain rfl : n = n' := Option.some.inj (hn.symm.trans hn')
        rw [getElem?_inj_of_nodup (hcallable.fresh hn).1 hk hl]
      · exact (hearlier hji h' h).elim

/-! What the check says about objects. -/

/-- The check of objects collects their names, and lets none pass twice. -/
theorem checkObjects_ok {stored : List StoredObject} {names names' : List String}
    (hok : stored.foldlM checkObject names = .ok names') (hnodup : names.Nodup) :
    names'.Nodup ∧ names' = (stored.map (·.name)).reverse ++ names := by
  induction stored generalizing names with
  | nil =>
    cases hok
    exact ⟨hnodup, rfl⟩
  | cons o more ih =>
    obtain ⟨between, hfirst, hmore⟩ := bind_eq_ok_iff.mp hok
    unfold checkObject at hfirst
    split at hfirst
    next => cases hfirst
    next hnew =>
    cases hfirst
    have hfresh : o.name ∉ names := by
      intro hmem
      exact hnew (.inr (by simpa using hmem))
    obtain ⟨hfinal, rfl⟩ := ih hmore (List.nodup_cons.mpr ⟨hfresh, hnodup⟩)
    exact ⟨hfinal, by simp⟩

/-- The check of nodes lets no node use an object that is not there. -/
theorem checkNodes_objects {objects defined final : List String} {i : Nat}
    {nodes : List ProgramNode} (hok : checkNodes objects defined i nodes = .ok final) :
    ∀ n ∈ nodes, ∀ o ∈ n.objects, o ∈ objects := by
  induction nodes generalizing defined i with
  | nil => exact fun n hn => absurd hn List.not_mem_nil
  | cons n more ih =>
    obtain ⟨between, hnode, hmore⟩ := bind_eq_ok_iff.mp hok
    refine List.forall_mem_cons.mpr ⟨fun o ho => ?_, ih hmore⟩
    unfold checkNode at hnode
    split at hnode
    next => cases hnode
    next =>
    split at hnode
    next => cases hnode
    next =>
    split at hnode
    next => cases hnode
    next hobjects => simpa using List.find?_eq_none.mp hobjects o ho

/-- Objects have distinct names, and nodes use none but them. -/
theorem validate_objects {p : Program} (hok : p.validate = .ok ()) :
    (p.objects.map (·.name)).Nodup ∧
      ∀ n ∈ p.nodeList, ∀ o ∈ n.objects, o ∈ p.objects.map (·.name) := by
  have hcheck : p.check = .ok () := mapError_eq_ok_iff.mp hok
  obtain ⟨defined, -, hcheck⟩ := bind_eq_ok_iff.mp hcheck
  obtain ⟨objects, hobjects, hcheck⟩ := bind_eq_ok_iff.mp hcheck
  obtain ⟨final, hnodes, -⟩ := bind_eq_ok_iff.mp hcheck
  obtain ⟨hnodup, hnames⟩ := checkObjects_ok hobjects List.nodup_nil
  rw [List.append_nil] at hnames
  subst hnames
  rw [List.nodup_reverse] at hnodup
  exact ⟨hnodup, fun n hn o ho => List.mem_reverse.mp (checkNodes_objects hnodes n hn o ho)⟩

end Program

namespace BoundProgram

/-- Every stored object is rebuilt under its name. -/
theorem rebuild_matches {r : Registry} {program : String} {stored : List StoredObject}
    {objects : List (String × Object)} (hok : rebuild r program stored = .ok objects) :
    Matches (fun o live => r.unflattenObject o.className (o.fields.getD []) = .ok live)
      (stored.map fun o => (o.name, o)) objects := by
  induction stored generalizing objects with
  | nil =>
    cases hok
    exact .nil
  | cons o more ih =>
    rw [rebuild] at hok
    split at hok
    next => cases hok
    next live hlive =>
    obtain ⟨rest, hrest, rfl⟩ := map_eq_ok_iff.mp hok
    exact .cons ⟨rfl, hlive⟩ (ih hrest)

/-- An object of the program is found under its name, rebuilt. -/
theorem lookup_rebuild {r : Registry} {p : Program} {objects : List (String × Object)}
    (hok : rebuild r p.name p.objects = .ok objects) (hnodup : (p.objects.map (·.name)).Nodup)
    {name : String} (hname : name ∈ p.objects.map (·.name)) :
    ∃ live, objects.lookup name = some live ∧ ∃ stored ∈ p.objects, stored.name = name ∧
      r.unflattenObject stored.className (stored.fields.getD []) = .ok live := by
  obtain ⟨stored, hstored, rfl⟩ := List.mem_map.mp hname
  have hfirst : ((p.objects.map fun o => (o.name, o)).map (·.1)).Nodup := by
    rwa [List.map_map]
  -- The names of stored objects differ, so what is found under one is the object itself.
  have hlookup := lookup_eq_some_of_mem hfirst (List.mem_map_of_mem hstored)
  obtain ⟨live, hlive, hbuilt⟩ := (rebuild_matches hok).lookup hlookup
  exact ⟨live, hlive, stored, hstored, rfl, hbuilt⟩

/-! ### Inputs -/

/-- **A description fits a declared input**: the element type is the one declared, the ranks agree,
and the sizes do where both are known. -/
def Accepts (spec : ProgramInput) (d : Descriptor) : Prop :=
  d.dtype = spec.dtype ∧
    List.Forall₂ (fun want got : Int64 => 0 ≤ want → 0 ≤ got → got = want)
      (spec.shape.getD []) d.shape

/-- What the check of an input asks. -/
theorem checkInput_ok_iff {spec : ProgramInput} {d : Descriptor} :
    checkInput spec d = .ok () ↔ Accepts spec d := by
  unfold checkInput Accepts
  dsimp only
  rw [List.forall₂_iff_zip]
  -- The three tests in their order; the last one looks for two known sizes that differ.
  by_cases hdtype : d.dtype = spec.dtype
  · rw [if_neg (not_not.mpr hdtype)]
    by_cases hrank : d.shape.length = (spec.shape.getD []).length
    · rw [if_neg (not_not.mpr hrank)]
      split
      next hany =>
        obtain ⟨⟨want, got⟩, hmem, hsizes⟩ := List.any_eq_true.mp hany
        simp only [Bool.and_eq_true, decide_eq_true_eq] at hsizes
        refine iff_of_false (by simp) fun h => ?_
        exact hsizes.2 (h.2.2 hmem hsizes.1.1 hsizes.1.2)
      next hany =>
        refine iff_of_true rfl ⟨hdtype, hrank.symm, fun {want got} hmem hwant hgot => ?_⟩
        by_contra hne
        exact hany (List.any_eq_true.mpr ⟨(want, got), hmem, by simp [hwant, hgot, hne]⟩)
    · rw [if_pos hrank]
      exact iff_of_false (by simp) fun h => hrank h.2.1.symm
  · rw [if_pos hdtype]
    exact iff_of_false (by simp) fun h => hdtype h.1

/-- **A declared input is given**: there is a value of its name, and the value fits it. -/
def Given (given : List (String × Option Value)) (spec : ProgramInput) : Prop :=
  ∃ v, given.lookup spec.name = some (some v) ∧ Accepts spec v.descriptor

/-- Inputs are taken exactly if each of them is given. -/
theorem takeInputs_ok_iff {program : String} {given : List (String × Option Value)} {env : Env}
    {inputs : List ProgramInput} :
    (∃ env', takeInputs program given env inputs = .ok env') ↔
      ∀ spec ∈ inputs, Given given spec := by
  -- What was taken so far does not matter.
  induction inputs generalizing env with
  | nil => exact ⟨fun _ _ h => absurd h List.not_mem_nil, fun _ => ⟨env, rfl⟩⟩
  | cons spec more ih =>
    rw [List.forall_mem_cons, takeInputs]
    cases hjoin : (given.lookup spec.name).join with
    | none =>
      have hmissing : ¬ Given given spec := by
        rintro ⟨v, hv, -⟩
        rw [hv] at hjoin
        cases hjoin
      simp [hmissing]
    | some v =>
      have hv : given.lookup spec.name = some (some v) := Option.join_eq_some_iff.mp hjoin
      dsimp only
      cases hcheck : checkInput spec v.descriptor with
      | error f =>
        have hunfit : ¬ Given given spec := by
          rintro ⟨w, hw, hfits⟩
          obtain rfl : v = w := Option.some.inj (Option.some.inj (hv.symm.trans hw))
          rw [checkInput_ok_iff.mpr hfits] at hcheck
          cases hcheck
        simp [hunfit]
      | ok u =>
        have hfits : Given given spec := ⟨v, hv, checkInput_ok_iff.mp hcheck⟩
        rw [and_iff_right hfits]
        exact ih

/-- What is defined by taking inputs was given under the name of an input. -/
theorem mem_takeInputs {program : String} {given : List (String × Option Value)} {env env' : Env}
    {inputs : List ProgramInput} (hok : takeInputs program given env inputs = .ok env')
    {x : String × Option Value} (hx : x ∈ env') :
    x ∈ env ∨ ∃ spec ∈ inputs, spec.name = x.1 ∧
      ∃ v, given.lookup spec.name = some (some v) ∧ x.2 = some v := by
  induction inputs generalizing env with
  | nil =>
    cases hok
    exact .inl hx
  | cons spec more ih =>
    rw [takeInputs] at hok
    split at hok
    next => cases hok
    next v hjoin =>
    split at hok
    next => cases hok
    next =>
    rcases ih hok with hmem | ⟨other, hother, hrest⟩
    · rcases List.mem_cons.mp hmem with rfl | hmem
      · exact .inr ⟨spec, List.mem_cons_self, rfl, v, Option.join_eq_some_iff.mp hjoin, rfl⟩
      · exact .inl hmem
    · exact .inr ⟨other, List.mem_cons_of_mem _ hother, hrest⟩

/-! ### The calls of a run -/

/-- A request to the registry: a node, what it is called on, and where. -/
structure NodeCall where
  node : ProgramNode
  args : List (Option Value)
  objects : List Object
  station : Station

/-- What a registry answers. -/
def NodeCall.answer (r : Registry) (mode : Mode) (c : NodeCall) :
    Except Failure (List (Option Value)) × Station :=
  r.invoke mode c.node.op c.args c.objects c.station

/-- **A call delivers values**: it does not fail, and returns as many values as its node binds. -/
def NodeCall.Delivers (r : Registry) (mode : Mode) (c : NodeCall) (values : List (Option Value)) :
    Prop :=
  (c.answer r mode).1 = .ok values ∧ values.length = c.node.outputList.length

/-- A call that delivers nothing fails, or returns another number of values. -/
theorem NodeCall.not_delivers_iff {r : Registry} {mode : Mode} {c : NodeCall} :
    (∀ values, ¬ c.Delivers r mode values) ↔ (∃ f, (c.answer r mode).1 = .error f) ∨
      ∃ values, (c.answer r mode).1 = .ok values ∧ values.length ≠ c.node.outputList.length := by
  unfold Delivers
  cases (c.answer r mode).1 with
  | error f => simp
  | ok values => simp

variable (b : BoundProgram) (mode : Mode)

/-- Asks the registry, and notes the call. -/
def ask (c : NodeCall) : (Except Failure (List (Option Value)) × Station) × List NodeCall :=
  (c.answer b.registry mode, [c])

/-- Makes one call, with notes. -/
def callNodeNoted (env : Env) (n : ProgramNode) (s : Station) :
    (Except Failure Env × Station) × List NodeCall :=
  let args := n.argList.map fun a => (env.lookup a).join
  let objects := n.objects.filterMap fun o => b.objects.lookup o
  match b.ask mode ⟨n, args, objects, s⟩ with
  | ((.error f, s), calls) => ((.error (.within (nodeText n) f), s), calls)
  | ((.ok values, s), calls) =>
    if values.length ≠ n.outputList.length then
      ((.error (.plain (nodeText n ++ " returned " ++ toString values.length ++
        " values, program binds " ++ toString n.outputList.length)), s), calls)
    else ((.ok (bindOutputs env n.outputList values), s), calls)

/-- Makes calls in order, with notes. -/
def callNodesNoted (env : Env) :
    List ProgramNode → Station → (Except Failure Env × Station) × List NodeCall
  | [], s => ((.ok env, s), [])
  | n :: more, s =>
    match b.callNodeNoted mode env n s with
    | ((.error f, s), calls) => ((.error f, s), calls)
    | ((.ok env, s), calls) =>
      let rest := callNodesNoted env more s
      (rest.1, calls ++ rest.2)

/-- **A run with notes**: every request to the registry is noted, in order. -/
def runNoted (given : List (String × Option Value)) (s : Station) :
    (Except Failure (List (Option Value)) × Station) × List NodeCall :=
  let p := b.program
  if given.length ≠ p.inputList.length then
    ((.error (.plain ("program " ++ Text.quote p.name ++ " takes " ++
      toString p.inputList.length ++ " inputs, got " ++ toString given.length)), s), [])
  else
    match takeInputs p.name given [] p.inputList with
    | .error f => ((.error f, s), [])
    | .ok env =>
      match b.callNodesNoted mode env p.nodeList s with
      | ((.error f, s), calls) => ((.error f, s), calls)
      | ((.ok env, s), calls) =>
        ((.ok (p.outputList.map fun o => (env.lookup o).join), s), calls)

/-- The call of a node on the values that are defined. -/
def nodeCall (env : Env) (n : ProgramNode) (s : Station) : NodeCall where
  node := n
  args := n.argList.map fun a => (env.lookup a).join
  objects := n.objects.filterMap fun o => b.objects.lookup o
  station := s

variable {b mode}

/-- A call with notes is the call, and notes itself. -/
theorem callNodeNoted_eq (env : Env) (n : ProgramNode) (s : Station) :
    b.callNodeNoted mode env n s = (b.callNode mode env n s, [b.nodeCall env n s]) := by
  unfold callNodeNoted callNode ask NodeCall.answer
  dsimp only
  rcases b.registry.invoke mode n.op (n.argList.map fun a => (env.lookup a).join)
    (n.objects.filterMap fun o => b.objects.lookup o) s with ⟨f | values, s'⟩
  · rfl
  · dsimp only
    split <;> rfl

/-- Without the notes these are the calls. -/
theorem callNodesNoted_fst (env : Env) (nodes : List ProgramNode) (s : Station) :
    (b.callNodesNoted mode env nodes s).1 = b.callNodes mode env nodes s := by
  induction nodes generalizing env s with
  | nil => rfl
  | cons n more ih =>
    rw [callNodesNoted, callNodes, callNodeNoted_eq]
    obtain ⟨result, s'⟩ := b.callNode mode env n s
    cases result with
    | error f => rfl
    | ok between => exact ih between s'

/-- **Without the notes it is the run.** -/
theorem runNoted_fst (given : List (String × Option Value)) (s : Station) :
    (b.runNoted mode given s).1 = b.run mode given s := by
  unfold runNoted run
  dsimp only
  split
  next => rfl
  next =>
  cases takeInputs b.program.name given [] b.program.inputList with
  | error f => rfl
  | ok env =>
    dsimp only
    rw [← callNodesNoted_fst]
    obtain ⟨⟨result, s'⟩, calls⟩ := b.callNodesNoted mode env b.program.nodeList s
    cases result <;> rfl

/-! ### Which calls are made -/

variable (b mode) in
/-- **The first call decides**: calls go on where it delivers, and end where it does not. -/
theorem callNodesNoted_cons (env : Env) (n : ProgramNode) (more : List ProgramNode) (s : Station) :
    (∃ values rest, (b.nodeCall env n s).Delivers b.registry mode values ∧
      rest = b.callNodesNoted mode (bindOutputs env n.outputList values) more
        ((b.nodeCall env n s).answer b.registry mode).2 ∧
      b.callNodesNoted mode env (n :: more) s = (rest.1, b.nodeCall env n s :: rest.2)) ∨
    (∀ values, ¬ (b.nodeCall env n s).Delivers b.registry mode values) ∧
      ∃ f s', b.callNodesNoted mode env (n :: more) s = ((.error f, s'), [b.nodeCall env n s]) := by
  rw [callNodesNoted, callNodeNoted_eq]
  by_cases hfirst : ∃ values, (b.nodeCall env n s).Delivers b.registry mode values
  · left
    obtain ⟨values, hdelivers⟩ := hfirst
    have hcall : b.callNode mode env n s = (.ok (bindOutputs env n.outputList values), _) :=
      callNode_eq_ok_iff.mpr ⟨values, Prod.ext hdelivers.1 rfl, hdelivers.2, rfl⟩
    refine ⟨values, _, hdelivers, rfl, ?_⟩
    rw [hcall]
    rfl
  · right
    refine ⟨not_exists.mp hfirst, ?_⟩
    -- A call that succeeds delivers, so this one has failed.
    cases hcall : b.callNode mode env n s with
    | mk result s' =>
      cases result with
      | error f => exact ⟨f, s', rfl⟩
      | ok between =>
        obtain ⟨values, hinvoke, hlength, -⟩ := callNode_eq_ok_iff.mp hcall
        exact (hfirst ⟨values, congrArg Prod.fst hinvoke, hlength⟩).elim

/-- **A node is called** if all calls in front of it delivered. -/
theorem callNodesNoted_called_iff {env : Env} {nodes : List ProgramNode} {s : Station} (i : Nat) :
    i < (b.callNodesNoted mode env nodes s).2.length ↔ i < nodes.length ∧
      ∀ j < i, ∃ c values, (b.callNodesNoted mode env nodes s).2[j]? = some c ∧
        c.Delivers b.registry mode values := by
  -- The node behind the first is called if the first call delivered and the rest call it.
  induction nodes generalizing env s i with
  | nil => simp [callNodesNoted]
  | cons n more ih =>
    rcases b.callNodesNoted_cons mode env n more s with
      ⟨values, rest, hdelivers, hrest, hcalls⟩ | ⟨hnone, f, s', hcalls⟩
    · rw [hcalls]
      cases i with
      | zero => simp
      | succ i =>
        rw [List.length_cons, List.length_cons, Nat.succ_lt_succ_iff, Nat.succ_lt_succ_iff,
          hrest, ih]
        refine and_congr_right fun _ => ⟨fun h j hj => ?_, fun h j hj => ?_⟩
        · cases j with
          | zero => exact ⟨_, values, rfl, hdelivers⟩
          | succ j => exact h j (Nat.lt_of_succ_lt_succ hj)
        · exact h (j + 1) (Nat.succ_lt_succ hj)
    · rw [hcalls]
      cases i with
      | zero => simp
      | succ i =>
        -- The first call did not deliver, so that no other is made.
        refine iff_of_false (by simp) fun h => ?_
        obtain ⟨c, values, hc, hdelivers⟩ := h.2 0 (Nat.succ_pos i)
        obtain rfl : b.nodeCall env n s = c := Option.some.inj hc
        exact hnone values hdelivers

/-- **Calls fail** if one of them does not deliver. -/
theorem callNodesNoted_fails_iff {env : Env} {nodes : List ProgramNode} {s : Station} :
    (∃ f, (b.callNodesNoted mode env nodes s).1.1 = .error f) ↔
      ∃ c ∈ (b.callNodesNoted mode env nodes s).2, ∀ values,
        ¬ c.Delivers b.registry mode values := by
  induction nodes generalizing env s with
  | nil => simp [callNodesNoted]
  | cons n more ih =>
    rcases b.callNodesNoted_cons mode env n more s with
      ⟨values, rest, hdelivers, hrest, hcalls⟩ | ⟨hnone, f, s', hcalls⟩
    · -- The first call delivered, so the one that does not is among the rest.
      have hdelivered : ¬ ∀ values, ¬ (b.nodeCall env n s).Delivers b.registry mode values :=
        fun h => h values hdelivers
      rw [hcalls, List.exists_mem_cons_iff, or_iff_right hdelivered, hrest]
      exact ih
    · rw [hcalls]
      exact iff_of_true ⟨f, rfl⟩ ⟨_, List.mem_singleton_self _, hnone⟩

/-- **The station goes from call to call.** -/
theorem callNodesNoted_stations {env : Env} {nodes : List ProgramNode} {s : Station} :
    (∀ c, (b.callNodesNoted mode env nodes s).2[0]? = some c → c.station = s) ∧
      ∀ i c c', (b.callNodesNoted mode env nodes s).2[i]? = some c →
        (b.callNodesNoted mode env nodes s).2[i + 1]? = some c' →
        c'.station = (c.answer b.registry mode).2 := by
  induction nodes generalizing env s with
  | nil => simp [callNodesNoted]
  | cons n more ih =>
    rcases b.callNodesNoted_cons mode env n more s with
      ⟨values, rest, -, hrest, hcalls⟩ | ⟨-, f, s', hcalls⟩
    · obtain ⟨hzero, hsucc⟩ := @ih (bindOutputs env n.outputList values)
        ((b.nodeCall env n s).answer b.registry mode).2
      rw [← hrest] at hzero hsucc
      rw [hcalls]
      -- The second call is the first of the rest, which starts where the first call left off.
      refine ⟨fun c hc => ?_, fun i c c' hc hc' => ?_⟩
      · obtain rfl : b.nodeCall env n s = c := Option.some.inj hc
        rfl
      · cases i with
        | zero =>
          obtain rfl : b.nodeCall env n s = c := Option.some.inj hc
          exact hzero c' hc'
        | succ i => exact hsucc i c c' hc hc'
    · rw [hcalls]
      refine ⟨fun c hc => ?_, fun i c c' _ hc' => by simp at hc'⟩
      obtain rfl : b.nodeCall env n s = c := Option.some.inj hc
      rfl

/-! ### Where values come from -/

variable (b mode) in
/-- **A value supplied at a place**: given for the input, and there; or returned at its position by
the call of the node, where an operator may have left it out. -/
def Supplies (given : List (String × Option Value)) (calls : List NodeCall) :
    Site → Option Value → Prop
  | .input k, arg =>
    ∃ spec v, b.program.inputList[k]? = some spec ∧ given.lookup spec.name = some (some v) ∧
      arg = some v
  | .output i k, v =>
    ∃ c values, calls[i]? = some c ∧ c.Delivers b.registry mode values ∧ values[k]? = some v

variable (b mode) in
/-- **A value comes from a definition of its name in front of node `i`.** -/
def Sourced (given : List (String × Option Value)) (calls : List NodeCall) (i : Nat) (name : String)
    (v : Option Value) : Prop :=
  ∃ site, b.program.Defines site name ∧ site.Precedes i ∧ b.Supplies mode given calls site v

variable {given : List (String × Option Value)}

/-- What is supplied stays so when more calls are made. -/
theorem Sourced.append {calls : List NodeCall} {i : Nat} {name : String} {v : Option Value}
    (h : b.Sourced mode given calls i name v) (more : List NodeCall) {j : Nat} (hij : i ≤ j) :
    b.Sourced mode given (calls ++ more) j name v := by
  obtain ⟨site, hdefines, hprecedes, hsupplies⟩ := h
  refine ⟨site, hdefines, hprecedes.mono hij, ?_⟩
  -- A value that was returned is found where its call is, and calls are added behind it.
  cases site with
  | input k => exact hsupplies
  | output node k =>
    obtain ⟨c, values, hc, hrest⟩ := hsupplies
    refine ⟨c, values, ?_, hrest⟩
    rwa [List.getElem?_append_left (List.getElem?_eq_some_iff.mp hc).1]

/-- A sourced value is there, if no operator that was called has left a value out. -/
theorem Sourced.ne_none {calls : List NodeCall} {i : Nat} {name : String} {v : Option Value}
    (h : b.Sourced mode given calls i name v)
    (hcomplete : ∀ c ∈ calls, ∀ values, c.Delivers b.registry mode values → none ∉ values) :
    v ≠ none := by
  rintro rfl
  obtain ⟨site, -, -, hsupplies⟩ := h
  cases site with
  | input k =>
    obtain ⟨spec, v, -, -, hvalue⟩ := hsupplies
    cases hvalue
  | output node k =>
    obtain ⟨c, values, hc, hdelivers, hvalue⟩ := hsupplies
    exact hcomplete c (List.mem_of_getElem? hc) values hdelivers (List.mem_of_getElem? hvalue)

variable (b mode) in
/-- **Values that are all sourced** in front of the next call. -/
def AllSourced (given : List (String × Option Value)) (calls : List NodeCall) (env : Env) : Prop :=
  ∀ x ∈ env, b.Sourced mode given calls calls.length x.1 x.2

/-- The inputs are sourced. -/
theorem allSourced_inputs {env : Env}
    (hok : takeInputs b.program.name given [] b.program.inputList = .ok env) :
    b.AllSourced mode given [] env := by
  intro x hx
  rcases mem_takeInputs hok hx with hx | ⟨spec, hspec, hname, v, hgiven, hvalue⟩
  · exact absurd hx List.not_mem_nil
  · obtain ⟨k, hk⟩ := List.mem_iff_getElem?.mp hspec
    exact ⟨.input k, ⟨spec, hk, hname⟩, trivial, spec, v, hk, hgiven, hvalue⟩

/-- **One call keeps values sourced.** -/
theorem AllSourced.bindOutputs {calls : List NodeCall} {env : Env}
    (henv : b.AllSourced mode given calls env) {n : ProgramNode}
    (hn : b.program.nodeList[calls.length]? = some n) {s : Station} {values : List (Option Value)}
    (h : (b.nodeCall env n s).Delivers b.registry mode values) :
    b.AllSourced mode given (calls ++ [b.nodeCall env n s])
      (bindOutputs env n.outputList values) := by
  intro x hx
  rw [List.length_append, List.length_singleton]
  rw [bindOutputs_eq] at hx
  rcases List.mem_append.mp hx with hx | hx
  · -- A new value is the one that the call returned at the position of its name.
    obtain ⟨k, hk⟩ := List.mem_iff_getElem?.mp (List.mem_reverse.mp hx)
    obtain ⟨hname, hvalue⟩ := List.getElem?_zip_eq_some.mp hk
    refine ⟨.output calls.length k, ⟨n, hn, hname⟩, Nat.lt_succ_self _, _, values, ?_, h, hvalue⟩
    exact List.getElem?_concat_length
  · exact (henv x hx).append _ (Nat.le_succ _)

variable (b mode) in
/-- **A call of node `i`**: every argument is sourced in front of the node. -/
structure IsCall (given : List (String × Option Value)) (calls : List NodeCall) (i : Nat)
    (c : NodeCall) : Prop where
  node : b.program.nodeList[i]? = some c.node
  args : List.Forall₂ (b.Sourced mode given calls i) c.node.argList c.args
  objects : c.objects = c.node.objects.filterMap fun o => b.objects.lookup o

/-- A node whose arguments are defined is called on sourced values. -/
theorem AllSourced.isCall {calls : List NodeCall} {env : Env}
    (henv : b.AllSourced mode given calls env) {n : ProgramNode}
    (hn : b.program.nodeList[calls.length]? = some n) (hargs : ∀ a ∈ n.argList, a ∈ Env.names env)
    (s : Station) (more : List NodeCall) :
    b.IsCall mode given (calls ++ more) calls.length (b.nodeCall env n s) where
  node := hn
  args := by
    refine List.forall₂_map_right_iff.mpr (List.forall₂_same.mpr fun a ha => ?_)
    obtain ⟨v, hv⟩ := exists_lookup (hargs a ha)
    rw [hv, Option.join_some]
    exact (henv _ (mem_of_lookup hv)).append more le_rfl
  objects := rfl

/-- **All calls keep values sourced**: behind calls that were made, every further one is the call of
the next node, and the values that are defined in the end are sourced. -/
theorem AllSourced.callNodesNoted {made : List NodeCall} {env : Env}
    (henv : b.AllSourced mode given made env) {done nodes : List ProgramNode}
    (hsplit : b.program.nodeList = done ++ nodes) (hlength : made.length = done.length)
    (hcallable : Program.Callable (Env.names env) nodes) {s : Station}
    {result : Except Failure Env × Station} {calls : List NodeCall}
    (hcalls : b.callNodesNoted mode env nodes s = (result, calls)) :
    (∀ j c, calls[j]? = some c → b.IsCall mode given (made ++ calls) (made.length + j) c) ∧
      ∀ final, result.1 = .ok final → b.AllSourced mode given (made ++ calls) final ∧
        Env.names final = Program.definedAfter (Env.names env) nodes ∧
        calls.length = nodes.length := by
  -- Calls that were made and nodes that are done grow together, one of each at a time.
  induction nodes generalizing made env done s result calls with
  | nil =>
    cases hcalls
    refine ⟨fun j c hc => by simp at hc, fun final hfinal => ?_⟩
    cases hfinal
    rw [List.append_nil]
    exact ⟨henv, rfl, rfl⟩
  | cons n more ih =>
    obtain ⟨hargs, -, -, hmore⟩ := hcallable
    -- The next node is the one that has not been called yet.
    have hn : b.program.nodeList[made.length]? = some n := by
      rw [hsplit, hlength, List.getElem?_append_right le_rfl, Nat.sub_self]
      rfl
    rcases b.callNodesNoted_cons mode env n more s with
      ⟨values, rest, hdelivers, hrest, heq⟩ | ⟨-, f, s', heq⟩
    · obtain ⟨rfl, rfl⟩ := Prod.mk.inj (heq.symm.trans hcalls)
      -- The first call joins those that were made, and its node those that are done.
      have hnames := @names_bindOutputs env n.outputList values hdelivers.2
      have hshift : made ++ b.nodeCall env n s :: rest.2 =
          (made ++ [b.nodeCall env n s]) ++ rest.2 := by
        rw [List.append_assoc, List.singleton_append]
      have hsplit' : b.program.nodeList = (done ++ [n]) ++ more := by
        rw [hsplit, List.append_assoc, List.singleton_append]
      have hlength' : (made ++ [b.nodeCall env n s]).length = (done ++ [n]).length := by
        rw [List.length_append, List.length_append, hlength]
        rfl
      obtain ⟨hlater, hfinal⟩ :=
        ih (henv.bindOutputs hn hdelivers) hsplit' hlength' (hnames ▸ hmore) hrest.symm
      refine ⟨fun j c hc => ?_, fun final hok => ?_⟩
      · cases j with
        | zero =>
          obtain rfl : b.nodeCall env n s = c := Option.some.inj hc
          exact henv.isCall hn hargs s _
        | succ j =>
          -- The place is counted from the calls that were made before.
          have hcall := hlater j c hc
          rw [List.length_append, List.length_singleton, Nat.add_assoc, Nat.add_comm 1 j,
            ← hshift] at hcall
          exact hcall
      · obtain ⟨hsourced, hdefined, hcount⟩ := hfinal final hok
        refine ⟨hshift ▸ hsourced, ?_, congrArg (· + 1) hcount⟩
        rw [hdefined, hnames]
        rfl
    · obtain ⟨rfl, rfl⟩ := Prod.mk.inj (heq.symm.trans hcalls)
      refine ⟨fun j c hc => ?_, fun final hok => by cases hok⟩
      cases j with
      | zero =>
        obtain rfl : b.nodeCall env n s = c := Option.some.inj hc
        exact henv.isCall hn hargs s _
      | succ j => simp at hc

/-! ### Runs -/

/-- **A run in single assignment**, with its result and the calls that it made.

* Every name has one definition, and every object a name of its own.
* Call `i` is the call of node `i`. Each of its arguments is the value of the definition of its
  name, in front of the node, and all are there unless an operator left one of its values out; its
  objects are those rebuilt under their names. The first call is made where the run starts, the
  others where the one before left off.
* A node is called if the inputs are right and all calls in front of it delivered.
* An output is the value of the definition of its name.
* The run fails if the inputs are too many or too few, one is not given or does not fit, a call
  fails, or a call returns another number of values than its node binds. -/
structure SingleAssignment (b : BoundProgram) (mode : Mode) (given : List (String × Option Value))
    (s : Station) (result : Except Failure (List (Option Value))) (calls : List NodeCall) :
    Prop where
  defined_once : ∀ site site' name, b.program.Defines site name → b.program.Defines site' name →
    site = site'
  objects_once : (b.program.objects.map (·.name)).Nodup
  node : ∀ (i : Nat) (c : NodeCall), calls[i]? = some c → b.program.nodeList[i]? = some c.node
  args : ∀ (i : Nat) (c : NodeCall), calls[i]? = some c →
    List.Forall₂ (b.Sourced mode given calls i) c.node.argList c.args
  args_present : (∀ c ∈ calls, ∀ values, c.Delivers b.registry mode values → none ∉ values) →
    ∀ c ∈ calls, none ∉ c.args
  objects : ∀ c ∈ calls, List.Forall₂ (fun o live => b.objects.lookup o = some live ∧
      ∃ stored ∈ b.program.objects, stored.name = o ∧
        b.registry.unflattenObject stored.className (stored.fields.getD []) = .ok live)
    c.node.objects c.objects
  first_station : ∀ (c : NodeCall), calls[0]? = some c → c.station = s
  next_station : ∀ (i : Nat) (c c' : NodeCall), calls[i]? = some c → calls[i + 1]? = some c' →
    c'.station = (c.answer b.registry mode).2
  called_iff : ∀ i, i < calls.length ↔ i < b.program.nodeList.length ∧
    given.length = b.program.inputList.length ∧ (∀ spec ∈ b.program.inputList, Given given spec) ∧
    ∀ j < i, ∃ (c : NodeCall) (values : List (Option Value)), calls[j]? = some c ∧
      c.Delivers b.registry mode values
  outputs : ∀ values, result = .ok values →
    List.Forall₂ (b.Sourced mode given calls b.program.nodeList.length) b.program.outputList values
  fails_iff : (∃ f, result = .error f) ↔ given.length ≠ b.program.inputList.length ∨
    (∃ spec ∈ b.program.inputList, ¬ Given given spec) ∨
    (∃ c ∈ calls, ∃ f, (c.answer b.registry mode).1 = .error f) ∨
    ∃ c ∈ calls, ∃ values, (c.answer b.registry mode).1 = .ok values ∧
      values.length ≠ c.node.outputList.length

variable (mode) in
/-- A run whose inputs are not right fails before any call. -/
theorem runNoted_refused (s : Station) (h : ¬ (given.length = b.program.inputList.length ∧
      ∀ spec ∈ b.program.inputList, Given given spec)) :
    ∃ f, b.runNoted mode given s = ((.error f, s), []) := by
  unfold runNoted
  dsimp only
  by_cases hcount : given.length = b.program.inputList.length
  · rw [if_neg (not_not.mpr hcount)]
    cases htake : takeInputs b.program.name given [] b.program.inputList with
    | error f => exact ⟨f, rfl⟩
    | ok env => exact (h ⟨hcount, takeInputs_ok_iff.mp ⟨env, htake⟩⟩).elim
  · rw [if_pos hcount]
    exact ⟨_, rfl⟩

variable (mode) in
/-- A run whose inputs are right makes the calls, and looks its outputs up in the end. -/
theorem runNoted_accepted (s : Station) (hcount : given.length = b.program.inputList.length)
    (hgiven : ∀ spec ∈ b.program.inputList, Given given spec) :
    ∃ env result calls, takeInputs b.program.name given [] b.program.inputList = .ok env ∧
      b.callNodesNoted mode env b.program.nodeList s = (result, calls) ∧
      b.runNoted mode given s = ((result.1.map fun final =>
        b.program.outputList.map fun o => (final.lookup o).join, result.2), calls) := by
  obtain ⟨env, htake⟩ := takeInputs_ok_iff.mpr hgiven
  obtain ⟨⟨result, calls⟩, hcalls⟩ :
      ∃ noted, b.callNodesNoted mode env b.program.nodeList s = noted :=
    ⟨_, rfl⟩
  refine ⟨env, result, calls, htake, hcalls, ?_⟩
  unfold runNoted
  dsimp only
  rw [if_neg (not_not.mpr hcount), htake]
  dsimp only
  rw [hcalls]
  rcases result with ⟨f | final, s'⟩ <;> rfl

/-- Without the right inputs, no call is made. -/
theorem singleAssignment_refused (hvalid : b.program.validate = .ok ()) {s : Station} {f : Failure}
    (h : ¬ (given.length = b.program.inputList.length ∧
      ∀ spec ∈ b.program.inputList, Given given spec)) :
    b.SingleAssignment mode given s (.error f) [] where
  defined_once := fun _ _ _ => Program.Defines.unique hvalid
  objects_once := (Program.validate_objects hvalid).1
  node := by simp
  args := by simp
  args_present := by simp
  objects := by simp
  first_station := by simp
  next_station := by simp
  called_iff i := iff_of_false (Nat.not_lt_zero i) fun hi => h ⟨hi.2.1, hi.2.2.1⟩
  outputs := by simp
  fails_iff := by
    refine iff_of_true ⟨f, rfl⟩ ?_
    by_cases hcount : given.length = b.program.inputList.length
    · have hmissing : ¬ ∀ spec ∈ b.program.inputList, Given given spec :=
        fun hall => h ⟨hcount, hall⟩
      push Not at hmissing
      exact .inr (.inl hmissing)
    · exact .inl hcount

/-- With the right inputs, the calls are those of all nodes in order. -/
theorem singleAssignment_accepted (hvalid : b.program.validate = .ok ())
    (hrebuild : rebuild b.registry b.program.name b.program.objects = .ok b.objects)
    (hcount : given.length = b.program.inputList.length)
    (hgiven : ∀ spec ∈ b.program.inputList, Given given spec) {env : Env}
    (htake : takeInputs b.program.name given [] b.program.inputList = .ok env) {s : Station}
    {result : Except Failure Env × Station} {calls : List NodeCall}
    (hcalls : b.callNodesNoted mode env b.program.nodeList s = (result, calls)) :
    b.SingleAssignment mode given s
      (result.1.map fun final => b.program.outputList.map fun o => (final.lookup o).join)
        calls := by
  obtain ⟨-, hcallable, hdefined⟩ := Program.validate_ok hvalid
  obtain ⟨hobjects, hused⟩ := Program.validate_objects hvalid
  have hnames : Env.names env = (b.program.inputList.map (·.name)).reverse :=
    (names_takeInputs htake).trans (List.append_nil _)
  rw [← hnames] at hcallable hdefined
  have hinputs : b.AllSourced mode given [] env := allSourced_inputs htake
  have hsplit : b.program.nodeList = [] ++ b.program.nodeList := rfl
  obtain ⟨hmade, hfinal⟩ := hinputs.callNodesNoted hsplit rfl hcallable hcalls
  have hcall (i : Nat) (c : NodeCall) (hc : calls[i]? = some c) :
      b.IsCall mode given calls i c := by
    have hi := hmade i c hc
    rwa [List.nil_append, List.length_nil, Nat.zero_add] at hi
  obtain ⟨hfirst, hnext⟩ := @callNodesNoted_stations b mode env b.program.nodeList s
  have hcalled := @callNodesNoted_called_iff b mode env b.program.nodeList s
  have hfails := @callNodesNoted_fails_iff b mode env b.program.nodeList s
  rw [hcalls] at hfirst hnext hcalled hfails
  exact {
    defined_once := fun _ _ _ => Program.Defines.unique hvalid
    objects_once := hobjects
    node := fun i c hc => (hcall i c hc).node
    args := fun i c hc => (hcall i c hc).args
    -- An argument that is not there would come from an operator that left it out.
    args_present := by
      intro hcomplete c hc hmissing
      obtain ⟨i, hi⟩ := List.mem_iff_getElem?.mp hc
      obtain ⟨k, hk⟩ := List.mem_iff_getElem?.mp hmissing
      obtain ⟨a, -, hsourced⟩ := forall₂_getElem? (hcall i c hi).args.flip hk
      exact Sourced.ne_none hsourced hcomplete rfl
    objects := by
      intro c hc
      obtain ⟨i, hi⟩ := List.mem_iff_getElem?.mp hc
      have hisCall := hcall i c hi
      rw [hisCall.objects]
      -- The check of the program has seen every object that a node uses.
      refine forall₂_filterMap fun o ho => ?_
      have hname := hused c.node (List.mem_of_getElem? hisCall.node) o ho
      obtain ⟨live, hlookup, hbuilt⟩ := lookup_rebuild hrebuild hobjects hname
      exact ⟨live, hlookup, hlookup, hbuilt⟩
    first_station := hfirst
    next_station := hnext
    called_iff := by
      intro i
      rw [hcalled, and_iff_right hcount, and_iff_right hgiven]
    outputs := by
      intro values hvalues
      obtain ⟨final, hok, rfl⟩ := map_eq_ok_iff.mp hvalues
      obtain ⟨hsourced, hafter, hlength⟩ := hfinal final hok
      rw [List.nil_append] at hsourced
      refine List.forall₂_map_right_iff.mpr (List.forall₂_same.mpr fun o ho => ?_)
      -- The check of the program has found a definition for every output.
      obtain ⟨v, hv⟩ := exists_lookup (hafter ▸ hdefined o ho)
      rw [hv, Option.join_some]
      exact hlength ▸ hsourced _ (mem_of_lookup hv)
    fails_iff := by
      -- Looking the outputs up does not fail.
      have hmap : (∃ f, result.1.map (fun final =>
          b.program.outputList.map fun o => (final.lookup o).join) = .error f) ↔
            ∃ f, result.1 = .error f := by
        cases result.1 <;> simp [Except.map]
      have hright : ¬ ∃ spec ∈ b.program.inputList, ¬ Given given spec := by
        rintro ⟨spec, hspec, hmissing⟩
        exact hmissing (hgiven spec hspec)
      rw [hmap, hfails, or_iff_right (not_not.mpr hcount), or_iff_right hright]
      simp only [NodeCall.not_delivers_iff, and_or_left, exists_or] }

/-- **A program that can be bound runs in single assignment**, in every mode and on all inputs. -/
theorem singleAssignment_of_bind {r : Registry} {p : Program} (hbind : bind r p = .ok b)
    (mode : Mode) (given : List (String × Option Value)) (s : Station) :
    b.program = p ∧ b.registry = r ∧ (b.runNoted mode given s).1 = b.run mode given s ∧
      b.SingleAssignment mode given s (b.run mode given s).1 (b.runNoted mode given s).2 := by
  obtain ⟨hvalid, ⟨objects, hrebuild, rfl⟩, -⟩ := bind_ok_iff.mp hbind
  refine ⟨rfl, rfl, runNoted_fst given s, ?_⟩
  rw [← runNoted_fst]
  -- The inputs alone decide whether any call is made.
  by_cases hinputs : given.length = p.inputList.length ∧ ∀ spec ∈ p.inputList, Given given spec
  · obtain ⟨hcount, hgiven⟩ := hinputs
    obtain ⟨env, result, calls, htake, hcalls, hrun⟩ :=
      runNoted_accepted (b := ⟨p, r, objects⟩) mode s hcount hgiven
    rw [hrun]
    exact singleAssignment_accepted (b := ⟨p, r, objects⟩)
      hvalid hrebuild hcount hgiven htake hcalls
  · obtain ⟨f, hrun⟩ := runNoted_refused (b := ⟨p, r, objects⟩) mode s hinputs
    rw [hrun]
    exact singleAssignment_refused (b := ⟨p, r, objects⟩) hvalid hinputs

/-- The engine and the copy without negative numbers, where each is the value of its definition. -/
theorem singleAssignment_runAndRectify :
    ∃ values, ((runAndRectifyBound turningHandle [engineNode, rectifyNode]).run .concrete
        (tensorInputs [("x", column)]) plainStation).1 = .ok values ∧
      List.Forall₂ ((runAndRectifyBound turningHandle [engineNode, rectifyNode]).Sourced .concrete
        (tensorInputs [("x", column)])
        ((runAndRectifyBound turningHandle [engineNode, rectifyNode]).runNoted .concrete
          (tensorInputs [("x", column)]) plainStation).2 2) ["y", "z"] values := by
  have hbuilt := Handle.builtFrom_of_buildTextHandle turning_fitsWidths turningHandle_eq
  have hrun := eq_ok_get runAndRectify_runs
  obtain ⟨-, -, -, hsingle⟩ := singleAssignment_of_bind (bind_runAndRectify hbuilt (.inl rfl))
    .concrete (tensorInputs [("x", column)]) plainStation
  exact ⟨_, hrun, hsingle.outputs _ hrun⟩

end BoundProgram

end EngineHost
