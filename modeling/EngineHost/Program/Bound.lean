import EngineHost.Program.Basic

/-!
# Bound programs

Binding rebuilds a program's objects through the classes of a registry and checks that its operators
are there. A bound program is run in either mode: inputs are held against their declarations, calls
are made in order, each value keeps the name it was defined under, and the outputs are looked up at
the end.
-/

namespace EngineHost

/-- A program with a registry and its live objects. -/
structure BoundProgram where
  program : Program
  registry : Registry
  objects : List (String × Object)

namespace BoundProgram

/-- Rebuilds objects in order. -/
def rebuild (r : Registry) (program : String) :
    List StoredObject → Except Failure (List (String × Object))
  | [] => .ok []
  | o :: more =>
    match r.unflattenObject o.className (o.fields.getD []) with
    | .error f =>
      .error (.within ("program " ++ Text.quote program ++ " object " ++ Text.quote o.name) f)
    | .ok live => (rebuild r program more).map ((o.name, live) :: ·)

/-- Binds a program to a registry. -/
def bind (r : Registry) (p : Program) : Except Failure BoundProgram := do
  p.validate
  let objects ← rebuild r p.name p.objects
  match p.nodeList.find? fun n => (r.operator? n.op).isNone with
  | some n =>
    .error (.within ("program " ++ Text.quote p.name ++ " node " ++ Text.quote n.name ++ ": " ++
      Text.quote n.op) .unknownOperator)
  | none => pure ⟨p, r, objects⟩

/-- Holds a value against a declared input: element type and rank agree, and sizes where both are
known. -/
def checkInput (spec : ProgramInput) (d : Descriptor) : Except Failure Unit :=
  let declared := spec.shape.getD []
  if d.dtype ≠ spec.dtype then
    .error (.plain ("dtype " ++ d.dtype.name ++ ", declared " ++ spec.dtype.name))
  else if d.shape.length ≠ declared.length then
    .error (.plain ("rank " ++ toString d.shape.length ++ ", declared " ++
      toString declared.length))
  else if (declared.zip d.shape).any fun (want, got) => 0 ≤ want && 0 ≤ got && got ≠ want then
    .error (.plain ("shape " ++ d.shape.text ++ ", declared " ++ declared.text))
  else .ok ()

/-- What is defined, latest first; a call may have left a value out. -/
abbrev Env := List (String × Option Value)

/-- Takes the declared inputs from the given ones. -/
def takeInputs (program : String) (given : List (String × Option Value)) (env : Env) :
    List ProgramInput → Except Failure Env
  | [] => .ok env
  | spec :: more =>
    match (given.lookup spec.name).join with
    | none =>
      .error (.plain ("program " ++ Text.quote program ++ ": missing input " ++
        Text.quote spec.name))
    | some v =>
      match checkInput spec v.descriptor with
      | .error f =>
        .error (.within ("program " ++ Text.quote program ++ " input " ++ Text.quote spec.name) f)
      | .ok () => takeInputs program given ((spec.name, some v) :: env) more

/-- What messages call a node. -/
def nodeText (n : ProgramNode) : String :=
  "node " ++ Text.quote n.name ++ " (" ++ n.op ++ ")"

/-- Defines the values of a call. -/
def bindOutputs (env : Env) (names : List String) (values : List (Option Value)) : Env :=
  (names.zip values).foldl (fun env entry => entry :: env) env

variable (b : BoundProgram)

/-- Makes one call. -/
def callNode (mode : Mode) (env : Env) (n : ProgramNode) (s : Station) :
    Except Failure Env × Station :=
  let args := n.argList.map fun a => (env.lookup a).join
  let objects := n.objects.filterMap fun o => b.objects.lookup o
  match b.registry.invoke mode n.op args objects s with
  | (.error f, s) => (.error (.within (nodeText n) f), s)
  | (.ok values, s) =>
    if values.length ≠ n.outputList.length then
      (.error (.plain (nodeText n ++ " returned " ++ toString values.length ++
        " values, program binds " ++ toString n.outputList.length)), s)
    else (.ok (bindOutputs env n.outputList values), s)

/-- Makes calls in order. -/
def callNodes (mode : Mode) (env : Env) : List ProgramNode → Station → Except Failure Env × Station
  | [], s => (.ok env, s)
  | n :: more, s =>
    match b.callNode mode env n s with
    | (.error f, s) => (.error f, s)
    | (.ok env, s) => callNodes mode env more s

/-- Runs a program on inputs by name. -/
def run (mode : Mode) (given : List (String × Option Value)) (s : Station) :
    Except Failure (List (Option Value)) × Station :=
  let p := b.program
  if given.length ≠ p.inputList.length then
    (.error (.plain ("program " ++ Text.quote p.name ++ " takes " ++
      toString p.inputList.length ++ " inputs, got " ++ toString given.length)), s)
  else
    match takeInputs p.name given [] p.inputList with
    | .error f => (.error f, s)
    | .ok env =>
      match b.callNodes mode env p.nodeList s with
      | (.error f, s) => (.error f, s)
      | (.ok env, s) => (.ok (p.outputList.map fun o => (env.lookup o).join), s)

/-- The declared inputs as symbols. -/
def declaredInputs : List (String × Option Value) :=
  b.program.inputList.map fun i => (i.name, some (.symbol i.descriptor))

/-- Traces a program on its declared inputs. There is no telling what a missing value looks like. -/
def trace (s : Station) : Except Failure (List Descriptor) × Station :=
  let (out, s) := b.run .symbolic b.declaredInputs s
  let found := out.bind fun outs =>
    match outs.mapM fun v => v.map Value.descriptor with
    | some found => .ok found
    | none => .error .crash
  (found, s)

end BoundProgram

end EngineHost
