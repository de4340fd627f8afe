import EngineHost.Operator.Registry

/-!
# Programs

A program is a list of operator calls over named values, with the objects these calls use. Every
value has one definition, as an input or as an output of a call, and is defined before it is used;
`Program.validate` checks that and names the first fault in order.

A list may be absent, which matters to its written form only.
-/

namespace EngineHost

/-- A declared input; negative sizes are not known. -/
structure ProgramInput where
  name : String := ""
  dtype : DType := ⟨""⟩
  shape : Option Shape := none
  device : Device := ⟨"", 0⟩
  deriving DecidableEq, Repr, Inhabited

/-- An object in exported form. -/
structure StoredObject where
  name : String := ""
  className : String := ""
  fields : Option (List Field) := none
  deriving Inhabited

/-- A call of an operator on values and objects. -/
structure ProgramNode where
  name : String := ""
  op : String := ""
  args : Option (List String) := none
  objects : List String := []
  outputs : Option (List String) := none
  deriving DecidableEq, Repr, Inhabited

/-- A program. -/
structure Program where
  name : String := ""
  inputs : Option (List ProgramInput) := none
  objects : List StoredObject := []
  nodes : Option (List ProgramNode) := none
  outputs : Option (List String) := none
  deriving Inhabited

/-- What an input looks like. -/
def ProgramInput.descriptor (i : ProgramInput) : Descriptor :=
  ⟨i.dtype, i.shape.getD [], i.device⟩

namespace ProgramNode

/-- The arguments. -/
def argList (n : ProgramNode) : List String := n.args.getD []

/-- The values defined. -/
def outputList (n : ProgramNode) : List String := n.outputs.getD []

end ProgramNode

/-- What is wrong with a program. -/
inductive ProgramFault where
  | emptyName (what : String)
  | definedTwice (name : String)
  | unsupportedDType (input : String) (dtype : DType)
  | badObjectName (name : String)
  | noOp (node : Nat)
  | undefinedArg (node arg : String)
  | unknownObject (node object : String)
  | noOutputs
  | undefinedOutput (name : String)
  deriving DecidableEq, Repr

/-- The wording of a fault. -/
def ProgramFault.message (program : String) (f : ProgramFault) : String :=
  "program " ++ Text.quote program ++
    match f with
    | .emptyName what => ": empty " ++ what ++ " name"
    | .definedTwice name => ": value " ++ Text.quote name ++ " defined twice"
    | .unsupportedDType input dtype =>
      ": input " ++ Text.quote input ++ " has unsupported dtype " ++ Text.quote dtype.name
    | .badObjectName name => ": object name " ++ Text.quote name ++ " is empty or repeated"
    | .noOp node => ": node " ++ toString node ++ " has no op"
    | .undefinedArg node arg =>
      ": node " ++ Text.quote node ++ " uses " ++ Text.quote arg ++ " before it is defined"
    | .unknownObject node object =>
      ": node " ++ Text.quote node ++ " uses unknown object " ++ Text.quote object
    | .noOutputs => " has no outputs"
    | .undefinedOutput name => ": output " ++ Text.quote name ++ " is never defined"

namespace Program

variable (p : Program)

/-- The declared inputs. -/
def inputList : List ProgramInput := p.inputs.getD []

/-- The calls. -/
def nodeList : List ProgramNode := p.nodes.getD []

/-- The outputs. -/
def outputList : List String := p.outputs.getD []

/-- Defines a value. -/
def define (what : String) (defined : List String) (name : String) :
    Except ProgramFault (List String) :=
  if name = "" then .error (.emptyName what)
  else if defined.contains name then .error (.definedTwice name)
  else .ok (name :: defined)

/-- Checks an input and defines it. -/
def checkInput (defined : List String) (i : ProgramInput) : Except ProgramFault (List String) := do
  let defined ← define "input" defined i.name
  if !i.dtype.isValid then .error (.unsupportedDType i.name i.dtype)
  pure defined

/-- Checks the name of an object. -/
def checkObject (objects : List String) (o : StoredObject) : Except ProgramFault (List String) :=
  if o.name = "" ∨ objects.contains o.name then .error (.badObjectName o.name)
  else .ok (o.name :: objects)

/-- Checks call number `i` and defines its outputs. -/
def checkNode (objects defined : List String) (i : Nat) (n : ProgramNode) :
    Except ProgramFault (List String) :=
  if n.op = "" then .error (.noOp i)
  else
    match n.argList.find? (!defined.contains ·) with
    | some arg => .error (.undefinedArg n.name arg)
    | none =>
      match n.objects.find? (!objects.contains ·) with
      | some object => .error (.unknownObject n.name object)
      | none => n.outputList.foldlM (define "node output") defined

/-- Checks calls from number `i` on. -/
def checkNodes (objects defined : List String) (i : Nat) :
    List ProgramNode → Except ProgramFault (List String)
  | [] => .ok defined
  | n :: more => do
    let defined ← checkNode objects defined i n
    checkNodes objects defined (i + 1) more

/-- Checks a program. -/
def check : Except ProgramFault Unit := do
  let defined ← p.inputList.foldlM checkInput []
  let objects ← p.objects.foldlM checkObject []
  let defined ← checkNodes objects defined 0 p.nodeList
  if p.outputList.isEmpty then .error .noOutputs
  match p.outputList.find? (!defined.contains ·) with
  | some name => .error (.undefinedOutput name)
  | none => pure ()

/-- Checks a program, with the program named in the failure. -/
def validate : Except Failure Unit :=
  p.check.mapError fun f => .plain (f.message p.name)

/-- Adds a live object under a name. -/
def addObject (r : Registry) (name : String) (o : Object) : Except Failure Program :=
  if p.objects.any (·.name = name) then
    .error (.plain ("program " ++ Text.quote p.name ++ " already has object " ++ Text.quote name))
  else
    (r.flattenObject o).map fun fields =>
      { p with objects := p.objects ++ [⟨name, o.className, some fields⟩] }

end Program

end EngineHost
