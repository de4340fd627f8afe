import EngineHost.Yaml.Token

/-!
# Nodes

The tokens of a document make a node: a scalar, a list, a table, or another node by its name. Only
the first document of a text is read. What follows it may be anything, as long as the next
`lookahead` tokens can be cut.
-/

namespace EngineHost.Yaml

/-- A node. The tag of a scalar is absent where none is written. -/
inductive Node where
  | scalar (tag : Option String) (text : String) (isPlain : Bool)
  | list (items : List Node)
  | table (entries : List (Node × Node))
  | named (name : String) (node : Node)
  deriving Inhabited

namespace Node

/-- A node where nothing is written. -/
def empty : Node := .scalar none "" true

end Node

/-- Tokens while they are read: those left, whether they reach to the end of the text, the nodes
with a name, and what the handles of tags stand for. A node that is not complete yet is absent. -/
structure Source where
  tokens : List Token
  isWhole : Bool
  anchors : List (String × Option Node) := []
  handles : List (String × String) := []

/-- Reads from tokens. -/
abbrev Parse := StateT Source Option

namespace Parse

/-- The next token. -/
def peek : Parse Token := do
  match (← get).tokens with
  | t :: _ => pure t
  | [] => failure

/-- Passes over a token. -/
def skip : Parse Unit :=
  modify fun s => { s with tokens := s.tokens.drop 1 }

/-- Gives a node a name. -/
def bindName (name : Option String) (n : Option Node) : Parse Unit :=
  match name with
  | some name => modify fun s => { s with anchors := (name, n) :: s.anchors }
  | none => pure ()

/-- Completes a node with a name, unless the name went to another one since. -/
def complete (name : Option String) (n : Node) : Parse Node := do
  match name with
  | none => pure n
  | some name =>
    match (← get).anchors.lookup name with
    | some none => bindName (some name) (some n)
    | _ => pure ()
    pure n

/-- The node of a name. -/
def ofName (name : String) : Parse Node := do
  match (← get).anchors.lookup name with
  | some (some n) => pure (.named name n)
  | _ => failure

/-- The whole of a tag. -/
def wholeTag (handle suffix : String) : Parse String := do
  if handle = "" then pure suffix
  else
    match (← get).handles.lookup handle with
    | some start => if start ++ suffix = "" then failure else pure (start ++ suffix)
    | none => failure

/-- A name and a tag before a node, in any order. -/
def properties : Parse (Option String × Option String) := do
  match ← peek with
  | .anchor name => do
    skip
    match ← peek with
    | .tag h t => do
      skip
      pure (some name, some (← wholeTag h t))
    | _ => pure (some name, none)
  | .tag h t => do
    skip
    match ← peek with
    | .anchor name => do
      skip
      pure (some name, some (← wholeTag h t))
    | _ => pure (none, some (← wholeTag h t))
  | _ => pure (none, none)

mutual

/-- A node. Lists and tables by indentation only start where `isBlock` says so; the items of a list
may stand at the column of its key where `takesItems` says so. -/
def node (fuel : Nat) (isBlock takesItems : Bool) : Parse Node := do
  match fuel with
  | 0 => failure
  | fuel + 1 =>
    match ← peek with
    | .alias name => do
      skip
      ofName name
    | _ => do
      let (name, tag) ← properties
      match ← peek, isBlock, takesItems with
      | .dash, _, true => do
        bindName name none
        complete name (.list (← sameColumnItems fuel []))
      | .scalar text isPlain, _, _ => do
        skip
        let n := Node.scalar tag text isPlain
        bindName name (some n)
        pure n
      | .openList, _, _ => do
        skip
        bindName name none
        complete name (.list (← bracketItems fuel true []))
      | .openTable, _, _ => do
        skip
        bindName name none
        complete name (.table (← bracketEntries fuel true []))
      | .openItems, true, _ => do
        skip
        bindName name none
        complete name (.list (← blockItems fuel []))
      | .openEntries, true, _ => do
        skip
        bindName name none
        complete name (.table (← blockEntries fuel []))
      | _, _, _ => do
        if name.isNone && tag.isNone then failure
        let n := Node.scalar tag "" true
        bindName name (some n)
        pure n

/-- The items of a list by indentation, up to its end. -/
def blockItems (fuel : Nat) (acc : List Node) : Parse (List Node) := do
  match fuel with
  | 0 => failure
  | fuel + 1 =>
    match ← peek with
    | .close => do
      skip
      pure acc.reverse
    | .dash => do
      skip
      match ← peek with
      | .dash => blockItems fuel (.empty :: acc)
      | .close => blockItems fuel (.empty :: acc)
      | _ => do
        let n ← node fuel true false
        blockItems fuel (n :: acc)
    | _ => failure

/-- The items of a list at the column of its key; what is no item ends it. -/
def sameColumnItems (fuel : Nat) (acc : List Node) : Parse (List Node) := do
  match fuel with
  | 0 => failure
  | fuel + 1 =>
    match ← peek with
    | .dash => do
      skip
      match ← peek with
      | .dash | .key | .colon | .close => sameColumnItems fuel (.empty :: acc)
      | _ => do
        let n ← node fuel true false
        sameColumnItems fuel (n :: acc)
    | _ => pure acc.reverse

/-- A key or a value by indentation, which may be left out. -/
def blockPart (fuel : Nat) : Parse Node := do
  match fuel with
  | 0 => failure
  | fuel + 1 =>
    match ← peek with
    | .key | .colon | .close => pure .empty
    | _ => node fuel true true

/-- The entries of a table by indentation, up to its end. -/
def blockEntries (fuel : Nat) (acc : List (Node × Node)) : Parse (List (Node × Node)) := do
  match fuel with
  | 0 => failure
  | fuel + 1 =>
    match ← peek with
    | .close => do
      skip
      pure acc.reverse
    | .key => do
      skip
      let k ← blockPart fuel
      match ← peek with
      | .colon => do
        skip
        let v ← blockPart fuel
        blockEntries fuel ((k, v) :: acc)
      | _ => blockEntries fuel ((k, .empty) :: acc)
    | _ => failure

/-- The items of a list in brackets, up to its end. A key among them starts a table of one entry. -/
def bracketItems (fuel : Nat) (isFirst : Bool) (acc : List Node) : Parse (List Node) := do
  match fuel with
  | 0 => failure
  | fuel + 1 =>
    match ← peek, isFirst with
    | .closeList, _ => do
      skip
      pure acc.reverse
    | .comma, false => do
      skip
      bracketItem fuel acc
    | _, true => bracketItem fuel acc
    | _, false => failure

/-- An item of a list in brackets, and those behind it. -/
def bracketItem (fuel : Nat) (acc : List Node) : Parse (List Node) := do
  match fuel with
  | 0 => failure
  | fuel + 1 =>
    match ← peek with
    | .closeList => do
      skip
      pure acc.reverse
    | .key => do
      skip
      let entry ← bracketPair fuel
      bracketItems fuel false (.table [entry] :: acc)
    | _ => do
      let n ← node fuel false false
      bracketItems fuel false (n :: acc)

/-- The only entry of a table within a list in brackets. Where its key is left out, what follows its
mark is passed over. -/
def bracketPair (fuel : Nat) : Parse (Node × Node) := do
  match fuel with
  | 0 => failure
  | fuel + 1 => do
    let k ← match ← peek with
      | .colon | .comma | .closeList => do
        skip
        pure Node.empty
      | _ => node fuel false false
    match ← peek with
    | .colon => do
      skip
      match ← peek with
      | .comma | .closeList => pure (k, .empty)
      | _ => do
        let v ← node fuel false false
        pure (k, v)
    | _ => pure (k, .empty)

/-- The entries of a table in brackets, up to its end. -/
def bracketEntries (fuel : Nat) (isFirst : Bool) (acc : List (Node × Node)) :
    Parse (List (Node × Node)) := do
  match fuel with
  | 0 => failure
  | fuel + 1 =>
    match ← peek, isFirst with
    | .closeTable, _ => do
      skip
      pure acc.reverse
    | .comma, false => do
      skip
      bracketEntry fuel acc
    | _, true => bracketEntry fuel acc
    | _, false => failure

/-- An entry of a table in brackets, and those behind it. -/
def bracketEntry (fuel : Nat) (acc : List (Node × Node)) : Parse (List (Node × Node)) := do
  match fuel with
  | 0 => failure
  | fuel + 1 =>
    match ← peek with
    | .closeTable => do
      skip
      pure acc.reverse
    | .key => do
      skip
      let k ← match ← peek with
        | .colon | .comma | .closeTable => pure Node.empty
        | _ => node fuel false false
      match ← peek with
      | .colon => do
        skip
        match ← peek with
        | .comma | .closeTable => bracketEntries fuel false ((k, .empty) :: acc)
        | _ => do
          let v ← node fuel false false
          bracketEntries fuel false ((k, v) :: acc)
      | _ => bracketEntries fuel false ((k, .empty) :: acc)
    | _ => do
      let k ← node fuel false false
      bracketEntries fuel false ((k, .empty) :: acc)

end

/-- What handles stand for where no directive says otherwise. -/
def usualHandles : List (String × String) :=
  [("!", "!"), ("!!", "tag:yaml.org,2002:")]

/-- Directives before a document: one version, which is 1.1, and one meaning for each handle. -/
def directives : (fuel : Nat) → (hasVersion : Bool) → Parse Unit
  | 0, _ => failure
  | fuel + 1, hasVersion => do
    match ← peek with
    | .version major minor => do
      if hasVersion || major ≠ "1" || minor ≠ "1" then failure
      skip
      directives fuel true
    | .handle name start => do
      if ((← get).handles.lookup name).isSome then failure
      modify fun s => { s with handles := (name, start) :: s.handles }
      skip
      directives fuel hasVersion
    | _ => modify fun s => { s with handles := s.handles ++ usualHandles }

/-- The first document, if there is one. -/
def document (fuel : Nat) : Parse (Option Node) := do
  match ← peek with
  | .streamEnd => pure none
  | .version _ _ | .handle _ _ | .documentStart => do
    directives fuel false
    match ← peek with
    | .documentStart => do
      skip
      match ← peek with
      | .version _ _ | .handle _ _ | .documentStart | .documentEnd | .streamEnd =>
        pure (some .empty)
      | _ => some <$> node fuel true false
    | _ => failure
  | _ => do
    directives fuel false
    some <$> node fuel true false

/-- How many tokens behind a document have to be there, unless the text ends before. -/
def lookahead : Nat := 3

end Parse

/-- The first document of a text; absent where the text holds none. -/
def document? (cs : List Char) : Option (Option Node) :=
  let cs := if cs.head? = some byteOrderMark then cs.drop 1 else cs
  if !cs.all isAllowed then none
  else
    let (tokens, isWhole) := scan cs
    match Parse.document (2 * tokens.length + 4) { tokens, isWhole } with
    | none => none
    | some (n, rest) =>
      if rest.isWhole || Parse.lookahead ≤ rest.tokens.length then some n else none

end EngineHost.Yaml
