import EngineHost.Settings.Value
import EngineHost.Yaml.Node
import EngineHost.Yaml.Scalar

/-!
# Settings in YAML

A document gives a value as JSON does: scalars say what they say, and the keys of a table are
scalars, no two of them written alike. An entry with the key `<<` brings in the entries of other
tables, behind those the table has itself.
-/

namespace EngineHost.SettingValue

/-- The value of a scalar. -/
def ofScalar : Yaml.Scalar → SettingValue
  | .null => .null
  | .flag b => .flag b
  | .int n => .int n
  | .number x => .number x
  | .date => .date
  | .text s => .text s

/-- How a key is written, to tell keys apart: by name, or as a text. -/
inductive YamlKey where
  | named (name : String)
  | scalar (text : String)
  | other
  deriving DecidableEq, Repr

/-- How a key is written. -/
def yamlKey : Yaml.Node → YamlKey
  | .named name _ => .named name
  | .scalar _ s _ => .scalar s
  | .list _ => .other
  | .table _ => .other

/-- Are all of some keys written differently? -/
def areDistinct : List YamlKey → Bool
  | [] => true
  | k :: more => !more.contains k && areDistinct more

/-- The name that a key stands for: nothing is a name too, and what is no scalar is none. -/
def keyName? : Yaml.Node → Option String
  | .scalar tag s isPlain =>
    match Yaml.Scalar.read? tag s isPlain with
    | some (.text t) => some t
    | some _ => some s
    | none => none
  | .named _ n => keyName? n
  | .list _ => none
  | .table _ => none

/-- Does a key bring in other tables? -/
def isMerge : Yaml.Node → Bool
  | .scalar none "<<" isPlain => isPlain
  | .scalar (some tag) "<<" isPlain =>
    (tag = "!" && isPlain) || tag = Yaml.Scalar.tagStart ++ "merge"
  | _ => false

/-- Entries with further ones behind them; those that are there stay. -/
def addMissing (entries more : List (String × SettingValue)) : List (String × SettingValue) :=
  more.foldl (fun acc (name, v) => if acc.any (·.1 = name) then acc else acc ++ [(name, v)]) entries

/-- The entries of a table that has some itself and brings in others, if its keys are all written
differently. -/
def joinEntries (entries : List (Yaml.Node × Yaml.Node))
    (own merged : Option (List (String × SettingValue))) :
    Option (List (String × SettingValue)) := do
  if !areDistinct (entries.map fun e => yamlKey e.1) then none
  pure (addMissing (← own) (← merged))

mutual

/-- The value that a node gives. -/
def ofNode? : Yaml.Node → Option SettingValue
  | .scalar tag s isPlain => (Yaml.Scalar.read? tag s isPlain).map ofScalar
  | .list items => (ofNodes? items).map .list
  | .table entries =>
    (joinEntries entries (ownEntries? entries) (mergedEntries? entries)).map fun entries =>
      .table (withLowerNames entries)
  | .named _ n => ofNode? n

/-- The values of a list. -/
def ofNodes? : List Yaml.Node → Option (List SettingValue)
  | [] => some []
  | n :: more => do
    let v ← ofNode? n
    let more ← ofNodes? more
    pure (v :: more)

/-- The entries that a table has itself. -/
def ownEntries? : List (Yaml.Node × Yaml.Node) → Option (List (String × SettingValue))
  | [] => some []
  | (k, v) :: more =>
    if isMerge k then ownEntries? more
    else do
      let name ← keyName? k
      let v ← ofNode? v
      let more ← ownEntries? more
      pure (addMissing more [(name, v)])

/-- The entries that a table brings in. -/
def mergedEntries? : List (Yaml.Node × Yaml.Node) → Option (List (String × SettingValue))
  | [] => some []
  | (k, v) :: more => if isMerge k then tables? v else mergedEntries? more

/-- The entries of a table, or of several of which the first counts. -/
def tables? : Yaml.Node → Option (List (String × SettingValue))
  | .list items => tableList? items
  | .table entries => joinEntries entries (ownEntries? entries) (mergedEntries? entries)
  | .named _ n => table? n
  | .scalar _ _ _ => none

/-- The entries of several tables. -/
def tableList? : List Yaml.Node → Option (List (String × SettingValue))
  | [] => some []
  | n :: more => do
    let entries ← table? n
    let more ← tableList? more
    pure (addMissing entries more)

/-- The entries of a table that may go by its name. -/
def table? : Yaml.Node → Option (List (String × SettingValue))
  | .table entries => joinEntries entries (ownEntries? entries) (mergedEntries? entries)
  | .named _ n => table? n
  | .list _ => none
  | .scalar _ _ _ => none

end

/-- The entries of a settings file in YAML; nothing at all is an empty table. -/
def ofYaml? (cs : List Char) : Option (List (String × SettingValue)) :=
  match Yaml.document? cs with
  | none => none
  | some none => some []
  | some (some n) =>
    match ofNode? n with
    | some .null => some []
    | some (.table entries) => some entries
    | _ => none

end EngineHost.SettingValue
