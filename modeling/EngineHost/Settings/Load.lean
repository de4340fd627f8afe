import EngineHost.Json.Decode
import EngineHost.Settings.Basic
import EngineHost.Settings.Flags
import EngineHost.Settings.Yaml
import EngineHost.Storage.World

/-!
# Where settings come from

A setting is taken from the first of four places that has it: a flag, a variable of the environment,
the settings file, the defaults. A section can be hidden as a whole: a variable with the section's
own name takes the place of everything in it that no flag or variable gives.
-/

namespace EngineHost.Settings

/-! ### Flags -/

/-- The flag of each setting, in the order of their names; of two for one setting the later
counts. -/
def flagKeys : List (FlagSpec × Key) := [
  (⟨"allow-probe", .switch, none⟩, .allowProbe),
  (⟨"backend", .text, none⟩, .backend),
  (⟨"cache-engines", .switch, none⟩, .cacheEngines),
  (⟨"device-signature", .text, none⟩, .signature),
  (⟨"kernel-workers", .int, none⟩, .kernelWorkers),
  (⟨"log-level", .text, none⟩, .logLevel),
  (⟨"max-body-bytes", .int, none⟩, .maxBodyBytes),
  (⟨"ort-lib", .text, none⟩, .libraryPath),
  (⟨"probe-cache-size", .int, none⟩, .probeCacheSize),
  (⟨"program", .text, none⟩, .program),
  (⟨"request-timeout", .span, none⟩, .requestTimeout),
  (⟨"runtime-ort-api-version", .uint32, none⟩, .apiVersion),
  (⟨"runtime-ort-library-path", .text, none⟩, .libraryPath),
  (⟨"server-listen-addr", .text, none⟩, .listenAddr),
  (⟨"shutdown-timeout", .span, none⟩, .shutdownTimeout),
  (⟨"workers", .int, none⟩, .workers)]

/-- The flags. -/
def flagSpecs : List FlagSpec :=
  flagKeys.map (·.1)

/-- The value of a flag as that of a setting. -/
def ofFlag : FlagValue → Option SettingValue
  | .text s => some (.text s)
  | .switch b => some (.flag b)
  | .int n => some (.int n.toInt)
  | .uint32 n => some (.int n.toNat)
  | .span d => some (.int d.toInt)
  | .single _ => none

/-- What flags give. -/
def fromFlags (a : Arguments) : List (Key × SettingValue) :=
  (flagKeys.filterMap fun (f, k) => ((a.value? f.name).bind ofFlag).map fun v => (k, v)).reverse

/-! ### The environment -/

/-- The variable of a setting or of a section. -/
def envName (path : String) : String :=
  "ENGINEBRIDGE_" ++ (path.map fun c => if c = '.' then '_' else c).map Char.toUpper

/-- Further variables of a setting. -/
def otherNames : Key → List String
  | .libraryPath => ["ENGINEBRIDGE_ORT_LIB", "ORT_LIBRARY_PATH"]
  | _ => []

/-- The sections. -/
def sections : List String := ["paths", "runtime", "symbolic", "server"]

/-- Every variable that matters. -/
def envNames : List String :=
  Key.all.map (fun k => envName k.path) ++ sections.map envName ++ Key.all.flatMap otherNames

/-! ### The file -/

/-- The kinds of files that settings may be in, tried in this order. -/
def extensions : List String :=
  ["json", "toml", "yaml", "yml", "properties", "props", "prop", "hcl", "tfvars", "dotenv", "env",
    "ini"]

/-- The name of a settings file without its kind. -/
def fileName : String := "enginebridge"

/-- What follows the last point of a path, in its last part. -/
def extension (path : String) : String :=
  let r := path.toList.reverse
  let tail := r.takeWhile fun c => c ≠ '.' ∧ c ≠ '/'
  if (r.drop tail.length).head? = some '.' then String.ofList tail.reverse else ""

/-- A settings file of a kind as a table. -/
def readDocument (kind : String) (data : Bytes) : Except Failure (List (String × SettingValue)) :=
  let parsed := if kind = "json" then
      match (Json.readWhole? (Json.chars data)).bind SettingValue.ofJson? with
      | some .null => some []
      | some (.table entries) => some entries
      | _ => none
    else if kind = "yaml" ∨ kind = "yml" then
      if data.isText then SettingValue.ofYaml? data.toChars else none
    else none
  match parsed with
  | some entries => .ok entries
  | none => .error (.plain ("not a settings file: " ++ kind))

/-- The failure to read a settings file. -/
def fileFailure (f : Failure) : Failure :=
  .within "read config file" f

variable [Monad m] (w : World m)

/-- The settings file in the working directory, if there is one. -/
def findFile : List String → m (Option String)
  | [] => pure none
  | kind :: more => do
    let path := fileName ++ "." ++ kind
    match ← w.stat path with
    | .ok (.file _) => pure (some path)
    | _ => findFile more

/-- The table of the settings file: the one asked for, or the one that is found, or none. -/
def readFile (explicit : String) : m (Except Failure (List (String × SettingValue))) := do
  let path ← if explicit = "" then findFile w extensions else pure (some explicit)
  match path with
  | none => pure (.ok [])
  | some path =>
    let kind := extension path
    if !extensions.contains kind then
      pure (.error (fileFailure (.plain ("Unsupported Config Type " ++ Text.quote kind))))
    else
      match ← w.openFile path with
      | .error f => pure (.error (fileFailure f))
      | .ok data => pure ((readDocument kind data).mapError fileFailure)

/-! ### All together -/

/-- What there is to take settings from. -/
structure Sources where
  flags : List (Key × SettingValue)
  /-- The variables that are set. -/
  env : List (String × String)
  document : List (String × SettingValue)

/-- Where a setting was found. -/
inductive Found where
  | value (v : SettingValue)
  | asDefault
  | hidden

/-- A variable that is set, as a value. -/
def Sources.envValue? (s : Sources) (name : String) : Option SettingValue :=
  match s.env.lookup name with
  | some text => if text = "" then none else some (.text text)
  | none => none

/-- What the document says for a setting: under its whole key, or in its section. -/
def Sources.document? (s : Sources) (k : Key) : Option SettingValue :=
  let given : Option SettingValue → Option SettingValue
    | some .null => none
    | v => v
  (given (s.document.lookup k.path)).orElse fun _ =>
    match k.section?.bind fun name => s.document.lookup name with
    | some (.table entries) => given (entries.lookup k.name)
    | _ => none

/-- Finds a setting. A section that is written as null leaves everything in it to flags and
defaults. -/
def Sources.find (s : Sources) (k : Key) : Found :=
  let sectionValue := k.section?.bind fun name => s.document.lookup name
  match s.flags.lookup k, sectionValue with
  | some v, _ => .value v
  | none, some .null => .asDefault
  | none, _ =>
    match s.envValue? (envName k.path) with
    | some v => .value v
    | none =>
      if (k.section?.bind fun name => s.envValue? (envName name)).isSome then .hidden
      else
        match (otherNames k).findSome? s.envValue? with
        | some v => .value v
        | none =>
          match s.document? k with
          | some v => .value v
          | none => .asDefault

/-- A section that is not a table cannot be taken apart. -/
def Sources.badSection? (s : Sources) : Option String :=
  sections.find? fun name =>
    match s.document.lookup name with
    | none => false
    | some (.table _) => false
    | some .null => (s.envValue? (envName name)).isSome
    | some _ => true

/-- Sets a setting from a value. -/
def set (c : Settings) (k : Key) (v : SettingValue) : Except SettingValue.Problem Settings :=
  match k with
  | .logLevel => v.toText.map fun x => { c with logLevel := x }
  | .program => v.toText.map fun x => { c with program := x }
  | .backend => v.toText.map fun x => { c with backend := x }
  | .libraryPath => v.toText.map fun x => { c with libraryPath := x }
  | .apiVersion => v.toUInt32.map fun x => { c with apiVersion := x }
  | .signature => v.toText.map fun x => { c with signature := x }
  | .cacheEngines => v.toFlag.map fun x => { c with cacheEngines := x }
  | .kernelWorkers => v.toInt64.map fun x => { c with kernelWorkers := x }
  | .allowProbe => v.toFlag.map fun x => { c with allowProbe := x }
  | .probeCacheSize => v.toInt64.map fun x => { c with probeCacheSize := x }
  | .listenAddr => v.toText.map fun x => { c with listenAddr := x }
  | .workers => v.toInt64.map fun x => { c with workers := x }
  | .requestTimeout => v.toSpan.map fun x => { c with requestTimeout := x }
  | .shutdownTimeout => v.toSpan.map fun x => { c with shutdownTimeout := x }
  | .maxBodyBytes => v.toInt64.map fun x => { c with maxBodyBytes := x }

/-- A setting without a value. -/
def blankValue : Key → SettingValue
  | .requestTimeout => .int 0
  | .shutdownTimeout => .int 0
  | _ => .text ""

/-- Takes one setting. -/
def take (s : Sources) (c : Settings) (k : Key) : Except Failure Settings :=
  let convert (v : SettingValue) : Except Failure Settings :=
    (c.set k v).mapError fun p => .within "decode config" (.plain (k.path ++ ": " ++ p.message))
  match s.find k with
  | .value v => convert v
  | .hidden => convert (blankValue k)
  | .asDefault => .ok c

/-- The settings that sources give, on top of the defaults. -/
def ofSources (s : Sources) : Except Failure Settings :=
  match s.badSection? with
  | some name => .error (.within "decode config" (.plain (name ++ ": expected a table")))
  | none => do
    let c ← Key.all.foldlM (take s) {}
    let backend ← normalBackend c.backend
    pure { c with backend }

/-- The settings of a run: from flags, if there are any, the environment and a file. -/
def load (flags : Option Arguments) (file : String) : m (Except Failure Settings) := do
  let env ← envNames.mapM fun name => do return (name, ← w.env name)
  match ← readFile w file with
  | .error f => pure (.error f)
  | .ok document =>
    let flags := (flags.map fromFlags).getD []
    pure (ofSources { flags, env, document })

end EngineHost.Settings
