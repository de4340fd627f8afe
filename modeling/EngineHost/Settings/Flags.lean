import EngineHost.Number.Based
import EngineHost.Number.Span
import EngineHost.Settings.Value
import EngineHost.Text.Pieces
import EngineHost.Text.Quoted

/-!
# Flags

A flag is a long name behind two dashes, some with a letter behind one. Its value follows an equals
sign or is the next argument; a switch takes the equals sign only and is on by its name alone. Other
arguments may stand anywhere, and everything behind a bare `--` is one of them.
-/

namespace EngineHost

/-- What the value of a flag is. -/
inductive FlagKind where
  | text
  | switch
  | int
  | uint32
  | span
  | single
  /-- A text each time the flag is given. -/
  | texts
  deriving DecidableEq, Repr

/-- A flag that is known. -/
structure FlagSpec where
  name : String
  kind : FlagKind
  short : Option Char := none
  deriving DecidableEq, Repr

/-- The value of a flag. -/
inductive FlagValue where
  | text (s : String)
  | switch (b : Bool)
  | int (n : Int64)
  | uint32 (n : UInt32)
  | span (d : Span)
  | single (x : Single)
  deriving DecidableEq, Repr

/-- Why arguments are refused. -/
inductive FlagError where
  | help
  | badForm (arg : String)
  | unknown (name : String)
  | unknownShort (letter : Char) (group : String)
  | needsValue (arg : String)
  | shortNeedsValue (letter : Char) (group : String)
  | badValue (value shown why : String)
  deriving DecidableEq, Repr

/-- A character in single quotes. -/
def Text.quoteSingle (c : Char) : String :=
  let inner := if c = '\x27' then ['\\', c] else if c = '"' then [c] else Text.quoteChar c
  String.ofList ('\x27' :: inner ++ ['\x27'])

/-- The wording of a refusal. -/
def FlagError.message : FlagError → String
  | .help => "pflag: help requested"
  | .badForm arg => "bad flag syntax: " ++ arg
  | .unknown name => "unknown flag: --" ++ name
  | .unknownShort letter group =>
    "unknown shorthand flag: " ++ Text.quoteSingle letter ++ " in -" ++ group
  | .needsValue arg => "flag needs an argument: " ++ arg
  | .shortNeedsValue letter group =>
    "flag needs an argument: " ++ Text.quoteSingle letter ++ " in -" ++ group
  | .badValue value shown why =>
    "invalid argument " ++ Text.quote value ++ " for " ++ Text.quote shown ++ " flag: " ++ why

namespace FlagSpec

/-- How messages call a flag. -/
def shown (f : FlagSpec) : String :=
  match f.short with
  | some c => "-" ++ String.singleton c ++ ", --" ++ f.name
  | none => "--" ++ f.name

/-- What a number is refused with. -/
def numberWhy (reader raw : String) (e : Text.IntegerError) : String :=
  "strconv." ++ reader ++ ": parsing " ++ Text.quote raw ++ ": " ++ e.message

/-- Reads the value of a flag. -/
def readValue (f : FlagSpec) (raw : String) : Except FlagError FlagValue :=
  let refuse (why : String) : FlagError := .badValue raw f.shown why
  match f.kind with
  | .text => .ok (.text raw)
  | .texts => .ok (.text raw)
  | .switch =>
    match SettingValue.readFlag? raw with
    | some b => .ok (.switch b)
    | none => .error (refuse (numberWhy "ParseBool" raw .malformed))
  | .int =>
    ((Based.readInt64 raw).mapError fun e => refuse (numberWhy "ParseInt" raw e)).map .int
  | .uint32 =>
    ((Based.readUInt32 raw).mapError fun e => refuse (numberWhy "ParseUint" raw e)).map .uint32
  | .span => ((Span.read raw).mapError fun e => refuse e.message).map .span
  | .single =>
    ((Single.read raw).mapError fun e => refuse (numberWhy "ParseFloat" raw e)).map .single

end FlagSpec

/-- Arguments taken apart: the flags given, in order, and everything else. -/
structure Arguments where
  flags : List (String × FlagValue) := []
  rest : List String := []
  deriving DecidableEq, Repr

namespace Arguments

/-- The last value given for a flag. -/
def value? (a : Arguments) (name : String) : Option FlagValue :=
  a.flags.reverse.lookup name

/-- The text of a flag. -/
def text (a : Arguments) (name : String) (missing : String := "") : String :=
  match a.value? name with
  | some (.text s) => s
  | _ => missing

/-- All texts of a flag. -/
def texts (a : Arguments) (name : String) : List String :=
  a.flags.filterMap fun
    | (n, .text s) => if n = name then some s else none
    | _ => none

/-- Is a switch on? -/
def isOn (a : Arguments) (name : String) : Bool :=
  a.value? name = some (.switch true)

/-- The integer of a flag. -/
def int (a : Arguments) (name : String) (missing : Int64) : Int64 :=
  match a.value? name with
  | some (.int n) => n
  | _ => missing

/-- The span of a flag. -/
def span (a : Arguments) (name : String) : Span :=
  match a.value? name with
  | some (.span d) => d
  | _ => 0

/-- The number of a flag. -/
def single (a : Arguments) (name : String) (missing : Single) : Single :=
  match a.value? name with
  | some (.single x) => x
  | _ => missing

end Arguments

namespace FlagSpec

/-- The flag of a long name. -/
def named? (specs : List FlagSpec) (name : String) : Option FlagSpec :=
  specs.find? (·.name = name)

/-- The flag of a letter. -/
def ofShort? (specs : List FlagSpec) (c : Char) : Option FlagSpec :=
  specs.find? (·.short = some c)

/-- Takes `--name` or `--name=value`; the value may be the next of the arguments. -/
def readLong (specs : List FlagSpec) (arg : String) (more : List String) :
    Except FlagError ((String × FlagValue) × List String) :=
  let body := String.ofList (arg.toList.drop 2)
  if Text.startsWith "-" body || Text.startsWith "=" body then .error (.badForm arg)
  else
    let (name, given) := match Text.cut? '=' body with
      | some (name, value) => (name, some value)
      | none => (body, none)
    match named? specs name with
    | none => .error (if name = "help" then .help else .unknown name)
    | some f =>
      let take (raw : String) (more : List String) :=
        (f.readValue raw).map fun v => ((f.name, v), more)
      match given, f.kind, more with
      | some raw, _, more => take raw more
      | none, .switch, more => take "true" more
      | none, _, raw :: more => take raw more
      | none, _, [] => .error (.needsValue arg)

/-- The letter that stands for a flag: what its first octet shows. -/
def shortLetter (c : Char) : Char :=
  match String.utf8EncodeChar c with
  | b :: _ => Char.ofNat b.toNat
  | [] => c

/-- Takes a group of letters behind one dash. The last flag of a group may have a value, in the
group or as the next of the arguments. A group that goes on as `test.` is meant for a test run and
is passed over. -/
def readShorts (specs : List FlagSpec) (acc : List (String × FlagValue)) (more : List String) :
    (group : List Char) → Except FlagError (List (String × FlagValue) × List String)
  | [] => .ok (acc, more)
  | c :: rest =>
    let group := String.ofList (c :: rest)
    if Text.startsWith "test." group then .ok (acc, more)
    else
    match ofShort? specs c with
    | none => .error (if c = 'h' then .help else .unknownShort (shortLetter c) group)
    | some f =>
      let take (raw : String) (more : List String) :
          Except FlagError (List (String × FlagValue) × List String) :=
        (f.readValue raw).map fun v => (acc ++ [(f.name, v)], more)
      match rest, f.kind, more with
      | '=' :: d :: raw, _, more => take (String.ofList (d :: raw)) more
      | rest, .switch, more =>
        match f.readValue "true" with
        | .error e => .error e
        | .ok v => readShorts specs (acc ++ [(f.name, v)]) more rest
      | _ :: _, _, more => take (String.ofList rest) more
      | [], _, raw :: more => take raw more
      | [], _, [] => .error (.shortNeedsValue (shortLetter c) group)

/-- Takes arguments apart, behind what was taken. Every step takes an argument at least. -/
def readFrom (specs : List FlagSpec) : (fuel : Nat) → (taken : Arguments) → List String →
    Except FlagError Arguments
  | 0, taken, _ => .ok taken
  | _, taken, [] => .ok taken
  | fuel + 1, taken, arg :: more =>
    if arg = "--" then .ok { taken with rest := taken.rest ++ more }
    else
      match arg.toList with
      | '-' :: '-' :: _ =>
        match readLong specs arg more with
        | .error e => .error e
        | .ok (flag, more) => readFrom specs fuel { taken with flags := taken.flags ++ [flag] } more
      | '-' :: c :: group =>
        match readShorts specs [] more (c :: group) with
        | .error e => .error e
        | .ok (flags, more) =>
          readFrom specs fuel { taken with flags := taken.flags ++ flags } more
      | _ => readFrom specs fuel { taken with rest := taken.rest ++ [arg] } more

/-- Takes arguments apart. -/
def read (specs : List FlagSpec) (args : List String) : Except FlagError Arguments :=
  readFrom specs args.length {} args

end FlagSpec

end EngineHost
