import EngineHost.Settings.Load

/-!
# Commands

The command line names a command among its flags. Flags are told from commands by what they take: a
flag that takes a value hides the argument behind it, so its value is never taken for a command.
Which flags are known depends on the command reached so far, and the search goes on in its
subcommands.
-/

namespace EngineHost

/-- A command. -/
inductive Command where
  | root
  | sample
  | inspect
  | trace
  | run
  | serve
  | health
  | doctor
  | handle
  | handleEncode
  | handleDecode
  | bench
  | help
  | completion
  deriving DecidableEq, Repr

/-- How many arguments a command takes. -/
inductive ArgRule where
  | any
  | none
  | exactly (n : Nat)
  | atMost (n : Nat)
  deriving DecidableEq, Repr

namespace Command

/-- The words that lead to a command. -/
def path : Command → String
  | .root => "enginebridge"
  | .sample => "enginebridge sample"
  | .inspect => "enginebridge inspect"
  | .trace => "enginebridge trace"
  | .run => "enginebridge run"
  | .serve => "enginebridge serve"
  | .health => "enginebridge health"
  | .doctor => "enginebridge doctor"
  | .handle => "enginebridge handle"
  | .handleEncode => "enginebridge handle encode"
  | .handleDecode => "enginebridge handle decode"
  | .bench => "enginebridge bench"
  | .help => "enginebridge help"
  | .completion => "enginebridge completion"

/-- The subcommands of a command. -/
def children : Command → List (String × Command)
  | .root => [("sample", .sample), ("inspect", .inspect), ("trace", .trace), ("run", .run),
      ("serve", .serve), ("health", .health), ("doctor", .doctor), ("handle", .handle),
      ("bench", .bench), ("help", .help), ("completion", .completion)]
  | .handle => [("encode", .handleEncode), ("decode", .handleDecode)]
  | _ => []

/-- Does a command do something itself, or only hold others? -/
def isRunnable : Command → Bool
  | .root | .handle | .completion => false
  | _ => true

/-- The arguments a command takes. -/
def argRule : Command → ArgRule
  | .sample => .exactly 1
  | .handleEncode => .exactly 1
  | .handleDecode => .atMost 1
  | .inspect | .trace | .run | .serve | .doctor | .bench => .none
  | .root | .health | .handle | .help | .completion => .any

/-- The flags of a command alone. -/
def ownFlags : Command → List FlagSpec
  | .sample => [⟨"out", .text, some 'o'⟩, ⟨"hardware-compatible", .switch, none⟩,
      ⟨"target-platform", .text, none⟩]
  | .trace => [⟨"shape", .texts, none⟩]
  | .run => [⟨"inputs", .text, none⟩, ⟨"out", .text, some 'o'⟩, ⟨"fill", .single, none⟩,
      ⟨"repeat", .int, none⟩, ⟨"parallel", .int, none⟩]
  | .health => [⟨"addr", .text, none⟩]
  | .bench => [⟨"inputs", .text, none⟩, ⟨"fill", .single, none⟩, ⟨"runs", .int, none⟩,
      ⟨"warmup", .int, none⟩, ⟨"format", .text, none⟩, ⟨"latency-threshold", .span, none⟩]
  | _ => []

/-- The flags that a command knows while it is looked for. -/
def flags (c : Command) : List FlagSpec :=
  ⟨"config", .text, none⟩ :: Settings.flagSpecs ++ c.ownFlags

/-- The flag that asks for help. -/
def helpFlag : FlagSpec := ⟨"help", .switch, some 'h'⟩

/-! ### Finding the command -/

/-- Does a flag hide the argument behind it? -/
def hidesNext (c : Command) (arg : String) : Bool :=
  let isSwitch : Option FlagSpec → Bool
    | some f => f.kind = .switch
    | none => false
  if Text.hasChar '=' arg then false
  else
    match arg.toList with
    | '-' :: '-' :: name => !isSwitch (FlagSpec.named? c.flags (String.ofList name))
    | ['-', letter] => letter.toNat < 0x80 && !isSwitch (FlagSpec.ofShort? c.flags letter)
    | _ => false

/-- The arguments that are no flags and no values of flags, as far as a bare `--`. A flag that hides
the last argument ends the search. -/
def words (c : Command) : List String → List String
  | [] => []
  | arg :: more =>
    if arg = "--" then []
    else if c.hidesNext arg then
      match more with
      | [] => []
      | [_] => []
      | _ :: more => words c more
    else if arg ≠ "" ∧ !Text.startsWith "-" arg then arg :: words c more
    else words c more

/-- The arguments without the first word of a text. -/
def withoutWord (c : Command) (word : String) : List String → List String
  | [] => []
  | arg :: more =>
    if arg = "--" then arg :: more
    else if c.hidesNext arg then
      match more with
      | [] => [arg]
      | value :: more => arg :: value :: withoutWord c word more
    else if arg = word ∧ !Text.startsWith "-" arg then more
    else arg :: withoutWord c word more

/-- The command that arguments lead to from a command on, and the arguments left. Subcommands nest
less deep than `fuel`. -/
def descend (c : Command) (args : List String) : (fuel : Nat) → Command × List String
  | 0 => (c, args)
  | fuel + 1 =>
    match c.words args with
    | [] => (c, args)
    | word :: _ =>
      match c.children.lookup word with
      | some next => descend next (c.withoutWord word args) fuel
      | none => (c, args)

/-! ### Unknown commands -/

/-- One row of the table of edit distances: `previous` is the row before, `left` the entry just
computed. -/
def distanceRow (a : UInt8) (left : Nat) : (previous : List Nat) → Bytes → List Nat
  | diagonal :: above :: previous, b :: bs =>
    let here := if a = b then diagonal else 1 + min left (min above diagonal)
    here :: distanceRow a here (above :: previous) bs
  | _, _ => []

/-- The number of octets to insert, drop or change that lead from one text to another, case
apart. -/
def distance (s t : String) : Nat :=
  let bs := Bytes.ofText (Text.lower t)
  let first := List.range (bs.length + 1)
  let last := (Bytes.ofText (Text.lower s)).zipIdx.foldl
    (fun row (a, i) => (i + 1) :: distanceRow a (i + 1) row bs) first
  last.getLastD 0

/-- How far a command may be from what was typed to be offered. -/
def nearby : Nat := 2

/-- Commands that may have been meant. -/
def suggestions (typed : String) : List String :=
  let names := (Command.root.children.map (·.1)).filter (· ≠ "help")
  names.filter fun name =>
    distance typed name ≤ nearby || Text.startsWith (Text.lower typed) (Text.lower name)

/-- The refusal of a word that is no command. -/
def unknownCommand (c : Command) (word : String) : String :=
  "unknown command " ++ Text.quote word ++ " for " ++ Text.quote c.path

/-- The refusal of a word that is no command of the program, with what may have been meant. -/
def unknownWithHints (word : String) : String :=
  let hints := suggestions word
  unknownCommand .root word ++
    if hints.isEmpty then ""
    else "\n\nDid you mean this?\n" ++ String.join (hints.map fun h => "\t" ++ h ++ "\n")

/-- Finds the command of a command line, and the arguments left. -/
def find (args : List String) : Except Failure (Command × List String) :=
  let (c, rest) := descend .root args 2
  match c, Command.words .root rest with
  | .root, word :: _ => .error (.plain (unknownWithHints word))
  | _, _ => .ok (c, rest)

/-- Holds arguments against what the command takes. -/
def checkArgs (c : Command) (args : List String) : Except Failure Unit :=
  let n := args.length
  match c.argRule with
  | .any => .ok ()
  | .none =>
    match args with
    | [] => .ok ()
    | word :: _ => .error (.plain (c.unknownCommand word))
  | .exactly k =>
    if n = k then .ok ()
    else .error (.plain ("accepts " ++ toString k ++ " arg(s), received " ++ toString n))
  | .atMost k =>
    if n ≤ k then .ok ()
    else .error (.plain ("accepts at most " ++ toString k ++ " arg(s), received " ++ toString n))

/-- What to do: a command with its arguments, or help for a command. -/
inductive Invocation where
  | call (c : Command) (a : Arguments)
  | help (c : Command)

/-- Reads a command line. -/
def read (args : List String) : Except Failure Invocation := do
  let (c, rest) ← find args
  match FlagSpec.read (helpFlag :: c.flags) rest with
  | .error .help => pure (.help c)
  | .error e => .error (.plain e.message)
  | .ok a =>
    if a.isOn "help" || !c.isRunnable then pure (.help c)
    else do
      c.checkArgs a.rest
      pure (.call c a)

end Command

end EngineHost
