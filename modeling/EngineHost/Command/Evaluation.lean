import EngineHost.Archive.Read
import EngineHost.Archive.Write
import EngineHost.Bench
import EngineHost.Command.Workspace

/-!
# Commands that evaluate

`trace` evaluates the program on descriptors, `run` on tensors, and `bench` runs it many times.
Inputs are read from an archive or filled with one value.
-/

namespace EngineHost

/-- How many elements are shown. -/
def previewLength : Nat := 8

/-- The first elements of a tensor. -/
def Tensor.preview (t : Tensor) : String :=
  let texts := match t.elements with
    | .int32 v => v.toList.map fun n => toString n.toInt
    | .int64 v => v.toList.map fun n => toString n.toInt
    | v => v.toSingles.toList.map fun x => x.text .general
  Text.bracketed
    (if previewLength < texts.length then texts.take previewLength ++ ["..."] else texts)

/-- The bytes of the tensors among values. -/
def Value.totalBytes (values : List (Option Value)) : Nat :=
  values.foldr (fun
    | some (.tensor t), total => t.byteSize + total
    | _, total => total) 0

/-- A span rounded to whole microseconds, a half away from zero. -/
def Span.toMicroseconds (d : Span) : Span :=
  let n := (d.toInt.natAbs + 500) / 1000 * 1000
  Int64.ofInt (if d < 0 then -(n : Int) else n)

namespace Evaluation

/-! ### Inputs -/

/-- The inputs of a trace: the declared ones, with shapes given as `name=shape` in place of some. -/
def traceInputs (p : Program) (overrides : List String) :
    Except Failure (List (String × Option Value)) :=
  let declared := p.inputList.map fun i => (i.name, some (Value.symbol i.descriptor))
  overrides.foldlM
    (fun given o =>
      match Text.cut? '=' o with
      | none => .error (.plain ("invalid --shape " ++ Text.quote o ++ " (want name=shape)"))
      | some (name, raw) =>
        match p.inputList.find? (·.name = name) with
        | none =>
          .error (.plain ("--shape " ++ Text.quote o ++ ": program has no input " ++
            Text.quote name))
        | some spec =>
          match Shape.parse raw with
          | .error e => .error (.within ("--shape " ++ Text.quote o) (.plain e.message))
          | .ok shape =>
            let d : Descriptor := { spec.descriptor with shape }
            .ok (given.map fun e => if e.1 = name then (name, some (.symbol d)) else e))
    declared

/-- An input filled with one value. -/
def filled (fill : Single) (i : ProgramInput) : Except Failure (String × Option Value) :=
  let shape := i.shape.getD []
  if !shape.isStatic then
    .error (.plain ("input " ++ i.name ++ " has dynamic shape " ++ shape.text ++
      "; pass --inputs"))
  else
    match shape.count with
    | .error e => .error (.plain e.message)
    | .ok n =>
      if !ElementKind.float32.hasRoom n then .error .crash
      else
        match Tensor.ofSingles i.dtype (Array.replicate n fill) shape i.device with
        | .error e => .error (.within ("input " ++ i.name) (.plain e.message))
        | .ok t => .ok (i.name, some (.tensor t))

/-- An input from an archive, moved to its device. -/
def stored (a : Archive) (i : ProgramInput) : Except Failure (String × Option Value) :=
  (a.tensor i.name).map fun t => (i.name, some (.tensor (t.moveTo i.device)))

variable [Monad m] (w : World m)

/-- The inputs of a run: from an archive if one is named, else filled. -/
def runInputs (p : Program) (location : String) (fill : Single) :
    m (Except Failure (List (String × Option Value))) := do
  if location = "" then pure (p.inputList.mapM (filled fill))
  else
    match ← Location.read w location with
    | .error f => pure (.error f)
    | .ok data =>
      pure (do
        let a ← (Archive.decode data).mapError fun e => .plain e.message
        p.inputList.mapM (stored a))

/-- Prints lines until one fails. -/
def printAll : List String → m (Except Failure Unit)
  | [] => pure (.ok ())
  | line :: more => do
    match ← w.print line with
    | .error f => pure (.error f)
    | .ok () => printAll more

/-! ### The commands -/

/-- Prints a line for every value found, up to one that is not there. -/
def printFound : List (String × Option Value) → m (Except Failure Unit)
  | [] => pure (.ok ())
  | (_, none) :: _ => pure (.error .crash)
  | (name, some v) :: more => do
    match ← w.print (name ++ ": " ++ v.descriptor.text ++ "\n") with
    | .error f => pure (.error f)
    | .ok () => printFound more

/-- Traces the program. -/
def trace (c : Settings) (a : Arguments) : m (Except Failure Unit) := do
  match ← Workspace.bind w c with
  | .error f => pure (.error f)
  | .ok (b, s) =>
    match traceInputs b.program (a.texts "shape") with
    | .error f => pure (.error f)
    | .ok given =>
      match (b.run .symbolic given s).1 with
      | .error f => pure (.error f)
      | .ok outs => printFound w (b.program.outputList.zip outs)

/-- Runs the program some times, from run `i` on, and keeps what the first run gave. -/
def runTimes (b : BoundProgram) (given : List (String × Option Value)) :
    (count i : Nat) → Station → Except Failure (List (Option Value))
  | 0, _, _ => .ok []
  | count + 1, i, s =>
    match b.run .concrete given s with
    | (.error f, _) => .error (.within ("run " ++ toString i) f)
    | (.ok outs, s) => (runTimes b given count (i + 1) s).map fun _ => outs

/-- Prints a line for every output, and gives the tensors back. -/
def printOutputs (kept : List (String × Option Tensor)) :
    List (String × Option Value) → m (Except Failure (List (String × Option Tensor)))
  | [] => pure (.ok kept)
  | (name, some (.tensor t)) :: more => do
    match ← w.print (name ++ ": " ++ t.text ++ " " ++ t.preview ++ "\n") with
    | .error f => pure (.error f)
    | .ok () => printOutputs (kept ++ [(name, some t)]) more
  | (name, _) :: _ =>
    pure (.error (.plain ("output " ++ name ++ " is not a concrete tensor")))

/-- How long some runs took. -/
def timeLine (count : Nat) (elapsed : Span) : String :=
  toString count ++ " runs in " ++ elapsed.toMicroseconds.text ++ " (" ++
    (elapsed / Int64.ofNat count).toMicroseconds.text ++ "/run)\n"

/-- Writes outputs to a location, each name once. -/
def writeOutputs (p : Program) (location : String) (outputs : List (String × Option Tensor)) :
    m (Except Failure Unit) :=
  let once := outputs.foldl (fun kept o => if kept.any (·.1 = o.1) then kept else kept ++ [o]) []
  match Archive.encode once [("program", p.name)] with
  | .error e => pure (.error (.plain e.message))
  | .ok data => Location.write w location data

/-- Runs the program. -/
def run (c : Settings) (a : Arguments) : m (Except Failure Unit) := do
  match ← Workspace.bind w c with
  | .error f => pure (.error f)
  | .ok (b, s) =>
    match ← runInputs w b.program (a.text "inputs") (a.single "fill" .one) with
    | .error f => pure (.error f)
    | .ok given =>
      let count := max (a.int "repeat" 1).toNatClampNeg 1
      let start ← w.now
      match runTimes b given count 0 s with
      | .error f => pure (.error f)
      | .ok outs =>
        let elapsed := (← w.now) - start
        match ← printOutputs w [] (b.program.outputList.zip outs) with
        | .error f => pure (.error f)
        | .ok outputs =>
          match ← printAll w (if 1 < count then [timeLine count elapsed] else []) with
          | .error f => pure (.error f)
          | .ok () =>
            if a.text "out" = "" then pure (.ok ())
            else writeOutputs w b.program (a.text "out") outputs

/-- One measured run; the station is kept from run to run. -/
def measured (b : BoundProgram) (given : List (String × Option Value)) :
    StateT Station m (Except Failure (Int64 × Span)) := do
  let start ← w.now
  let out ← modifyGet fun s => b.run .concrete given s
  let stop ← w.now
  pure (out.map fun outs => (Int64.ofNat (Value.totalBytes outs), stop - start))

/-- What is wrong with the flags of a benchmark. -/
def benchProblem? (a : Arguments) : Option String :=
  let format := a.text "format" "table"
  if a.int "runs" 5 < 1 then some "--runs must be at least 1"
  else if a.int "warmup" 0 < 0 then some "--warmup must not be negative"
  else if format ≠ "table" ∧ format ≠ "json" then some "--format must be 'table' or 'json'"
  else none

/-- Times the program. -/
def bench (c : Settings) (a : Arguments) : m (Except Failure Unit) := do
  match benchProblem? a with
  | some why => pure (.error (.plain why))
  | none =>
    match ← Workspace.bind w c with
    | .error f => pure (.error f)
    | .ok (b, s) =>
      match ← runInputs w b.program (a.text "inputs") (a.single "fill" .one) with
      | .error f => pure (.error f)
      | .ok given =>
        let poll : StateT Station m (Option Interruption) := do
          return (← liftM w.signal).poll.1
        let runs := Bench.run poll (measured w b given) (a.int "warmup" 0) (a.int "runs" 5)
        match (← runs.run s).1 with
        | .error f => pure (.error f)
        | .ok results =>
          let stats := Bench.stats (Bench.durations results)
          let isJson : Bool := a.text "format" "table" = "json"
          let printed ← w.print
            (if isJson then Bench.json results stats else Bench.table results stats)
          match isJson, printed with
          | true, .error f => pure (.error f)
          | _, _ =>
            match Bench.slowness? stats.mean (a.span "latency-threshold") with
            | some why => pure (.error (.plain why))
            | none => pure (.ok ())

end Evaluation

end EngineHost
