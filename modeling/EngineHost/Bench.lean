import EngineHost.Failure
import EngineHost.Json.Writer
import EngineHost.Number.Layout
import EngineHost.Number.Size
import EngineHost.Number.Span

/-!
# Benchmarks

A benchmark calls a program some times, after some calls that do not count, and takes the time of
each. The very first call is cold; it is left out of the statistics where there are others.
Statistics are order statistics: the least, the largest, two percentiles by the nearest rank, and
the mean.
-/

namespace EngineHost

/-- One measured call. -/
structure BenchRun where
  index : Int64
  isCold : Bool
  duration : Span
  outputBytes : Int64
  deriving DecidableEq, Repr

/-- Statistics of durations. -/
structure BenchStats where
  min : Span := 0
  max : Span := 0
  mean : Span := 0
  p50 : Span := 0
  p95 : Span := 0
  deriving DecidableEq, Repr

namespace Bench

/-- The percentile of an ascending list by the nearest rank. -/
def percentile (sorted : List Span) (p : Nat) : Span :=
  sorted.getD (Nat.max ((p * sorted.length + 99) / 100) 1 - 1) 0

/-- The statistics of durations. -/
def stats (durations : List Span) : BenchStats :=
  let sorted := durations.mergeSort fun a b => decide (a ≤ b)
  match sorted with
  | [] => {}
  | least :: _ =>
    { min := least
      max := sorted.getLastD 0
      mean := sorted.foldl (· + ·) 0 / Int64.ofNat sorted.length
      p50 := percentile sorted 50
      p95 := percentile sorted 95 }

/-- Calls a second for some calls in a time; none where no time went by. -/
def throughput (n : Int64) (wall : Span) : Double :=
  if wall ≤ 0 then .zero
  else
    let second : Int64 := 1000000000
    let seconds := Double.add (.ofInt (wall / second).toInt)
      (Double.div (.ofInt (wall % second).toInt) (.ofInt 1000000000))
    Double.div (.ofInt n.toInt) seconds

/-- Makes calls from number `i` on. A call gives the size of its output and the time it took, and
the caller is asked before each whether to go on. -/
def runFrom [Monad m] (poll : m (Option Interruption)) (call : m (Except Failure (Int64 × Span)))
    (warmup : Int64) : (count : Nat) → (i : Nat) → m (Except Failure (List BenchRun))
  | 0, _ => pure (.ok [])
  | count + 1, i => do
    match ← poll with
    | some why => pure (.error (.interrupted why))
    | none =>
      match ← call with
      | .error f => pure (.error (.within ("run " ++ toString i) f))
      | .ok (bytes, duration) =>
        let rest ← runFrom poll call warmup count (i + 1)
        let number := Int64.ofNat i
        let here := if number < warmup then [] else
          [{ index := number - warmup, isCold := i = 0, duration, outputBytes := bytes }]
        pure (rest.map (here ++ ·))

/-- Makes the calls of a benchmark. -/
def run [Monad m] (poll : m (Option Interruption)) (call : m (Except Failure (Int64 × Span)))
    (warmup runs : Int64) : m (Except Failure (List BenchRun)) :=
  runFrom poll call warmup (warmup + runs).toNatClampNeg 0

/-- The durations that count. -/
def durations (runs : List BenchRun) : List Span :=
  (runs.filter fun r => !(r.isCold && 1 < runs.length)).map (·.duration)

/-- The refusal of a mean above a threshold, if there is a threshold. -/
def slowness? (mean threshold : Span) : Option String :=
  if 0 < threshold ∧ threshold < mean then
    some ("mean latency " ++ mean.text ++ " exceeds threshold " ++ threshold.text)
  else none

/-- A duration in milliseconds, cut to microseconds. -/
def milliseconds (d : Span) : Double :=
  Double.div (.ofInt (d / 1000).toInt) (.ofInt 1000)

/-- One line of the table, up to its last column. -/
def line (first second : String) (ms : String) : String :=
  Text.padEnd 5 first ++ "  " ++ Text.padEnd 5 second ++ "  " ++ Text.padStart 10 ms ++ "  "

/-- Milliseconds with three places. -/
def msText (d : Span) : String :=
  (milliseconds d).fixed 3

/-- The line of one run. -/
def runLine (r : BenchRun) : String :=
  line (Text.ofInt64 (r.index + 1)) (if r.isCold then "yes" else "") (msText r.duration) ++
    Text.padStart 12 (sizeText r.outputBytes.toUInt64) ++ "\n"

/-- The line of one statistic. -/
def statLine (name : String) (d : Span) : String :=
  line "" "" (msText d) ++ "(" ++ name ++ ")\n"

/-- Runs and statistics as a table. -/
def table (runs : List BenchRun) (s : BenchStats) : String :=
  let rule := Text.times '-' 38 ++ "\n"
  line "Run" "Cold" "MS" ++ Text.padStart 12 "Output" ++ "\n" ++ rule ++
    String.join (runs.map runLine) ++ rule ++
    statLine "min" s.min ++ statLine "p50" s.p50 ++ statLine "mean" s.mean ++
    statLine "p95" s.p95 ++ statLine "max" s.max

/-- Milliseconds in JSON. -/
def msJson (d : Span) : Json :=
  (Json.ofDouble? (milliseconds d)).getD .null

/-- One run in JSON. -/
def runJson (r : BenchRun) : Json :=
  .object [("index", .int r.index.toInt), ("cold", .bool r.isCold),
    ("duration_ms", msJson r.duration), ("output_bytes", .int r.outputBytes.toInt)]

/-- Runs and statistics in JSON. -/
def json (runs : List BenchRun) (s : BenchStats) : String :=
  let stats := Json.object [("min_ms", msJson s.min), ("p50_ms", msJson s.p50),
    ("mean_ms", msJson s.mean), ("p95_ms", msJson s.p95), ("max_ms", msJson s.max)]
  (Json.object [("runs", .array (runs.map runJson)), ("stats", stats)]).indented ++ "\n"

end Bench

end EngineHost
