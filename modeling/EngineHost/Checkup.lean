import EngineHost.Engine.Library
import EngineHost.Number.Size
import EngineHost.Program.Bound
import EngineHost.Program.Describe

/-!
# Checkups

A checkup looks at the ONNX Runtime library, the runtimes, the program with its engines and its
trace, and last at what is still held on the device. Every check prints a line, and failures are
also collected.
-/

namespace EngineHost

/-- What a checkup looks at; what is absent is not looked at. -/
structure Checkup where
  /-- What came of looking for the library. -/
  library : Option LibraryLookup := none
  /-- The least minor version of the library. -/
  apiVersion : UInt32 := 0
  runtimes : List Runtime := []
  registry : Option Registry := none
  program : Option (Except Failure Program) := none
  /-- Are device resources looked at? -/
  checksResources : Bool := false

/-- What a checkup found. -/
structure CheckupReport where
  output : String := ""
  failures : List String := []
  deriving DecidableEq, Repr

namespace CheckupReport

/-- The mark of a check that passed. -/
def passMark : String := "✓"

/-- The mark of a check that failed. -/
def failMark : String := "✗"

variable (r : CheckupReport)

/-- Did any check fail? -/
def hasFailed : Bool := !r.failures.isEmpty

/-- A check that passed. -/
def pass (text : String) : CheckupReport :=
  { r with output := r.output ++ passMark ++ " " ++ text ++ "\n" }

/-- A check that failed. -/
def fail (check reason : String) : CheckupReport :=
  let text := check ++ ": " ++ reason
  { output := r.output ++ failMark ++ " " ++ text ++ "\n", failures := r.failures ++ [text] }

/-- A failure from elsewhere. -/
def add (text : String) : CheckupReport :=
  { r with failures := r.failures ++ [text] }

/-- The verdict: what goes to the output, what to the error output, and the failure if there is
one. -/
def verdict : String × String × Option Failure :=
  if r.hasFailed then
    ("", String.join (r.failures.map fun f => "FAIL: " ++ f ++ "\n"),
      some (.plain "doctor checks failed"))
  else ("doctor checks passed\n", "", none)

end CheckupReport

namespace Checkup

/-! ### The library -/

/-- A number of a version text, or what is wrong with it. -/
def versionNumber (what version part : String) : Except String Int64 :=
  (Text.readInt64 part).mapError fun e =>
    "bad " ++ what ++ " in " ++ Text.quote version ++ ": strconv.Atoi: parsing " ++
      Text.quote part ++ ": " ++ e.message

/-- The first two numbers of a version. -/
def majorMinor (version : String) : Except String (Int64 × Int64) :=
  match Text.split '.' version with
  | major :: minor :: _ => do
    let major ← versionNumber "major" version major
    let minor ← versionNumber "minor" version minor
    pure (major, minor)
  | _ => .error ("unexpected version format " ++ Text.quote version)

/-- Why a version will not do: the library is of the first generation, and its minor version, in
thirty-two bits, is at least `api`. A version that is not known will do. -/
def versionProblem? (version : String) (api : UInt32) : Option String :=
  if version = "" ∨ version = Library.unknownVersion then none
  else
    match majorMinor version with
    | .error e => some ("cannot parse " ++ Text.quote version ++ ": " ++ e)
    | .ok (major, minor) =>
      if major ≠ 1 then some ("requires ONNX Runtime 1.x, got " ++ Text.ofInt64 major)
      else if minor.toUInt64.toUInt32 < api then
        some ("requires ONNX Runtime >=1." ++ toString api.toNat ++ ", got 1." ++
          Text.ofInt64 minor)
      else none

/-- Checks the library. -/
def checkLibrary (c : Checkup) (r : CheckupReport) : CheckupReport :=
  match c.library with
  | none => r.pass "onnx runtime library: skipped"
  | some found =>
    match found.problem with
    | some f => r.fail "onnx runtime library" f.message
    | none =>
      match versionProblem? found.library.version c.apiVersion with
      | some why => r.fail ("onnx runtime version " ++ found.library.version) why
      | none =>
        r.pass ("onnx runtime library: " ++ found.library.path ++ " (" ++ found.library.version ++
          ")")

/-- Checks that there are runtimes. -/
def checkRuntimes (c : Checkup) (r : CheckupReport) : CheckupReport :=
  if c.runtimes.isEmpty then r.fail "runtimes" "no runtime backend opened"
  else r.pass ("runtimes: " ++ Text.join ", " (c.runtimes.map (·.name)))

/-! ### The program -/

/-- Loads the payload of a handle and lets it go: the name of the runtime that took it. -/
def loadEngine (runtimes : List Runtime) (h : Handle) : Except Failure String × List Entry :=
  match Runtime.select runtimes h.engine with
  | .error f => (.error f, [])
  | .ok rt =>
    match rt.load h.engine h.loadOptions with
    | .error f => (.error f, [])
    | .ok e =>
      let entries := [.engineOpened e.bytes, .engineClosed e.bytes]
      match e.closeFailure with
      | some f => (.error f, entries)
      | none => (.ok rt.name, entries)

/-- Notes entries in a station. -/
def postEntries (s : Station) (entries : List Entry) : Station :=
  { s with executor := s.executor.note entries }

/-- Checks one object of the program. -/
def checkObject (runtimes : List Runtime) (o : StoredObject) (r : CheckupReport) (s : Station) :
    CheckupReport × Station :=
  if o.className ≠ EngineOp.className then (r, s)
  else
    let check := "engine " ++ o.name
    match Program.engineOf o with
    | .error f => (r.fail check f.message, s)
    | .ok h =>
      let (out, entries) := loadEngine runtimes h
      let s := postEntries s entries
      match out with
      | .error f => (r.fail check f.message, s)
      | .ok backend =>
        (r.pass (check ++ " (" ++ h.name ++ "): " ++ backend ++ " on " ++ h.targetPlatform ++
          ", " ++ h.sizeText), s)

/-- Checks the trace of the program. -/
def checkTrace (reg : Registry) (p : Program) (r : CheckupReport) (s : Station) :
    CheckupReport × Station :=
  match BoundProgram.bind reg p with
  | .error f => (r.fail "trace" f.message, s)
  | .ok b =>
    match b.trace s with
    | (.error f, s) => (r.fail "trace" f.message, s)
    | (.ok outs, s) => (r.pass ("trace: " ++ Text.join ", " (outs.map (·.text))), s)

/-- Checks the program. -/
def checkProgram (c : Checkup) (r : CheckupReport) (s : Station) : CheckupReport × Station :=
  match c.program with
  | none => (r, s)
  | some (.error f) => (r.fail "program" f.message, s)
  | some (.ok p) =>
    let r := r.pass ("program " ++ p.name ++ ": " ++ toString p.inputList.length ++ " inputs, " ++
      toString p.nodeList.length ++ " nodes, " ++ toString p.objects.length ++ " objects")
    let (r, s) := p.objects.foldl (fun (r, s) o => checkObject c.runtimes o r s) (r, s)
    match c.registry with
    | none => (r, s)
    | some reg => checkTrace reg p r s

/-- Checks that nothing is held. -/
def checkLedger (c : Checkup) (l : Ledger) (r : CheckupReport) : CheckupReport :=
  if !c.checksResources then r
  else if l.isIdle then r.pass "device resources: released"
  else
    let bytes := if l.bytes < 0 then 0 else l.bytes
    r.fail "device resources" (Text.ofInt64 l.engines ++ " engines, " ++
      Text.ofInt64 l.contexts ++ " contexts, " ++ sizeText bytes.toUInt64 ++ " still held")

/-- Makes every check. -/
def run (c : Checkup) (s : Station) : CheckupReport × Station :=
  let r := c.checkRuntimes (c.checkLibrary {})
  let (r, s) := c.checkProgram r s
  (c.checkLedger s.executor.ledger r, s)

end Checkup

end EngineHost
