import EngineHost.Failure
import EngineHost.Json.Basic
import EngineHost.Number.Span
import EngineHost.Text.Letters
import EngineHost.Text.Space

/-!
# Settings

What can be set for a run of the program, with the values that hold where nothing is said. Each
setting has a key, a path of at most two names: the section it stands in and its own name.
-/

namespace EngineHost

/-- The settings of a run. -/
structure Settings where
  logLevel : String := "info"
  /-- The location of the program. -/
  program : String := "program.json"
  backend : String := "auto"
  libraryPath : String := ""
  apiVersion : UInt32 := 23
  signature : String := "cpu/generic"
  cacheEngines : Bool := false
  kernelWorkers : Int64 := 1
  allowProbe : Bool := false
  probeCacheSize : Int64 := 256
  listenAddr : String := ":8080"
  workers : Int64 := 2
  requestTimeout : Span := 60000000000
  shutdownTimeout : Span := 30000000000
  maxBodyBytes : Int64 := 33554432
  deriving DecidableEq, Repr

namespace Settings

/-- The settings one by one. -/
inductive Key where
  | logLevel
  | program
  | backend
  | libraryPath
  | apiVersion
  | signature
  | cacheEngines
  | kernelWorkers
  | allowProbe
  | probeCacheSize
  | listenAddr
  | workers
  | requestTimeout
  | shutdownTimeout
  | maxBodyBytes
  deriving DecidableEq, Repr

namespace Key

/-- Every setting. -/
def all : List Key :=
  [.logLevel, .program, .backend, .libraryPath, .apiVersion, .signature, .cacheEngines,
    .kernelWorkers, .allowProbe, .probeCacheSize, .listenAddr, .workers, .requestTimeout,
    .shutdownTimeout, .maxBodyBytes]

/-- The section of a setting, if it stands in one. -/
def section? : Key → Option String
  | .logLevel => none
  | .program => some "paths"
  | .backend | .libraryPath | .apiVersion | .signature | .cacheEngines | .kernelWorkers =>
    some "runtime"
  | .allowProbe | .probeCacheSize => some "symbolic"
  | .listenAddr | .workers | .requestTimeout | .shutdownTimeout | .maxBodyBytes => some "server"

/-- The name of a setting in its section. -/
def name : Key → String
  | .logLevel => "log_level"
  | .program => "program"
  | .backend => "backend"
  | .libraryPath => "ort_library_path"
  | .apiVersion => "ort_api_version"
  | .signature => "device_signature"
  | .cacheEngines => "cache_engines"
  | .kernelWorkers => "kernel_workers"
  | .allowProbe => "allow_probe"
  | .probeCacheSize => "probe_cache_size"
  | .listenAddr => "listen_addr"
  | .workers => "workers"
  | .requestTimeout => "request_timeout"
  | .shutdownTimeout => "shutdown_timeout"
  | .maxBodyBytes => "max_body_bytes"

/-- The whole key, section and name with a point between. -/
def path (k : Key) : String :=
  match k.section? with
  | some s => s ++ "." ++ k.name
  | none => k.name

end Key

/-- A setting in JSON; spans count nanoseconds. -/
def get (c : Settings) : Key → Json
  | .logLevel => .string c.logLevel
  | .program => .string c.program
  | .backend => .string c.backend
  | .libraryPath => .string c.libraryPath
  | .apiVersion => .int c.apiVersion.toNat
  | .signature => .string c.signature
  | .cacheEngines => .bool c.cacheEngines
  | .kernelWorkers => .int c.kernelWorkers.toInt
  | .allowProbe => .bool c.allowProbe
  | .probeCacheSize => .int c.probeCacheSize.toInt
  | .listenAddr => .string c.listenAddr
  | .workers => .int c.workers.toInt
  | .requestTimeout => .int c.requestTimeout.toInt
  | .shutdownTimeout => .int c.shutdownTimeout.toInt
  | .maxBodyBytes => .int c.maxBodyBytes.toInt

/-- All settings in JSON, each under its own name. -/
def toJson (c : Settings) : Json :=
  .object (Key.all.map fun k => (k.name, c.get k))

/-- The backend that a name means, blanks around it and case apart. -/
def normalBackend (raw : String) : Except Failure String :=
  let name := Text.lower (Text.trim raw)
  if name = "" then .ok "auto"
  else if name = "auto" ∨ name = "plan" ∨ name = "ort" then .ok name
  else if name = "onnx" ∨ name = "onnxruntime" then .ok "ort"
  else
    .error (.plain ("invalid backend " ++ Text.quote raw ++ " (expected auto|plan|ort)"))

/-- The number of a log level, case apart. -/
def readLogLevel (raw : String) : Except Failure Int64 :=
  let name := Text.lower raw
  if name = "" ∨ name = "info" then .ok 0
  else if name = "debug" then .ok (-4)
  else if name = "warn" ∨ name = "warning" then .ok 4
  else if name = "error" then .ok 8
  else
    .error (.plain ("unknown log level " ++ Text.quote raw ++ " (want debug|info|warn|error)"))

end Settings

end EngineHost
