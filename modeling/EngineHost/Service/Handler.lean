import EngineHost.Json.Scan
import EngineHost.Operator.Engine
import EngineHost.Program.Bound
import EngineHost.Service.Message
import EngineHost.Service.RequestId
import EngineHost.Storage.Path
import EngineHost.Storage.Url

/-!
# Answering requests

A program is served at four paths: its health, its engines, a run and a trace. A run or a trace
takes the inputs in a JSON body and waits for a worker; failures are answered with a status that
says whose fault they are. A request whose handling has no result at all is not answered.
-/

namespace EngineHost

/-- What is served: a program, its live objects, and how it is run. -/
structure Served where
  program : Program
  objects : List (String × Object)
  run : Mode → List (String × Option Value) → Station →
    Except Failure (List (Option Value)) × Station

/-- A bound program, served. -/
def BoundProgram.served (b : BoundProgram) : Served :=
  ⟨b.program, b.objects, b.run⟩

/-- How requests are answered. -/
structure ServiceOptions where
  maxBodyBytes : Int64 := 33554432
  /-- How many runs may go on at once; no limit where it is not positive. -/
  workers : Int64 := 2
  requestTimeout : Int64 := 60000000000
  /-- Does the health report tell what is held on the device? -/
  reportsLedger : Bool := false
  version : String := "dev"
  deriving DecidableEq, Repr

/-- A request; `isCancelled` says that its sender has gone. -/
structure Request where
  method : String
  target : String
  body : Bytes
  id : String
  isCancelled : Bool := false
  deriving DecidableEq, Repr

namespace Request

/-- The method, which is to get something where none is given. -/
def verb (r : Request) : String :=
  if r.method = "" then "GET" else r.method

/-- What is asked for. To connect takes a host rather than a path. -/
def url (r : Request) : Except Url.Fault Url :=
  let target := Bytes.ofText r.target
  if r.verb = "CONNECT" ∧ ¬Path.isRooted r.target then
    Url.parseTarget (Bytes.ofText "http://" ++ target)
  else Url.parseTarget target

end Request

/-- An answer. -/
structure Response where
  status : Nat
  id : String
  contentType : String
  body : String
  deriving DecidableEq, Repr

/-- An engine as the service lists it. -/
structure EngineInfo where
  object : String
  handle : Handle

namespace Service

/-- An answer in JSON, without a body where a number has no JSON form. -/
def respondJson (status : Nat) (id : String) (v : Option Json) : Response :=
  { status, id, contentType := "application/json",
    body := match v with
      | some v => v.compact ++ "\n"
      | none => "" }

/-- An answer with an error. -/
def respondError (status : Nat) (id message : String) : Response :=
  respondJson status id (some (.object [("error", .string message), ("request_id", .string id)]))

/-! ### Health and engines -/

/-- The health report. -/
def healthJson (o : ServiceOptions) (served : Served) (l : Ledger) : Json :=
  let l := if o.reportsLedger then l else .empty
  .object [("status", .string "ok"), ("version", .string o.version),
    ("program", .string served.program.name), ("live_engines", .int l.engines.toInt),
    ("live_contexts", .int l.contexts.toInt), ("device_bytes", .int l.bytes.toInt)]

/-- The engines among objects, by the objects' names. -/
def engines (objects : List (String × Object)) : List EngineInfo :=
  let found := objects.filterMap fun (name, o) =>
    match o.value with
    | .engine (some h) => if o.className = EngineOp.className then some ⟨name, h⟩ else none
    | _ => none
  found.mergeSort fun a b => decide (a.object ≤ b.object)

/-- Names in JSON; null where there are none. -/
def namesJson (names : List String) : Json :=
  if names.isEmpty then .null else .strings names

/-- An engine in JSON. -/
def engineJson (e : EngineInfo) : Json :=
  let h := e.handle
  .object [("object", .string e.object), ("name", .string h.name),
    ("inputs", namesJson h.inputNames), ("outputs", namesJson h.outputNames),
    ("device", .string h.device.text), ("hardware_compatible", .bool h.hardwareCompatible),
    ("target_platform", .string h.targetPlatform), ("size", .string h.sizeText),
    ("digest", .string h.digest)]

/-! ### Runs and traces -/

/-- Reads the inputs of a request. -/
def readInputs : Json.Reader (List TensorMessage) :=
  Json.Reader.record fun m => m.get "inputs" (Json.Reader.list TensorMessage.read)

/-- The inputs in a body of limited size, or the status and the message of a refusal. What counts is
whether the first value ends within the limit. -/
def readBody (limit : Int64) (body : Bytes) : Except (Nat × String) (List TensorMessage) :=
  let limitNat := limit.toNatClampNeg
  let text := Json.chars (body.take limitNat)
  if body.isEmpty then .ok []
  else if limitNat < body.length ∧ Json.breaksOff text then
    .error (413, "request body exceeds maximum size of " ++ Text.ofInt64 limit ++ " bytes")
  else
    match (Json.readFirst? text).bind fun (v, _) => readInputs [v] with
    | some inputs => .ok inputs
    | none => .error (400, "invalid JSON: not a request")

/-- Takes the inputs of a run, or of a trace. -/
def takeInputs (mode : Mode) (taken : List (String × Option Value)) :
    List TensorMessage → Except Failure (List (String × Option Value))
  | [] => .ok taken
  | m :: more =>
    if m.name = "" then .error (.plain "input tensor without name")
    else if (taken.lookup m.name).isSome then
      .error (.plain ("input " ++ Text.quote m.name ++ " given twice"))
    else
      let value := if mode = .symbolic then m.descriptor.map Value.symbol
        else m.toTensor.map Value.tensor
      match value with
      | .error f => .error f
      | .ok v => takeInputs mode (taken ++ [(m.name, some v)]) more

/-- The inputs of a request; a trace without inputs is of the declared ones. -/
def inputs (served : Served) (mode : Mode) (messages : List TensorMessage) :
    Except Failure (List (String × Option Value)) :=
  if mode = .symbolic ∧ messages.isEmpty then
    .ok (served.program.inputList.map fun i => (i.name, some (.symbol i.descriptor)))
  else takeInputs mode [] messages

/-- The status for a failed run. -/
def statusOf (f : Failure) : Nat :=
  if f.isInterrupted then 504
  else if f.is .shapeBinding || f.is .deviceMismatch then 422
  else if f.is .malformed || f.is .loading then 500
  else 400

/-- A time limit that is up before a run can start. -/
def grain : Int64 := 1000

/-- What a run polls: whether the sender has gone, or the time is up. -/
def runSignal (o : ServiceOptions) (r : Request) : Signal :=
  if r.isCancelled then .fired .canceled
  else if o.requestTimeout < grain then .fired .deadline
  else .never

/-- The answer to a run that went well; it took so many milliseconds. -/
def resultJson (served : Served) (id : String) (durationMs : Int64) (outs : List Value) :
    Option Json := do
  let outputs ← (served.program.outputList.zip outs).mapM fun (name, v) =>
    (TensorMessage.ofValue name v).toJson?
  pure (.object [("request_id", .string id), ("outputs", .array outputs),
    ("duration_ms", .int durationMs.toInt)])

/-- The answer to a run that was made. There is none if the run broke off, or if one of its values
is not there to be looked into. -/
def answerRun (served : Served) (id : String) (durationMs : Int64) :
    Except Failure (List (Option Value)) → Option Response
  | .error f => if f.isCrash then none else some (respondError (statusOf f) id f.message)
  | .ok outs =>
    (outs.mapM fun v => v).map fun outs =>
      respondJson 200 id (resultJson served id durationMs outs)

/-- Answers a run or a trace. `isBusy` says that every worker is taken. -/
def respondRun (o : ServiceOptions) (served : Served) (mode : Mode) (isBusy : Bool)
    (durationMs : Int64) (id : String) (r : Request) (s : Station) : Option Response × Station :=
  if r.verb ≠ "POST" then (some (respondError 405 id "method not allowed"), s)
  else
    match readBody o.maxBodyBytes r.body with
    | .error (status, message) => (some (respondError status id message), s)
    | .ok messages =>
      match inputs served mode messages with
      | .error f => (some (respondError 400 id f.message), s)
      | .ok given =>
        if 0 < o.workers ∧ isBusy ∧ r.isCancelled then
          (some (respondError 503 id "request cancelled while waiting for worker"), s)
        else
          let (out, s) := served.run mode given { s with signal := runSignal o r }
          (answerRun served id durationMs out, s)

/-! ### Paths -/

/-- A path without detours; a slash at its end stays. -/
def cleanPath (path : String) : String :=
  let rooted := if Path.isRooted path then path else "/" ++ path
  let clean := Path.clean rooted
  if Text.endsWith "/" path && clean ≠ "/" then clean ++ "/" else clean

/-- A text as it stands in markup. -/
def markup (s : String) : String :=
  String.join (s.toList.map fun
    | '&' => "&amp;"
    | '<' => "&lt;"
    | '>' => "&gt;"
    | '"' => "&#34;"
    | '\x27' => "&#39;"
    | c => c.toString)

/-- The answer to what asks for a path with detours: where the path leads, with the query kept. -/
def redirect (method id : String) (u : Url) (path : String) : Response :=
  let isGet := method = "GET"
  let query := u.query.toText
  let link := path ++ if query = "" then "" else "?" ++ query
  { status := 307, id
    contentType := if isGet || method = "HEAD" then "text/html; charset=utf-8" else ""
    body := if isGet then "<a href=\"" ++ markup link ++ "\">Temporary Redirect</a>.\n\n" else "" }

/-- The answer for an unknown path. -/
def notFound (id : String) : Response :=
  ⟨404, id, "text/plain; charset=utf-8", "404 page not found\n"⟩

/-- The answer to what asks for nothing that can be found. -/
def badRequest (id : String) : Response :=
  ⟨400, id, "", ""⟩

/-- Answers at a path. -/
def respondAt (o : ServiceOptions) (served : Served) (isBusy : Bool) (durationMs : Int64)
    (id path : String) (r : Request) (s : Station) : Option Response × Station :=
  if path = "/health" then
    (some (respondJson 200 id (some (healthJson o served s.executor.ledger))), s)
  else if path = "/engines" then
    (some (respondJson 200 id (some (.array ((engines served.objects).map engineJson)))), s)
  else if path = "/run" then respondRun o served .concrete isBusy durationMs id r s
  else if path = "/trace" then respondRun o served .symbolic isBusy durationMs id r s
  else (some (notFound id), s)

/-- Answers a request, unless handling it breaks off. -/
def respond (o : ServiceOptions) (served : Served) (fresh : String) (isBusy : Bool)
    (durationMs : Int64) (r : Request) (s : Station) : Option Response × Station :=
  let id := RequestId.choose fresh r.id
  if r.target = "*" then (some (badRequest id), s)
  else
    match r.url with
    | .error _ => (some (badRequest id), s)
    | .ok u =>
      let path := u.escapedPath.toText
      if r.verb ≠ "CONNECT" ∧ cleanPath path ≠ path then
        (some (redirect r.verb id u (cleanPath path)), s)
      else respondAt o served isBusy durationMs id u.path.toText r s

end Service

end EngineHost
