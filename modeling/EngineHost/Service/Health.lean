import EngineHost.Json.Decode
import EngineHost.Json.Scan
import EngineHost.Storage.Web

/-!
# Asking for health

A running service is asked for its health over the web.
-/

namespace EngineHost

/-- The health of a service. -/
structure Health where
  status : String := ""
  version : String := ""
  program : String := ""
  liveEngines : Int64 := 0
  liveContexts : Int64 := 0
  deviceBytes : Int64 := 0
  deriving DecidableEq, Repr

namespace Health

open Json.Reader in
/-- Reads a health report. -/
def read : Json.Reader Health := record fun m => do
  pure {
    status := ← m.get "status" text
    version := ← m.get "version" text
    program := ← m.get "program" text
    liveEngines := ← m.get "live_engines" int64
    liveContexts := ← m.get "live_contexts" int64
    deviceBytes := ← m.get "device_bytes" int64 }

/-- The address of the report. -/
def url (addr : String) : String :=
  "http://" ++ addr ++ "/health"

/-- The report in a reply. A body that breaks off behind its first value is not noticed. -/
def readReply (u : Url) : Reply → Except Failure Health
  | .failed text => .error (Web.connection u text)
  | .answered status body breaksOff =>
    let chars := Json.chars body
    if status ≠ 200 then
      .error (.plain ("unexpected health status: " ++ Web.statusText status))
    else if breaksOff.isSome && Json.breaksOff chars then
      .error (.within "decode health" (.plain "broken off"))
    else
      match (Json.readFirst? chars).bind fun (v, _) => read [v] with
      | some h => .ok h
      | none => .error (.within "decode health" (.plain "not a health report"))

/-- Asks for the health of a service; `ask` sends the request. -/
def probe [Monad m] (ask : String → m Reply) (addr : String) : m (Except Failure Health) :=
  match Web.address (url addr) with
  | .error f => pure (.error f)
  | .ok u => do
    let reply ← ask (url addr)
    pure (readReply u reply)

end Health

end EngineHost
