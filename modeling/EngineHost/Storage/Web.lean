import EngineHost.Failure
import EngineHost.Storage.Url

/-!
# Reading from the web

An address that cannot be read as one is refused before anything is sent. After that a reply is a
failure of the connection, or a status with a body that may break off.
-/

namespace EngineHost

/-- What comes back for a request. -/
inductive Reply where
  | failed (text : String)
  | answered (status : Nat) (body : Bytes) (breaksOff : Option String)
  deriving DecidableEq, Repr

namespace Web

/-- The usual names of statuses. -/
def reasons : List (Nat × String) := [
  (100, "Continue"), (101, "Switching Protocols"), (102, "Processing"), (103, "Early Hints"),
  (200, "OK"), (201, "Created"), (202, "Accepted"), (203, "Non-Authoritative Information"),
  (204, "No Content"), (205, "Reset Content"), (206, "Partial Content"), (207, "Multi-Status"),
  (208, "Already Reported"), (226, "IM Used"),
  (300, "Multiple Choices"), (301, "Moved Permanently"), (302, "Found"), (303, "See Other"),
  (304, "Not Modified"), (305, "Use Proxy"), (307, "Temporary Redirect"),
  (308, "Permanent Redirect"),
  (400, "Bad Request"), (401, "Unauthorized"), (402, "Payment Required"), (403, "Forbidden"),
  (404, "Not Found"), (405, "Method Not Allowed"), (406, "Not Acceptable"),
  (407, "Proxy Authentication Required"), (408, "Request Timeout"), (409, "Conflict"),
  (410, "Gone"), (411, "Length Required"), (412, "Precondition Failed"),
  (413, "Request Entity Too Large"), (414, "Request URI Too Long"),
  (415, "Unsupported Media Type"), (416, "Requested Range Not Satisfiable"),
  (417, "Expectation Failed"), (418, "I'm a teapot"), (421, "Misdirected Request"),
  (422, "Unprocessable Entity"), (423, "Locked"), (424, "Failed Dependency"),
  (425, "Too Early"), (426, "Upgrade Required"), (428, "Precondition Required"),
  (429, "Too Many Requests"), (431, "Request Header Fields Too Large"),
  (451, "Unavailable For Legal Reasons"),
  (500, "Internal Server Error"), (501, "Not Implemented"), (502, "Bad Gateway"),
  (503, "Service Unavailable"), (504, "Gateway Timeout"), (505, "HTTP Version Not Supported"),
  (506, "Variant Also Negotiates"), (507, "Insufficient Storage"), (508, "Loop Detected"),
  (510, "Not Extended"), (511, "Network Authentication Required")]

/-- A status with its name, if it has one. -/
def statusText (status : Nat) : String :=
  match reasons.lookup status with
  | some reason => toString status ++ " " ++ reason
  | none => toString status

/-- A host without a colon that no port follows. -/
def dropEmptyPort (host : Bytes) : Bytes :=
  match Url.cutLast? ':' host with
  | some (name, port) => if port.isEmpty then name else host
  | none => host

/-- The address of a request. -/
def address (url : String) : Except Failure Url :=
  match Url.parse url with
  | .error e => .error (.plain (Url.refusal e))
  | .ok u => .ok { u with host := dropEmptyPort u.host }

/-- A failed connection. -/
def connection (u : Url) (text : String) : Failure :=
  .within ("Get " ++ Text.quote u.text) (.plain text)

/-- The object in a reply. -/
def readReply (url : String) (u : Url) : Reply → Except Failure Bytes
  | .failed text => .error (.within ("fetching " ++ Text.quote url) (connection u text))
  | .answered status body breaksOff =>
    if status = 404 then
      .error (.within ("fetching " ++ Text.quote url) (.missing "file does not exist"))
    else if status ≠ 200 then
      .error (.plain ("fetching " ++ Text.quote url ++ ": unexpected status " ++
        statusText status))
    else
      match breaksOff with
      | some text => .error (.within ("reading body of " ++ Text.quote url) (.plain text))
      | none => .ok body

/-- Reads an object; `ask` sends the request. -/
def read [Monad m] (ask : String → m Reply) (url : String) : m (Except Failure Bytes) :=
  match address url with
  | .error f => pure (.error (.within "creating request" f))
  | .ok u => do
    let reply ← ask url
    pure (readReply url u reply)

end Web

end EngineHost
