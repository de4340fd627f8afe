import EngineHost.Text.Integer
import EngineHost.Text.Pieces

/-!
# Addresses to listen at

An address is a host and a port with a colon between; a host with colons in it stands in brackets.
-/

namespace EngineHost

namespace Address

/-- What is wrong with an address: the part at fault and why. -/
structure Problem where
  part : String
  why : String
  deriving DecidableEq, Repr

/-- The wording of a problem. -/
def Problem.message (p : Problem) : String :=
  if p.part = "" then p.why else "address " ++ p.part ++ ": " ++ p.why

/-- Text before and behind the last colon. -/
def cutLastColon (cs : List Char) : Option (List Char × List Char) :=
  if cs.contains ':' then
    let r := cs.reverse
    some (((r.dropWhile (· ≠ ':')).drop 1).reverse, (r.takeWhile (· ≠ ':')).reverse)
  else none

/-- The port of an address. -/
def port (addr : String) : Except Problem String :=
  let fail (why : String) : Except Problem String := .error ⟨addr, why⟩
  let cs := addr.toList
  match cutLastColon cs with
  | none => fail "missing port in address"
  | some (before, port) =>
    match cs with
    | '[' :: rest =>
      if !rest.contains ']' then fail "missing ']' in address"
      else
        let host := rest.takeWhile (· ≠ ']')
        let behind := (rest.dropWhile (· ≠ ']')).drop 1
        if behind = [] then fail "missing port in address"
        else if behind.length ≠ port.length + 1 then
          if behind.head? = some ':' then fail "too many colons in address"
          else fail "missing port in address"
        else if host.contains '[' || behind.contains '[' then fail "unexpected '[' in address"
        else if behind.contains ']' then fail "unexpected ']' in address"
        else .ok (String.ofList port)
    | _ =>
      if before.contains ':' then fail "too many colons in address"
      else if cs.contains '[' then fail "unexpected '[' in address"
      else if cs.contains ']' then fail "unexpected ']' in address"
      else .ok (String.ofList port)

/-- From here on a port number is too large to read on. -/
def portCutoff : UInt32 := 0x40000000

/-- The largest number of thirty-two bits: it stands for a port number that is too large. -/
def portMax : UInt32 := 0xFFFFFFFF

/-- Reads the digits of a port number behind `n`, in thirty-two bits. What follows a number that is
too large is not looked at; a product that leaves the bits is not noticed, a sum that does is too
large. -/
def portDigits? (n : UInt32) : List Char → Option UInt32
  | [] => some n
  | c :: r =>
    match Text.digit? c with
    | none => none
    | some d =>
      let shifted := n * 10
      let next := shifted + UInt32.ofNat d
      if portCutoff ≤ n ∨ next < shifted then some portMax else portDigits? next r

/-- The value of a port that is a number, possibly with a sign; large values all count as one. -/
def portNumber? (port : String) : Option Int :=
  let magnitude? (cs : List Char) (most : UInt32) : Option Int :=
    (portDigits? 0 cs).map fun n => Int.ofNat (if most < n then most else n).toNat
  match port.toList with
  | '+' :: ds => magnitude? ds (portCutoff - 1)
  | '-' :: ds => (magnitude? ds portCutoff).map fun n => -n
  | ds => magnitude? ds (portCutoff - 1)

/-- The ports that go by a name, in any case. -/
def namedPorts : List String :=
  ["ftp", "ftps", "gopher", "http", "https", "imap2", "imap3", "imaps", "pop3", "pop3s", "smtp",
    "submissions", "ssh", "telnet"]

/-- What is wrong with an address to listen at, if anything is. No address at all is any free
port. -/
def problem? (addr : String) : Option String :=
  if addr = "" then none
  else
    match port addr with
    | .error p => some p.message
    | .ok port =>
      match portNumber? port with
      | some n =>
        if n < 0 ∨ 65535 < n then some (Problem.message ⟨port, "invalid port"⟩) else none
      | none =>
        if namedPorts.contains (port.map Char.toLower) then none
        else some ("lookup tcp/" ++ port ++ ": unknown port")

/-- The failure to listen at an address. -/
def listenMessage (why : String) : String :=
  "http listen: listen tcp: " ++ why

end Address

end EngineHost
