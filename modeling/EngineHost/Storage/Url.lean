import EngineHost.Storage.HostAddress
import EngineHost.Text.Letters
import EngineHost.Text.Quoted

/-!
# Addresses on the web

`Url.parse` takes an address apart octet by octet; `Url.text` puts it together again, with what
needs escaping escaped. Refusals name the first thing at fault: a control character anywhere, then
the scheme, the host with its port, the path, and last the fragment. Brackets around a host are for
a numeric address of sixteen octets only.

`Url.parseTarget` reads the target of a request: an address that has a scheme or starts with a
slash, and no fragment. Two slashes at its start do not make a host.
-/

namespace EngineHost

/-- Who asks at an address: a name, and possibly a password. -/
structure Userinfo where
  name : Bytes
  password : Option Bytes
  deriving DecidableEq, Repr

/-- An address, with escapes resolved in host, path and fragment. -/
structure Url where
  scheme : Bytes := []
  opaquePart : Bytes := []
  user : Option Userinfo := none
  host : Bytes := []
  path : Bytes := []
  rawPath : Bytes := []
  omitHost : Bool := false
  forceQuery : Bool := false
  query : Bytes := []
  fragment : Bytes := []
  rawFragment : Bytes := []
  deriving DecidableEq, Repr

namespace Url

/-- Which part of an address a text stands in. -/
inductive Part where
  | path
  | host
  | zone
  | user
  | fragment
  deriving DecidableEq, Repr

/-- Why an address is refused. -/
inductive Fault where
  | control
  | noScheme
  | noRoot
  | colonInSegment
  | noClosingBracket
  | port (text : Bytes)
  | badUser
  | escape (text : Bytes)
  | hostChar (text : Bytes)
  | number (text : Bytes) (fault : HostAddress.Fault)
  | misplacedNumber
  deriving DecidableEq, Repr

/-- The wording of a refusal. -/
def Fault.message : Fault → String
  | .control => "net/url: invalid control character in URL"
  | .noScheme => "missing protocol scheme"
  | .noRoot => "invalid URI for request"
  | .colonInSegment => "first path segment in URL cannot contain colon"
  | .noClosingBracket => "missing ']' in host"
  | .port text => "invalid port " ++ Text.quoteBytes text ++ " after host"
  | .badUser => "net/url: invalid userinfo"
  | .escape text => "invalid URL escape " ++ Text.quoteBytes text
  | .hostChar text => "invalid character " ++ Text.quoteBytes text ++ " in host name"
  | .number text fault => "invalid host: " ++ fault.message text
  | .misplacedNumber => "invalid IP-literal"

/-- An ASCII character as an octet. -/
def octet (c : Char) : UInt8 := c.toUInt8

/-- Is an octet one of some characters? -/
def isOneOf (chars : String) (b : UInt8) : Bool :=
  chars.toList.any (octet · = b)

/-- Is an octet an ASCII letter? -/
def isLetter (b : UInt8) : Bool :=
  (octet 'a' ≤ b && b ≤ octet 'z') || (octet 'A' ≤ b && b ≤ octet 'Z')

/-- Is an octet a digit? -/
def isDigit (b : UInt8) : Bool :=
  octet '0' ≤ b && b ≤ octet '9'

/-- Does an octet need escaping in a part? -/
def needsEscape (part : Part) (b : UInt8) : Bool :=
  if isLetter b || isDigit b || isOneOf "-_.~" b then false
  else
    match part with
    | .host | .zone => !isOneOf "!$&'()*+,;=:[]<>\"" b
    | .path => !isOneOf "$&+,/:;=@" b
    | .user => !isOneOf "$&+,;=" b
    | .fragment => !isOneOf "$&+,/:;=?@!()*" b

/-- Resolves escapes. A host takes escapes of octets beyond ASCII only. -/
def unescape (part : Part) : Bytes → Except Fault Bytes
  | [] => .ok []
  | b :: r =>
    if b = octet '%' then
      match r with
      | h :: l :: rest =>
        match Bytes.hexOctet? h, Bytes.hexOctet? l with
        | some hi, some lo =>
          let v := UInt8.ofNat (hi * 16 + lo)
          let isPercent := hi = 2 ∧ lo = 5
          if (part = .host ∧ hi < 8 ∧ ¬isPercent) ∨
              (part = .zone ∧ ¬isPercent ∧ v ≠ octet ' ' ∧ needsEscape .host v) then
            .error (.escape [b, h, l])
          else (unescape part rest).map (v :: ·)
        | _, _ => .error (.escape [b, h, l])
      | short => .error (.escape (b :: short))
    else if (part = .host ∨ part = .zone) ∧ b < 0x80 ∧ needsEscape part b then
      .error (.hostChar [b])
    else (unescape part r).map (b :: ·)

/-- A capital hexadecimal digit. -/
def capitalHex (n : Nat) : UInt8 :=
  octet (Text.asciiUpperChar (Bytes.hexDigit n))

/-- Escapes what needs it. -/
def escape (part : Part) (bs : Bytes) : Bytes :=
  bs.flatMap fun b =>
    if needsEscape part b then
      [octet '%', capitalHex (b.toNat / 16), capitalHex (b.toNat % 16)]
    else [b]

/-- Could a text stand in a part as it is? -/
def isEncoded (part : Part) (bs : Bytes) : Bool :=
  bs.all fun b => isOneOf "!$&'()*+,;=:@[]%" b || !needsEscape part b

/-- A part with its escapes resolved, and its text where that is not how it would be written. -/
def readPart (part : Part) (bs : Bytes) : Except Fault (Bytes × Bytes) :=
  (unescape part bs).map fun v => (v, if escape part v = bs then [] else bs)

/-- The escaped form of a part. -/
def writePart (part : Part) (value raw : Bytes) : Bytes :=
  if raw ≠ [] ∧ isEncoded part raw then raw
  else if value = [octet '*'] then value else escape part value

/-- Cuts at the first octet of a kind; the octet itself goes. -/
def cut (c : Char) (bs : Bytes) : Bytes × Bytes :=
  (bs.takeWhile (· ≠ octet c), (bs.dropWhile (· ≠ octet c)).drop 1)

/-- Cuts at the last octet of a kind. -/
def cutLast? (c : Char) (bs : Bytes) : Option (Bytes × Bytes) :=
  if bs.contains (octet c) then
    let r := bs.reverse
    some (((r.dropWhile (· ≠ octet c)).drop 1).reverse, (r.takeWhile (· ≠ octet c)).reverse)
  else none

/-- The scheme and the rest. -/
def takeScheme (bs : Bytes) : Except Fault (Bytes × Bytes) :=
  let body := bs.takeWhile fun b => isLetter b || isDigit b || isOneOf "+-." b
  match bs.drop body.length with
  | c :: rest =>
    if c ≠ octet ':' then .ok ([], bs)
    else
      match body with
      | [] => .error .noScheme
      | first :: _ => if isLetter first then .ok (body, rest) else .ok ([], bs)
  | [] => .ok ([], bs)

/-- Is a text a port behind its colon, or nothing? -/
def isPort : Bytes → Bool
  | [] => true
  | c :: digits => c = octet ':' && digits.all isDigit

/-- The place where a pattern first stands. -/
def indexOf? (pattern : Bytes) (i : Nat) : Bytes → Option Nat
  | [] => if pattern.isEmpty then some i else none
  | b :: r => if pattern.isPrefixOf (b :: r) then some i else indexOf? pattern (i + 1) r

/-- Resolves escapes in a numeric host; its zone starts at an escaped percent sign. -/
def unescapeNumber (name : Bytes) : Except Fault Bytes :=
  match indexOf? (Bytes.ofText "%25") 0 name with
  | none => unescape .host name
  | some start => do
    let number ← unescape .host (name.take start)
    let zone ← unescape .zone (name.drop start)
    pure (number ++ zone)

/-- Reads a host in brackets with its port, from behind the opening bracket. -/
def readNumericHost (text : Bytes) : Except Fault Bytes :=
  match cutLast? ']' text with
  | none => .error .noClosingBracket
  | some (inside, port) =>
    if !isPort port then .error (.port port)
    else do
      let name ← unescapeNumber inside
      match HostAddress.read name with
      | .error f => .error (.number name f)
      | .ok .four => .error .misplacedNumber
      | .ok .sixteen => pure ([octet '['] ++ name ++ [octet ']'] ++ port)

/-- Reads a host with its port. -/
def readHost (host : Bytes) : Except Fault Bytes :=
  match cutLast? '[' host with
  | some ([], text) => readNumericHost text
  | some (_, _) => .error .misplacedNumber
  | none =>
    match cutLast? ':' host with
    | some (_, port) =>
      if isPort (octet ':' :: port) then unescape .host host
      else .error (.port (octet ':' :: port))
    | none => unescape .host host

/-- Octets that may stand in front of a host. -/
def isUserinfo (bs : Bytes) : Bool :=
  bs.all fun b => isLetter b || isDigit b || isOneOf "-._:~!$&'()*+,;=%@" b

/-- Reads who asks and the host. -/
def readAuthority (bs : Bytes) : Except Fault (Option Userinfo × Bytes) :=
  match cutLast? '@' bs with
  | none => (readHost bs).map fun host => (none, host)
  | some (info, host) => do
    let host ← readHost host
    if !isUserinfo info then .error .badUser
    else if info.contains (octet ':') then
      let (name, password) := cut ':' info
      let name ← unescape .user name
      let password ← unescape .user password
      pure (some ⟨name, some password⟩, host)
    else
      let name ← unescape .user info
      pure (some ⟨name, none⟩, host)

/-- Reads an address without a fragment; `isTarget` says that it is the target of a request. -/
def readBody (isTarget : Bool) (bs : Bytes) : Except Fault Url :=
  if bs.any fun b => b < 0x20 || b = 0x7f then .error .control
  else if bs = [octet '*'] then .ok { path := bs }
  else do
    let (scheme, rest) ← takeScheme bs
    let scheme := Bytes.ofText (Text.lower scheme.toText)
    let force := rest.getLast? = some (octet '?') ∧ rest.count (octet '?') = 1
    let (rest, query) := if force then (rest.dropLast, []) else cut '?' rest
    let base : Url := { scheme, forceQuery := force, query }
    if rest.head? ≠ some (octet '/') ∧ scheme ≠ [] then pure { base with opaquePart := rest }
    else if rest.head? ≠ some (octet '/') ∧ isTarget then .error .noRoot
    else if rest.head? ≠ some (octet '/') ∧ (cut '/' rest).1.contains (octet ':') then
      .error .colonInSegment
    else
      let slashes := [octet '/', octet '/']
      if slashes.isPrefixOf rest ∧
          (scheme ≠ [] ∨ ¬isTarget ∧ ¬(octet '/' :: slashes).isPrefixOf rest) then
        let authority := (rest.drop 2).takeWhile (· ≠ octet '/')
        let (user, host) ← readAuthority authority
        let (path, rawPath) ← readPart .path (rest.drop (2 + authority.length))
        pure { base with user, host, path, rawPath }
      else
        let (path, rawPath) ← readPart .path rest
        pure { base with
          path, rawPath, omitHost := scheme ≠ [] ∧ rest.head? = some (octet '/') }

/-- Reads an address; a refusal comes with the text it is about. -/
def parse (text : String) : Except (Bytes × Fault) Url :=
  let bs := Bytes.ofText text
  let (body, fragment) := cut '#' bs
  match readBody false body with
  | .error f => .error (body, f)
  | .ok url =>
    match readPart .fragment fragment with
    | .error f => .error (bs, f)
    | .ok (fragment, rawFragment) => .ok { url with fragment, rawFragment }

/-- Reads the target of a request. -/
def parseTarget (text : Bytes) : Except Fault Url :=
  readBody true text

/-- The path as it is written. -/
def escapedPath (u : Url) : Bytes :=
  writePart .path u.path u.rawPath

/-- The wording of a refusal with the text it is about. -/
def refusal (e : Bytes × Fault) : String :=
  "parse " ++ Text.quoteBytes e.1 ++ ": " ++ e.2.message

/-- The authority with its slashes: nothing for an address without one. A password is not shown. -/
def authorityText (u : Url) : Bytes :=
  if u.scheme = [] ∧ u.host = [] ∧ u.user = none then []
  else if u.omitHost ∧ u.host = [] ∧ u.user = none then []
  else
    let slashes :=
      if u.host ≠ [] ∨ u.path ≠ [] ∨ u.user ≠ none then Bytes.ofText "//" else []
    let user := match u.user with
      | none => []
      | some ⟨name, none⟩ => escape .user name ++ [octet '@']
      | some ⟨name, some _⟩ => name ++ Bytes.ofText ":***@"
    slashes ++ user ++ escape .host u.host

/-- The text of an address. -/
def text (u : Url) : String :=
  let scheme := if u.scheme = [] then [] else u.scheme ++ [octet ':']
  let middle :=
    if u.opaquePart ≠ [] then u.opaquePart
    else
      let authority := u.authorityText
      let path := u.escapedPath
      let slash :=
        if path ≠ [] ∧ path.head? ≠ some (octet '/') ∧ u.host ≠ [] then [octet '/'] else []
      let dot :=
        if (scheme ++ authority ++ slash) = [] ∧ (cut '/' path).1.contains (octet ':') then
          Bytes.ofText "./"
        else []
      authority ++ slash ++ dot ++ path
  let query := if u.forceQuery ∨ u.query ≠ [] then octet '?' :: u.query else []
  let fragment :=
    if u.fragment = [] then [] else octet '#' :: writePart .fragment u.fragment u.rawFragment
  Bytes.toText (scheme ++ middle ++ query ++ fragment)

end Url

end EngineHost
