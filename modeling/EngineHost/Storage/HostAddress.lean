import EngineHost.Text.Quoted

/-!
# Numeric addresses of hosts

A host may be given by number: as four decimal fields with points between, or as eight hexadecimal
fields with colons between. Of the eight, one run of zero fields may be left out, the last two may
be written as four decimal ones, and a zone may follow behind a percent sign. `HostAddress.read`
tells the two kinds apart, and says of any other text what is wrong with it and where.
-/

namespace EngineHost.HostAddress

/-- The kinds of addresses: of four octets, or of sixteen. -/
inductive Kind where
  | four
  | sixteen
  deriving DecidableEq, Repr

/-- What is wrong with an address, and the text from where it is. -/
structure Fault where
  why : String
  rest : Bytes := []
  deriving DecidableEq, Repr

/-- The wording of a fault in a text. -/
def Fault.message (f : Fault) (text : Bytes) : String :=
  "ParseAddr(" ++ Text.quoteBytes text ++ "): " ++ f.why ++
    if f.rest = [] then "" else " (at " ++ Text.quoteBytes f.rest ++ ")"

/-- The fault of four decimal fields. So many `fields` are complete, and the one at hand has so many
`digits` that make up `value`. -/
def faultOfFour (fields digits value : Nat) : Bytes → Option Fault
  | [] => if fields < 3 then some ⟨"IPv4 address too short", []⟩ else none
  | b :: r =>
    if b = '.'.toUInt8 then
      if digits = 0 ∨ r = [] then some ⟨"IPv4 field must have at least one digit", b :: r⟩
      else if fields = 3 then some ⟨"IPv4 address too long", []⟩
      else faultOfFour (fields + 1) 0 0 r
    else
      match (Bytes.hexOctet? b).filter (· < 10) with
      | none => some ⟨"unexpected character", b :: r⟩
      | some d =>
        if digits = 1 ∧ value = 0 then some ⟨"IPv4 field has octet with leading zero", []⟩
        else if 255 < value * 10 + d then some ⟨"IPv4 field has value >255", []⟩
        else faultOfFour fields (digits + 1) (value * 10 + d) r

/-- The fault of an address that ends with so many fields to spare. -/
def faultOfEnd (gap : Bool) (room : Nat) : Option Fault :=
  if room = 0 then
    if gap then some ⟨"the :: must expand to at least one field of zeros", []⟩ else none
  else if gap then none
  else some ⟨"address string too short", []⟩

/-- The fault of hexadecimal fields. There is `room` for so many, and `gap` says that a run of them
has been left out. -/
def faultOfFields (gap : Bool) : (room : Nat) → Bytes → Option Fault
  | 0, [] => faultOfEnd gap 0
  | 0, s => some ⟨"trailing garbage after address", s⟩
  | room + 1, s =>
    let digits := s.takeWhile fun b => (Bytes.hexOctet? b).isSome
    if 4 < digits.length then some ⟨"each group must have 4 or less digits", s⟩
    else if digits = [] then
      some ⟨"each colon-separated field must have at least one digit", s⟩
    else
      match s.drop digits.length with
      | [] => faultOfEnd gap room
      | b :: r =>
        if b = '.'.toUInt8 then
          if !gap && room ≠ 1 then
            some ⟨"embedded IPv4 address must replace the final 2 fields of the address", s⟩
          else if room = 0 then
            some ⟨"too many hex fields to fit an embedded IPv4 at the end of the address", s⟩
          else
            match faultOfFour 0 0 0 s with
            | some f => some f
            | none => faultOfEnd gap (room - 1)
        else if b ≠ ':'.toUInt8 then some ⟨"unexpected character, want colon", b :: r⟩
        else
          match r with
          | [] => some ⟨"colon must be followed by more characters", b :: r⟩
          | c :: more =>
            if c ≠ ':'.toUInt8 then faultOfFields gap room (c :: more)
            else if gap then some ⟨"multiple :: in address", c :: more⟩
            else if more = [] then faultOfEnd true room
            else faultOfFields true room more

/-- The fault of an address of sixteen octets without its zone. -/
def faultOfSixteen (s : Bytes) : Option Fault :=
  match s with
  | [_, _] => if s = Bytes.ofText "::" then none else faultOfFields false 8 s
  | a :: b :: more =>
    if [a, b] = Bytes.ofText "::" then faultOfFields true 8 more else faultOfFields false 8 s
  | _ => faultOfFields false 8 s

/-- Reads an address: the first mark in it shows its kind. -/
def read (s : Bytes) : Except Fault Kind :=
  let give (kind : Kind) : Option Fault → Except Fault Kind
    | none => .ok kind
    | some f => .error f
  match s.find? fun b => b = '.'.toUInt8 || b = ':'.toUInt8 || b = '%'.toUInt8 with
  | none => .error ⟨"unable to parse IP", []⟩
  | some mark =>
    if mark = '.'.toUInt8 then give .four (faultOfFour 0 0 0 s)
    else if mark = '%'.toUInt8 then .error ⟨"missing IPv6 address", []⟩
    else
      let number := s.takeWhile (· ≠ '%'.toUInt8)
      if s.length = number.length + 1 then .error ⟨"zone must be a non-empty string", []⟩
      else give .sixteen (faultOfSixteen number)

end EngineHost.HostAddress
