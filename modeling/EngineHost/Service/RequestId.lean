import EngineHost.Text.Bytes

/-!
# Request ids

A request may bring an id of its own if that is a universal identifier: five groups of hexadecimal
digits with dashes, as such, behind `urn:uuid:`, or with one octet before and one behind; or
thirty-two digits in a row.
-/

namespace EngineHost

namespace RequestId

/-- Is an octet a hexadecimal digit? -/
def isHex (b : UInt8) : Bool :=
  (Bytes.hexOctet? b).isSome

/-- Where the dashes are. -/
def dashes : List Nat := [8, 13, 18, 23]

/-- Do octets start with five groups of digits? -/
def startsGrouped (bs : Bytes) : Bool :=
  36 ≤ bs.length &&
    (bs.take 36).zipIdx.all fun (b, i) => if dashes.contains i then b = 45 else isHex b

/-- What may stand in front, in any case. -/
def urn : Bytes := Bytes.ofText "urn:uuid:"

/-- An ASCII letter in lower case. -/
def lowerByte (b : UInt8) : UInt8 :=
  if 65 ≤ b && b ≤ 90 then b + 32 else b

/-- Is a text an id? -/
def isValid (id : String) : Bool :=
  let bs := Bytes.ofText id
  match bs.length with
  | 36 => startsGrouped bs
  | 45 => (bs.take 9).map lowerByte = urn && startsGrouped (bs.drop 9)
  | 38 => startsGrouped (bs.drop 1)
  | 32 => bs.all isHex
  | _ => false

/-- The id of a request: its own if that is one, a fresh one otherwise. -/
def choose (fresh given : String) : String :=
  if isValid given then given else fresh

end RequestId

end EngineHost
