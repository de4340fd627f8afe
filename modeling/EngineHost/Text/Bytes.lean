/-!
# Byte strings and their text

Payloads, files and wire labels are plain lists of octets. Text enters them in its UTF-8 form
(`Bytes.ofText`) and leaves them through `Bytes.runes`, which reads one character at a time and
keeps every octet that starts no valid character as a stray octet of its own. Nothing is lost by
that reading: a caller that needs text replaces strays by U+FFFD (`Bytes.toText`), one that needs to
show them exactly still has them.
-/

namespace EngineHost

/-- A byte string. -/
abbrev Bytes := List UInt8

/-- What one step of reading UTF-8 finds: a character, or an octet that starts none. -/
inductive Rune where
  | char (c : Char)
  | stray (b : UInt8)
  deriving DecidableEq, Repr, Inhabited

namespace Bytes

/-- The UTF-8 form of a text. -/
def ofText (s : String) : Bytes :=
  s.toList.flatMap String.utf8EncodeChar

/-- A continuation octet carries the tag bits `10`. -/
def isTail (b : UInt8) : Bool :=
  0x80 ≤ b && b ≤ 0xBF

/-- The range of octets that may follow a lead octet: narrower than the tail range exactly where a
shorter form, a surrogate or a value above U+10FFFF would be written. -/
def followsLead (lead b : UInt8) : Bool :=
  let low : UInt8 := if lead == 0xE0 then 0xA0 else if lead == 0xF0 then 0x90 else 0x80
  let high : UInt8 := if lead == 0xED then 0x9F else if lead == 0xF4 then 0x8F else 0xBF
  low ≤ b && b ≤ high

/-- The six payload bits of a tail octet. -/
def tailBits (b : UInt8) : Nat :=
  b.toNat % 64

/-- The character that starts with octet `a` and goes on in `r`, with the number of octets it takes
from `r`: nothing where the tail is missing or out of range. -/
def charAt? (a : UInt8) (r : Bytes) : Option (Char × Nat) :=
  if a < 0x80 then some (Char.ofNat a.toNat, 0)
  else if a < 0xC2 then none
  else if a < 0xE0 then
    match r with
    | b :: _ =>
      if isTail b then some (Char.ofNat (a.toNat % 32 * 64 + tailBits b), 1) else none
    | _ => none
  else if a < 0xF0 then
    match r with
    | b :: c :: _ =>
      if followsLead a b && isTail c then
        some (Char.ofNat ((a.toNat % 16 * 64 + tailBits b) * 64 + tailBits c), 2)
      else none
    | _ => none
  else if a ≤ 0xF4 then
    match r with
    | b :: c :: d :: _ =>
      if followsLead a b && isTail c && isTail d then
        some (Char.ofNat
          (((a.toNat % 8 * 64 + tailBits b) * 64 + tailBits c) * 64 + tailBits d), 3)
      else none
    | _ => none
  else none

/-- Reads on behind `skip` octets that belong to the character before. -/
def runesAfter : (skip : Nat) → Bytes → List Rune
  | _, [] => []
  | skip + 1, _ :: r => runesAfter skip r
  | 0, a :: r =>
    match charAt? a r with
    | some (c, tail) => .char c :: runesAfter tail r
    | none => .stray a :: runesAfter 0 r

/-- Reads a byte string as UTF-8, character by character. A lead octet whose tail is missing or out
of range is a stray, and reading goes on right behind it. -/
def runes (bs : Bytes) : List Rune :=
  runesAfter 0 bs

/-- The replacement character stands for a stray octet. -/
def replacement : Char := Char.ofNat 0xFFFD

/-- The character that a rune shows. -/
def shown : Rune → Char
  | .char c => c
  | .stray _ => replacement

/-- The characters of a byte string, strays replaced. -/
def toChars (bs : Bytes) : List Char :=
  bs.runes.map shown

/-- The text of a byte string, strays replaced. -/
def toText (bs : Bytes) : String :=
  String.ofList bs.toChars

/-- Does a byte string hold valid UTF-8 throughout? -/
def isText (bs : Bytes) : Bool :=
  bs.runes.all fun
    | .char _ => true
    | .stray _ => false

/-! ### Little-endian words -/

/-- The `width` low octets of a natural number, least significant first. -/
def littleEndian : (width : Nat) → Nat → Bytes
  | 0, _ => []
  | width + 1, n => UInt8.ofNat n :: littleEndian width (n / 256)

/-- The number that octets spell, least significant first. -/
def ofLittleEndian : Bytes → Nat
  | [] => 0
  | b :: r => b.toNat + 256 * ofLittleEndian r

/-! ### Hexadecimal -/

/-- The lower-case hexadecimal digit of a number below sixteen. -/
def hexDigit (n : Nat) : Char :=
  if n < 10 then Char.ofNat (48 + n) else Char.ofNat (87 + n)

/-- The last `width` hexadecimal digits of a number, most significant first. -/
def hexDigits : (width : Nat) → Nat → List Char
  | 0, _ => []
  | width + 1, n => hexDigits width (n / 16) ++ [hexDigit (n % 16)]

/-- Two lower-case hexadecimal digits an octet. -/
def toHex (bs : Bytes) : String :=
  String.ofList (bs.flatMap fun b => hexDigits 2 b.toNat)

/-- The value of a hexadecimal digit of either case. -/
def hexValue? (c : Char) : Option Nat :=
  if '0' ≤ c ∧ c ≤ '9' then some (c.toNat - 48)
  else if 'a' ≤ c ∧ c ≤ 'f' then some (c.toNat - 87)
  else if 'A' ≤ c ∧ c ≤ 'F' then some (c.toNat - 55)
  else none

/-- The value of an octet that is a hexadecimal digit. -/
def hexOctet? (b : UInt8) : Option Nat :=
  hexValue? (Char.ofNat b.toNat)

/-- Reads pairs of hexadecimal digits. -/
def ofHexChars? : List Char → Option Bytes
  | [] => some []
  | [_] => none
  | h :: l :: r => do
    let high ← hexValue? h
    let low ← hexValue? l
    let rest ← ofHexChars? r
    pure (UInt8.ofNat (high * 16 + low) :: rest)

/-- Reads a hexadecimal text. -/
def ofHex? (s : String) : Option Bytes :=
  ofHexChars? s.toList

end Bytes

end EngineHost
