import EngineHost.Text.Bytes

/-!
# Base64

The standard alphabet with padding. Reading skips line ends anywhere, wants the padding that a short
last group needs and nothing behind it, and does not look at the unused bits of the last group. A
refusal names the offset of the octet at which it was noticed.
-/

namespace EngineHost.Base64

/-- The character of a six-bit number. -/
def symbol (n : Nat) : Char :=
  if n < 26 then Char.ofNat (65 + n)
  else if n < 52 then Char.ofNat (71 + n)
  else if n < 62 then Char.ofNat (n - 4)
  else if n = 62 then '+'
  else '/'

/-- The six-bit number of an octet of the alphabet. -/
def value? (b : UInt8) : Option Nat :=
  let n := b.toNat
  if 65 ≤ n ∧ n ≤ 90 then some (n - 65)
  else if 97 ≤ n ∧ n ≤ 122 then some (n - 71)
  else if 48 ≤ n ∧ n ≤ 57 then some (n + 4)
  else if n = 43 then some 62
  else if n = 47 then some 63
  else none

/-- Four characters for every three octets. -/
def encodeChars : Bytes → List Char
  | [] => []
  | [a] =>
    let n := a.toNat * 65536
    [symbol (n / 262144), symbol (n / 4096 % 64), '=', '=']
  | [a, b] =>
    let n := a.toNat * 65536 + b.toNat * 256
    [symbol (n / 262144), symbol (n / 4096 % 64), symbol (n / 64 % 64), '=']
  | a :: b :: c :: r =>
    let n := a.toNat * 65536 + b.toNat * 256 + c.toNat
    symbol (n / 262144) :: symbol (n / 4096 % 64) :: symbol (n / 64 % 64) :: symbol (n % 64) ::
      encodeChars r

/-- The written form of a byte string. -/
def encode (bs : Bytes) : String :=
  String.ofList (encodeChars bs)

/-- The offset at which a text was found not to be base64. -/
structure Corrupt where
  offset : Nat
  deriving DecidableEq, Repr

/-- The wording of a refusal. -/
def Corrupt.message (e : Corrupt) : String :=
  "illegal base64 data at input byte " ++ toString e.offset

/-- A line feed or a carriage return. -/
def isLineEnd (b : UInt8) : Bool :=
  b == 10 || b == 13

/-- What may follow the last padding character: line ends only. -/
def finish (pos : Nat) : Bytes → Except Corrupt Unit
  | [] => .ok ()
  | b :: r => if isLineEnd b then finish (pos + 1) r else .error ⟨pos⟩

/-- What must follow the first of two padding characters: line ends, then the second one. -/
def secondPad (pos : Nat) : Bytes → Except Corrupt Unit
  | [] => .error ⟨pos⟩
  | b :: r =>
    if isLineEnd b then secondPad (pos + 1) r
    else if b == 61 then finish (pos + 1) r
    else .error ⟨pos - 1⟩

/-- Reads on at offset `pos` with the numbers already read of an open group, latest first. -/
def decodeFrom (pos : Nat) : (pending : List Nat) → Bytes → Except Corrupt Bytes
  | [], [] => .ok []
  | pending, [] => .error ⟨pos - pending.length⟩
  | pending, b :: r =>
    match value? b with
    | some v =>
      match pending with
      | [z, y, x] => do
        let n := ((x * 64 + y) * 64 + z) * 64 + v
        let rest ← decodeFrom (pos + 1) [] r
        pure (UInt8.ofNat (n / 65536) :: UInt8.ofNat (n / 256) :: UInt8.ofNat n :: rest)
      | _ => decodeFrom (pos + 1) (v :: pending) r
    | none =>
      if isLineEnd b then decodeFrom (pos + 1) pending r
      else if b != 61 then .error ⟨pos⟩
      else
        match pending with
        | [y, x] => do
          secondPad (pos + 1) r
          pure [UInt8.ofNat ((x * 64 + y) / 16)]
        | [z, y, x] => do
          finish (pos + 1) r
          let n := (x * 64 + y) * 64 + z
          pure [UInt8.ofNat (n / 1024), UInt8.ofNat (n / 4)]
        | _ => .error ⟨pos⟩

/-- Reads a base64 text. -/
def decode (s : String) : Except Corrupt Bytes :=
  decodeFrom 0 [] (Bytes.ofText s)

end EngineHost.Base64
