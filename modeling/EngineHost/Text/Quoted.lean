import EngineHost.Text.Bytes
import EngineHost.Text.Printable

/-!
# Quoted text

A quoted text stands in double quotes and holds printable characters only. The quote and the
backslash are escaped by a backslash, seven control characters by a letter, all other controls of
ASCII and every octet that is no part of valid UTF-8 by two hexadecimal digits, and all other
characters by four hexadecimal digits or eight.
-/

namespace EngineHost.Text

/-- The letter that stands for a control character behind a backslash. -/
def controlLetter? (c : Char) : Option Char :=
  match c.toNat with
  | 7 => some 'a'
  | 8 => some 'b'
  | 9 => some 't'
  | 10 => some 'n'
  | 11 => some 'v'
  | 12 => some 'f'
  | 13 => some 'r'
  | _ => none

/-- One character inside quotes. -/
def quoteChar (c : Char) : List Char :=
  if c = '"' || c = '\\' then ['\\', c]
  else if isPrintable c then [c]
  else
    match controlLetter? c with
    | some l => ['\\', l]
    | none =>
      let n := c.toNat
      if n < 0x80 then '\\' :: 'x' :: Bytes.hexDigits 2 n
      else if n < 0x10000 then '\\' :: 'u' :: Bytes.hexDigits 4 n
      else '\\' :: 'U' :: Bytes.hexDigits 8 n

/-- One rune inside quotes. -/
def quoteRune : Rune → List Char
  | .char c => quoteChar c
  | .stray b => '\\' :: 'x' :: Bytes.hexDigits 2 b.toNat

/-- A text in quotes. -/
def quote (s : String) : String :=
  String.ofList ('"' :: s.toList.flatMap quoteChar ++ ['"'])

/-- A byte string in quotes. -/
def quoteBytes (bs : Bytes) : String :=
  String.ofList ('"' :: bs.runes.flatMap quoteRune ++ ['"'])

end EngineHost.Text
