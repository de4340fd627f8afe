import EngineHost.Json.Reader
import EngineHost.Number.Based
import EngineHost.Number.Layout
import EngineHost.Number.Span
import EngineHost.Text.Letters

/-!
# Values of settings

A setting may be written as any kind of value and is converted to the kind it has to be: texts are
read as numbers, truth values or spans, numbers count as truth values where they are not zero, and
truth values as one or zero.
-/

namespace EngineHost

/-- A value in a settings file, in a variable or behind a flag. -/
inductive SettingValue where
  | null
  | flag (b : Bool)
  | int (n : Int)
  | number (x : Double)
  | date
  | text (s : String)
  | list (items : List SettingValue)
  | table (entries : List (String × SettingValue))
  deriving Inhabited

namespace SettingValue

/-- Why a value cannot be converted. -/
inductive Problem where
  | wrongKind (wanted : String)
  | unreadable (why : String)
  deriving DecidableEq, Repr

/-- The wording of a problem. -/
def Problem.message : Problem → String
  | .wrongKind wanted => "expected " ++ wanted
  | .unreadable why => why

/-! ### Conversions -/

/-- The truth value that one of the usual spellings means. -/
def readFlag? (s : String) : Option Bool :=
  if s ∈ ["1", "t", "T", "TRUE", "true", "True"] then some true
  else if s ∈ ["0", "f", "F", "FALSE", "false", "False"] then some false
  else none

/-- A number positionally, with as many digits as it takes to read it back. -/
def positional (x : Double) : String :=
  x.text ⟨-400, 400, 1⟩

/-- As a text. -/
def toText : SettingValue → Except Problem String
  | .text s => .ok s
  | .flag b => .ok (if b then "1" else "0")
  | .int n => .ok (toString n)
  | .number x => .ok (positional x)
  | _ => .error (.wrongKind "a text")

/-- As an integer. -/
def toInt64 : SettingValue → Except Problem Int64
  | .int n => .ok (Int64.ofInt n)
  | .number x => .ok x.toInt64
  | .flag b => .ok (if b then 1 else 0)
  | .text s => (Based.readInt64 (if s = "" then "0" else s)).mapError fun e => .unreadable e.message
  | _ => .error (.wrongKind "an integer")

/-- As a natural number of thirty-two bits; what does not fit wraps around, but a text has to
fit. -/
def toUInt32 : SettingValue → Except Problem UInt32
  | .text s =>
    (Based.readUInt32 (if s = "" then "0" else s)).mapError fun e => .unreadable e.message
  | v => v.toInt64.map fun n => n.toUInt64.toUInt32

/-- As a truth value. -/
def toFlag : SettingValue → Except Problem Bool
  | .flag b => .ok b
  | .int n => .ok (n ≠ 0)
  | .number x => .ok (Format.double.magnitude x.bits.toNat ≠ 0)
  | .text s =>
    if s = "" then .ok false
    else
      match readFlag? s with
      | some b => .ok b
      | none => .error (.unreadable "not a truth value")
  | _ => .error (.wrongKind "a truth value")

/-- As a span; a number counts nanoseconds. -/
def toSpan : SettingValue → Except Problem Span
  | .text s => (Span.read s).mapError fun e => .unreadable e.message
  | v => v.toInt64

/-! ### Tables -/

/-- Sets an entry. -/
def setEntry (name : String) (v : SettingValue) (entries : List (String × SettingValue)) :
    List (String × SettingValue) :=
  if entries.any (·.1 = name) then entries.map fun e => if e.1 = name then (name, v) else e
  else entries ++ [(name, v)]

/-- Entries under their names in lower case. Of names that differ in case only, one that is not in
lower case counts. -/
def withLowerNames (entries : List (String × SettingValue)) : List (String × SettingValue) :=
  let isLower (e : String × SettingValue) : Bool := Text.lower e.1 = e.1
  (entries.filter (!isLower ·)).foldl (fun acc (name, v) => setEntry (Text.lower name) v acc)
    (entries.filter isLower)

mutual

/-- The value that JSON gives. -/
def ofJson? : Json → Option SettingValue
  | .null => some .null
  | .bool b => some (.flag b)
  | .number spelling => ((Double.read spelling).toOption).map .number
  | .string s => some (.text s)
  | .array items => (ofJsons? items).map .list
  | .object members => (ofMembers? members []).map fun entries => .table (withLowerNames entries)

/-- The values of a list. -/
def ofJsons? : List Json → Option (List SettingValue)
  | [] => some []
  | v :: more => do
    let v ← ofJson? v
    let more ← ofJsons? more
    pure (v :: more)

/-- The entries of a table behind `acc`. -/
def ofMembers? : List (String × Json) → List (String × SettingValue) →
    Option (List (String × SettingValue))
  | [], acc => some acc
  | (name, v) :: more, acc => do
    let v ← ofJson? v
    ofMembers? more (setEntry name v acc)

end

end SettingValue

end EngineHost
