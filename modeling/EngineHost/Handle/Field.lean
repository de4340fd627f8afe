import EngineHost.Json.Decode
import EngineHost.Json.Writer
import EngineHost.Number.Layout
import EngineHost.Text.Base64

/-!
# Field values

The value of an exported field is whatever an export format made of it: a text, a number of some
width, bytes, a list, a table. `FieldValue` is that dynamic value, with the name of its type and its
printed form as messages show them.
-/

namespace EngineHost

/-- The integer types a field value can have. -/
inductive IntType where
  | int
  | int8
  | int16
  | int32
  | int64
  | uint
  | uint8
  | uint16
  | uint32
  | uint64
  deriving DecidableEq, Repr

/-- The name of an integer type. -/
def IntType.name : IntType → String
  | .int => "int"
  | .int8 => "int8"
  | .int16 => "int16"
  | .int32 => "int32"
  | .int64 => "int64"
  | .uint => "uint"
  | .uint8 => "uint8"
  | .uint16 => "uint16"
  | .uint32 => "uint32"
  | .uint64 => "uint64"

/-- The value of an exported field. A table is ordered by its keys. -/
inductive FieldValue where
  | null
  | bool (b : Bool)
  | float64 (x : Double)
  | float32 (x : Single)
  | int (type : IntType) (n : Int)
  | number (spelling : String)
  | string (s : String)
  | bytes (bs : Bytes)
  | strings (ss : List String)
  | list (items : List FieldValue)
  | table (entries : List (String × FieldValue))
  deriving Inhabited

/-- A field: a name, which may be empty, and a value. -/
structure Field where
  name : String := ""
  value : FieldValue := .null
  deriving Inhabited

namespace FieldValue

/-- The name of a value's type. -/
def typeName : FieldValue → String
  | .null => "<nil>"
  | .bool _ => "bool"
  | .float64 _ => "float64"
  | .float32 _ => "float32"
  | .int type _ => type.name
  | .number _ => "json.Number"
  | .string _ => "string"
  | .bytes _ => "[]uint8"
  | .strings _ => "[]string"
  | .list _ => "[]interface \x7b\x7d"
  | .table _ => "map[string]interface \x7b\x7d"

mutual

/-- The printed form. -/
def text : FieldValue → String
  | .null => "<nil>"
  | .bool b => Text.ofBool b
  | .float64 x => x.text .general
  | .float32 x => x.text .general
  | .int _ n => toString n
  | .number spelling => spelling
  | .string s => s
  | .bytes bs => Text.bracketed (bs.map fun b => toString b.toNat)
  | .strings ss => Text.bracketed ss
  | .list items => Text.bracketed (texts items)
  | .table entries => "map" ++ Text.bracketed (entryTexts entries)

/-- The printed forms of list items. -/
def texts : List FieldValue → List String
  | [] => []
  | v :: more => v.text :: texts more

/-- The printed forms of table entries. -/
def entryTexts : List (String × FieldValue) → List String
  | [] => []
  | (k, v) :: more => (k ++ ":" ++ v.text) :: entryTexts more

end

/-- Puts an entry into a table that is ordered by key, in the place of an equal key. -/
def insertEntry (k : String) (v : FieldValue) :
    List (String × FieldValue) → List (String × FieldValue)
  | [] => [(k, v)]
  | (k', v') :: more =>
    if k = k' then (k, v) :: more
    else if k < k' then (k, v) :: (k', v') :: more
    else (k', v') :: insertEntry k v more

mutual

/-- A JSON value as a field value. `keep` says whether numbers keep their spelling or become numbers
of sixty-four bits, which fails out of range. -/
def ofJson? (keep : Bool) : Json → Option FieldValue
  | .null => some .null
  | .bool b => some (.bool b)
  | .number spelling =>
    if keep then some (.number spelling) else (Double.read spelling).toOption.map .float64
  | .string s => some (.string s)
  | .array items => (ofJsons? keep items).map .list
  | .object members => (ofMembers? keep members []).map .table

/-- JSON values as field values. -/
def ofJsons? (keep : Bool) : List Json → Option (List FieldValue)
  | [] => some []
  | v :: more => do
    let a ← ofJson? keep v
    let rest ← ofJsons? keep more
    pure (a :: rest)

/-- JSON members as table entries; of equal names the last counts. -/
def ofMembers? (keep : Bool) : List (String × Json) → List (String × FieldValue) →
    Option (List (String × FieldValue))
  | [], acc => some acc
  | (k, v) :: more, acc => do
    let a ← ofJson? keep v
    ofMembers? keep more (insertEntry k a acc)

end

mutual

/-- A field value in JSON. Bytes are written in base64; a number that is not finite has no form. -/
def toJson? : FieldValue → Option Json
  | .null => some .null
  | .bool b => some (.bool b)
  | .float64 x => Json.ofDouble? x
  | .float32 x => Json.ofSingle? x
  | .int _ n => some (.int n)
  | .number spelling => some (.number spelling)
  | .string s => some (.string s)
  | .bytes bs => some (.string (Base64.encode bs))
  | .strings ss => some (.strings ss)
  | .list items => (toJsons? items).map .array
  | .table entries => (toMembers? entries).map .object

/-- Field values in JSON. -/
def toJsons? : List FieldValue → Option (List Json)
  | [] => some []
  | v :: more => do
    let a ← toJson? v
    let rest ← toJsons? more
    pure (a :: rest)

/-- Table entries in JSON. -/
def toMembers? : List (String × FieldValue) → Option (List (String × Json))
  | [] => some []
  | (k, v) :: more => do
    let a ← toJson? v
    let rest ← toMembers? more
    pure ((k, a) :: rest)

end

/-- The single item of a list of one. -/
def unwrapSingle : FieldValue → FieldValue
  | .list [v] => v
  | .strings [s] => .string s
  | v => v

end FieldValue

namespace Field

open Json.Reader in
/-- Reads a field; a value takes the place of an earlier one. -/
def read (keep : Bool) : Json.Reader Field := record fun m => do
  let values ← m.get "value" (List.mapM (FieldValue.ofJson? keep))
  pure { name := ← m.get "name" text, value := values.getLastD .null }

/-- Reads a list of fields; null is the empty list. -/
def readList (keep : Bool) : Json.Reader (List Field) :=
  Json.Reader.list (read keep)

/-- A field in JSON. -/
def toJson? (f : Field) : Option Json :=
  f.value.toJson?.map fun v => .object [("name", .string f.name), ("value", v)]

/-- Fields for reading. An engine given as text in the fourth place is shown by its length only. -/
def listText (fields : List Field) : String :=
  Text.join ", " (fields.zipIdx.map fun (f, i) =>
    match i, f.value with
    | 3, .string s => f.name ++ "=<" ++ toString s.utf8ByteSize ++ " base64 chars>"
    | _, v => f.name ++ "=" ++ v.text)

end Field

end EngineHost
