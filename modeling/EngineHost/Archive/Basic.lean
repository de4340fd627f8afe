import EngineHost.Tensor.Basic

/-!
# Archives of tensors

An archive holds named tensors and a table of texts. Each tensor has an entry: the type of its
elements, its shape, and where its octets are in the data. Elements of the half-width type that
keeps the exponent of single precision are read as single precision.
-/

namespace EngineHost

/-- The element types of archives. -/
inductive ArchiveType where
  | f32
  | f16
  | bf16
  | i32
  | i64
  deriving DecidableEq, Repr

namespace ArchiveType

/-- Every element type. -/
def all : List ArchiveType := [.f32, .f16, .bf16, .i32, .i64]

/-- The name of an element type. -/
def name : ArchiveType → String
  | .f32 => "F32"
  | .f16 => "F16"
  | .bf16 => "BF16"
  | .i32 => "I32"
  | .i64 => "I64"

/-- The octets of an element. -/
def width : ArchiveType → Nat
  | .f32 => 4
  | .f16 => 2
  | .bf16 => 2
  | .i32 => 4
  | .i64 => 8

/-- The element type of a name, in any case. -/
def ofName? (name : String) : Option ArchiveType :=
  all.find? (·.name = Text.asciiUpper name)

/-- How elements of a kind are stored. -/
def ofKind : ElementKind → ArchiveType
  | .float32 => .f32
  | .float16 => .f16
  | .int32 => .i32
  | .int64 => .i64

end ArchiveType

/-- Where a tensor is in an archive; positions are counted in sixty-four bits. -/
structure ArchiveEntry where
  type : ArchiveType
  shape : Shape
  start : Int64
  stop : Int64
  deriving DecidableEq, Repr

/-- An archive. -/
structure Archive where
  data : Bytes
  entries : List (String × ArchiveEntry)
  metadata : List (String × String)
  deriving DecidableEq, Repr

/-- Why an archive cannot be read or written. -/
inductive ArchiveError where
  | tooShort (size : Nat)
  | headerLength (length size : Nat)
  | badHeader
  | badMetadata
  | badEntry (name : String)
  | unsupported (name dtype : String)
  | badOffsets (name : String) (start stop : Int64)
  | negativeDim (name : String) (shape : Shape)
  | beyondEnd (name : String) (start stop : Int64) (size : Nat)
  | overflow (name : String) (shape : Shape)
  | wrongSize (name : String) (want got : Int64)
  | nothingFound
  | nothingGiven
  | badName (name : String)
  | noTensor (name : String)
  | notFound (name : String) (available : List String)
  | undecodable (name : String) (cause : TensorError)
  | unreadable (cause : String)
  | unwritable (cause : String)
  deriving DecidableEq, Repr

namespace ArchiveError

/-- At most eight names for reading. -/
def someNames (names : List String) : String :=
  if names.isEmpty then "none"
  else if names.length ≤ 8 then Text.join ", " names
  else Text.join ", " (names.take 8) ++ ", ..."

/-- The wording of an error. -/
def message (e : ArchiveError) : String :=
  "safetensors: " ++
    match e with
    | .tooShort size => "file too short (" ++ toString size ++ " bytes)"
    | .headerLength length size =>
      "header length " ++ toString length ++ " exceeds file size " ++ toString size
    | .badHeader => "parse header: not a table"
    | .badMetadata => "decode metadata: not a table of texts"
    | .badEntry name => "decode header entry " ++ Text.quote name ++ ": not an entry"
    | .unsupported name dtype =>
      "tensor " ++ Text.quote name ++ " has unsupported dtype " ++ Text.quote dtype
    | .badOffsets name start stop =>
      "tensor " ++ Text.quote name ++ " has invalid data offsets " ++
        Text.bracketed [Text.ofInt64 start, Text.ofInt64 stop]
    | .negativeDim name shape =>
      "tensor " ++ Text.quote name ++ " has negative shape dimension in " ++ shape.listText
    | .beyondEnd name start stop size =>
      "tensor " ++ Text.quote name ++ " data [" ++ Text.ofInt64 start ++ ":" ++
        Text.ofInt64 stop ++ "] exceeds file size " ++ toString size
    | .overflow name shape =>
      "tensor " ++ Text.quote name ++ ": shape " ++ shape.listText ++ " overflows element count"
    | .wrongSize name want got =>
      "tensor " ++ Text.quote name ++ " needs " ++ Text.ofInt64 want ++ " bytes but data has " ++
        Text.ofInt64 got
    | .nothingFound => "no tensors found"
    | .nothingGiven => "no tensors to encode"
    | .badName name => "invalid tensor name " ++ Text.quote name
    | .noTensor name => "tensor " ++ Text.quote name ++ " is nil"
    | .notFound name available =>
      "tensor " ++ Text.quote name ++ " not found (available: " ++ someNames available ++ ")"
    | .undecodable name cause => "tensor " ++ Text.quote name ++ " decode: " ++ cause.message
    | .unreadable cause => "read: " ++ cause
    | .unwritable cause => "write: " ++ cause

end ArchiveError

namespace Archive

/-- The name under which the table of texts is kept. -/
def metadataName : String := "__metadata__"

/-- The names of the tensors, in order. -/
def names (a : Archive) : List String :=
  a.entries.map (·.1)

end Archive

end EngineHost
