import EngineHost.Archive.Basic
import EngineHost.Json.Writer

/-!
# Writing archives

Tensors are laid out one behind the other in the order of their names, so equal tensors make equal
archives. The header is a JSON table in the order of names, with the table of texts among them.
-/

namespace EngineHost

namespace Archive

/-- The octets of elements. -/
def elementBytes : Elements → Bytes
  | .float32 v => v.toList.flatMap fun x => Bytes.littleEndian 4 x.bits.toNat
  | .float16 v => v.toList.flatMap fun x => Bytes.littleEndian 2 x.bits.toNat
  | .int32 v => v.toList.flatMap fun n => Bytes.littleEndian 4 n.toUInt32.toNat
  | .int64 v => v.toList.flatMap fun n => Bytes.littleEndian 8 n.toUInt64.toNat

/-- The entry of a tensor in the header. -/
def entryJson (t : Tensor) (start stop : Nat) : Json :=
  .object [("dtype", .string (ArchiveType.ofKind t.elements.kind).name),
    ("shape", if t.shape.isEmpty then .null else .ints t.shape),
    ("data_offsets", .array [.int start, .int stop])]

/-- Is a text the name of a tensor? -/
def isTensorName (name : String) : Bool :=
  !Text.isBlankText name && name ≠ metadataName

/-- Lays tensors out from a position: their entries and their octets. -/
def layOut (start : Nat) : List (String × Option Tensor) →
    Except ArchiveError (List (String × Json) × Bytes)
  | [] => .ok ([], [])
  | (name, none) :: _ => .error (.noTensor name)
  | (name, some t) :: more => do
    let raw := elementBytes t.elements
    let stop := start + raw.length
    let (entries, rest) ← layOut stop more
    pure ((name, entryJson t start stop) :: entries, raw ++ rest)

/-- The table of texts in JSON, in the order of names. -/
def metadataJson (metadata : List (String × String)) : Json :=
  .sorted (metadata.map fun (k, v) => (k, .string v))

/-- A header in front of data. -/
def withHeader (header : Bytes) (data : Bytes) : Bytes :=
  Bytes.littleEndian 8 header.length ++ header ++ data

/-- Writes tensors and a table of texts. -/
def encode (tensors : List (String × Option Tensor)) (metadata : List (String × String)) :
    Except ArchiveError Bytes :=
  if tensors.isEmpty then .error .nothingGiven
  else
    let sorted := tensors.mergeSort fun x y => decide (x.1 ≤ y.1)
    match sorted.find? fun (name, _) => !isTensorName name with
    | some (name, _) => .error (.badName name)
    | none => do
      let (entries, data) ← layOut 0 sorted
      let table := if metadata.isEmpty then [] else [(metadataName, metadataJson metadata)]
      pure (withHeader (Bytes.ofText (Json.sorted (table ++ entries)).compact) data)

end Archive

end EngineHost
