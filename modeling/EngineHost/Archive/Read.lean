import EngineHost.Archive.Basic
import EngineHost.Failure
import EngineHost.Json.Decode

/-!
# Reading archives

The data starts with the length of the header in eight octets, then the header, a JSON table from
names to entries; positions in entries count from the end of the header. Nothing in the data is
trusted: types, positions, shapes and sizes are checked before an entry is taken.
-/

namespace EngineHost

namespace Archive

/-- The longest header. -/
def maxHeader : Nat := 100 * Nat.pow 2 20

/-- An entry as the header gives it. -/
structure HeaderEntry where
  dtype : String := ""
  shape : List Int64 := []
  offsets : Int64 × Int64 := (0, 0)
  deriving DecidableEq, Repr

open Json.Reader in
/-- Reads an entry of the header. -/
def readEntry : Json.Reader HeaderEntry := record fun m => do
  pure {
    dtype := ← m.get "dtype" text
    shape := ← m.get "shape" (list int64)
    offsets := ← m.get "data_offsets" (pair int64) }

/-- The largest number of elements of a stored tensor. -/
def maxCount : Nat := Nat.pow 2 31 - 1

/-- The number of elements, if it is not too large. -/
def elementCount? (shape : Shape) : Option Nat :=
  (Shape.countFrom shape maxCount 0 1 shape).toOption

/-- Checks an entry that was read; `base` is where the data starts. -/
def checkEntry (size base : Nat) (name : String) (e : HeaderEntry) :
    Except ArchiveError ArchiveEntry :=
  match ArchiveType.ofName? e.dtype with
  | none => .error (.unsupported name e.dtype)
  | some type =>
    if e.offsets.1 < 0 ∨ e.offsets.2 < e.offsets.1 then
      .error (.badOffsets name e.offsets.1 e.offsets.2)
    else if e.shape.any (· < 0) then .error (.negativeDim name e.shape)
    else
      let start := Int64.ofNat base + e.offsets.1
      let stop := Int64.ofNat base + e.offsets.2
      if Int64.ofNat size < stop then .error (.beyondEnd name start stop size)
      else
        match elementCount? e.shape with
        | none => .error (.overflow name e.shape)
        | some n =>
          let want := Int64.ofNat (n * type.width)
          if stop - start ≠ want then .error (.wrongSize name want (stop - start))
          else .ok ⟨type, e.shape, start, stop⟩

/-- Takes one member of the header. -/
def takeMember (size base : Nat) (a : Archive) (name : String) (v : Json) :
    Except ArchiveError Archive :=
  if name = metadataName then
    match Json.Reader.table Json.Reader.text [v] with
    | some metadata => .ok { a with metadata }
    | none => .error .badMetadata
  else
    match readEntry [v] with
    | none => .error (.badEntry name)
    | some e => (checkEntry size base name e).map fun e =>
      { a with entries := a.entries ++ [(name, e)] }

/-- The members of a header in the order of their names; of two with one name the later counts. -/
def headerMembers (v : Json) : Option (List (String × Json)) :=
  (Json.Reader.table List.getLast? [v]).map fun members =>
    members.mergeSort fun x y => decide (x.1 ≤ y.1)

/-- Reads an archive. -/
def decode (data : Bytes) : Except ArchiveError Archive :=
  if data.length < 8 then .error (.tooShort data.length)
  else
    let length := Bytes.ofLittleEndian (data.take 8)
    if maxHeader < length ∨ data.length < 8 + length then
      .error (.headerLength length data.length)
    else
      let header := (data.drop 8).take length
      match (Json.readWhole? (Json.chars header)).bind headerMembers with
      | none => .error .badHeader
      | some members => do
        let a ← members.foldlM (fun a (name, v) => takeMember data.length (8 + length) a name v)
          (⟨data, [], []⟩ : Archive)
        if a.entries.isEmpty then .error .nothingFound else pure a

/-- Groups of octets. -/
def groups (width : Nat) : (count : Nat) → Bytes → List Bytes
  | 0, _ => []
  | n + 1, bs => bs.take width :: groups width n (bs.drop width)

/-- The elements in octets. -/
def elements (type : ArchiveType) (raw : Bytes) : Elements :=
  let words := (groups type.width (raw.length / type.width) raw).map Bytes.ofLittleEndian
  match type with
  | .f32 => .float32 (words.map fun w => Single.mk (UInt32.ofNat w)).toArray
  | .f16 => .float16 (words.map fun w => Half.mk (UInt16.ofNat w)).toArray
  | .bf16 => .float32 (words.map fun w => Single.mk (UInt32.ofNat (w * Nat.pow 2 16))).toArray
  | .i32 => .int32 (words.map fun w => (UInt32.ofNat w).toInt32).toArray
  | .i64 => .int64 (words.map fun w => (UInt64.ofNat w).toInt64).toArray

/-- The octets between two positions, unless they lie outside. -/
def slice? (data : Bytes) (start stop : Int64) : Option Bytes :=
  if 0 ≤ start ∧ start ≤ stop ∧ stop.toNatClampNeg ≤ data.length then
    some ((data.drop start.toNatClampNeg).take (stop - start).toNatClampNeg)
  else none

/-- A tensor of an archive; none at all where its octets lie outside the data. -/
def tensor? (a : Archive) (name : String) : Option (Except ArchiveError Tensor) :=
  match a.entries.lookup name with
  | none => some (.error (.notFound name a.names))
  | some e =>
    (slice? a.data e.start e.stop).map fun raw =>
      (Tensor.make .cpu (elements e.type raw) e.shape).mapError (.undecodable name)

/-- A tensor of an archive. -/
def tensor (a : Archive) (name : String) : Except Failure Tensor :=
  match a.tensor? name with
  | none => .error .crash
  | some result => result.mapError fun e => .plain e.message

/-- All tensors of an archive, by name. -/
def tensors (a : Archive) : Except Failure (List (String × Tensor)) :=
  a.names.mapM fun name => (a.tensor name).map fun t => (name, t)

end Archive

end EngineHost
