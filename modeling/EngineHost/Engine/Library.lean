import EngineHost.Failure
import EngineHost.Storage.Path
import EngineHost.Storage.World

/-!
# Finding the ONNX Runtime library

The library is looked for where it was asked for, then where two environment variables point, then
at the usual places. Its version is what the environment says, or the first three numbers with
points between in the name of the file.
-/

namespace EngineHost

/-- A library and its version. -/
structure Library where
  path : String
  version : String
  deriving DecidableEq, Repr

/-- What came of looking for a library. -/
structure LibraryLookup where
  library : Library
  problem : Option Failure
  deriving DecidableEq, Repr

namespace Library

/-- The version where none is known. -/
def unknownVersion : String := "unknown"

/-- The usual places. -/
def candidates : List String := [
  "/usr/lib/libonnxruntime.so",
  "/usr/local/lib/libonnxruntime.so",
  "/usr/lib/x86_64-linux-gnu/libonnxruntime.so",
  "/opt/homebrew/lib/libonnxruntime.dylib",
  "C:/onnxruntime/lib/onnxruntime.dll"]

/-- Digits at the front, and the rest. -/
def digitsOf (cs : List Char) : List Char × List Char :=
  (cs.takeWhile Char.isDigit, cs.dropWhile Char.isDigit)

/-- Three numbers with points between at the front. -/
def versionHere? (cs : List Char) : Option (List Char) :=
  match digitsOf cs with
  | (a@(_ :: _), '.' :: r) =>
    match digitsOf r with
    | (b@(_ :: _), '.' :: r) =>
      match digitsOf r with
      | (c@(_ :: _), _) => some (a ++ '.' :: b ++ '.' :: c)
      | _ => none
    | _ => none
  | _ => none

/-- The first three numbers with points between. -/
def versionIn? : List Char → Option (List Char)
  | [] => none
  | c :: r => (versionHere? (c :: r)).orElse fun _ => versionIn? r

/-- The version in the name of a file. -/
def versionOfPath (path : String) : String :=
  match versionIn? (Path.base path).toList with
  | some v => String.ofList v
  | none => ""

/-- The first text that is not empty. -/
def firstGiven : List String → String
  | [] => ""
  | s :: more => if s = "" then firstGiven more else s

variable [Monad m] (w : World m)

/-- The first of some places that is there. -/
def firstPresent : List String → m String
  | [] => pure ""
  | path :: more => do
    match ← w.stat path with
    | .ok _ => pure path
    | .error _ => firstPresent more

/-- Looks for the library. -/
def detect (explicit : String) : m LibraryLookup := do
  let usual ← firstPresent w candidates
  let path := firstGiven
    [explicit, ← w.env "ENGINEBRIDGE_ORT_LIB", ← w.env "ORT_LIBRARY_PATH", usual]
  if path = "" then
    pure ⟨⟨"not found", unknownVersion⟩,
      some (.plain "unable to detect ONNX Runtime library path")⟩
  else
    match ← w.stat path with
    | .error f =>
      pure ⟨⟨path, unknownVersion⟩, some (.within "onnx runtime library path check failed" f)⟩
    | .ok _ =>
      let version := firstGiven [← w.env "ORT_VERSION", versionOfPath path, unknownVersion]
      pure ⟨⟨path, version⟩, none⟩

end Library

end EngineHost
