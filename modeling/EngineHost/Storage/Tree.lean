import EngineHost.Failure
import EngineHost.Storage.Path

/-!
# A tree of files

`Tree` is a root with the files below it and a working directory among them; directories are where
files are, and the way to the working directory. No path leads to a file with an empty name, so such
a file stands for a directory that may have nothing else in it. Paths are walked part by part, from
the root if they start with a slash and from the working directory if not; above the root is the
root.

Writing a file is done beside it and then moved in place, so that a reader meets the old content or
the new one: a fresh name is created in the same directory, filled, closed, opened up for reading
and moved. `Tree.write` takes these steps with a `WriteFault` that may let any of them fail. Once
the fresh file is there, a step that fails leaves it behind as it is by then, and it is removed in
the end.
-/

namespace EngineHost

/-- Why a path cannot be used. -/
inductive PathFault where
  | missing
  | notDirectory
  | isDirectory
  | present
  | invalid
  | tooLong
  deriving DecidableEq, Repr

/-- The wording of a fault. -/
def PathFault.message : PathFault → String
  | .missing => "no such file or directory"
  | .notDirectory => "not a directory"
  | .isDirectory => "is a directory"
  | .present => "file exists"
  | .invalid => "invalid argument"
  | .tooLong => "file name too long"

/-- A fault met in doing something with a path. -/
def PathFault.toFailure (doing : String) (f : PathFault) : Failure :=
  let text := doing ++ ": " ++ f.message
  if f = .missing then .missing text else .plain text

/-- A place: the names on the way to it from the root. -/
abbrev Place := List String

/-- What is at a place. -/
inductive FileNode where
  | file (content : Bytes)
  | directory
  deriving DecidableEq, Repr

/-- Files by their places, and the working directory. -/
structure Tree where
  files : List (Place × Bytes) := []
  here : Place := []
  deriving DecidableEq, Repr

/-- The steps of a write. -/
inductive WriteStep where
  | create
  | fill
  | close
  | allow
  | move
  deriving DecidableEq, Repr

/-- What a step of a write is called. -/
def WriteStep.text : WriteStep → String
  | .create => "creating temp file"
  | .fill => "writing temp file"
  | .close => "closing temp file"
  | .allow => "chmod temp file"
  | .move => "renaming temp file"

/-- What goes wrong in a write for reasons other than the tree. -/
structure WriteFault where
  /-- Why a step fails, if it does. -/
  failure : WriteStep → Option Failure := fun _ => none
  /-- How much has been written where filling fails. -/
  filled : Nat := 0

/-- A write under way: the fresh file by its place and by its path, the path that it is to be moved
to, and what it is to hold. -/
structure Writing where
  temp : Place
  tempPath : String
  path : String
  data : Bytes

namespace Tree

variable (t : Tree)

/-- What is at a place. The working directory and what is above it are directories. -/
def node? (place : Place) : Option FileNode :=
  if place.isPrefixOf t.here then some .directory
  else
    match t.files.lookup place with
    | some content => some (.file content)
    | none => if t.files.any (fun f => place.isPrefixOf f.1) then some .directory else none

/-- A named entry of a directory. -/
def child (place : Place) (name : String) : Place :=
  place ++ [name]

/-- The directory above. -/
def parent (place : Place) : Place :=
  place.dropLast

/-- The longest name of a file, in octets. -/
def maxName : Nat := 255

/-- The longest path, in octets. -/
def maxPath : Nat := 4095

/-- One part further. -/
def enter (at' : Place) (part : String) : Except PathFault Place :=
  match t.node? at' with
  | none => .error .missing
  | some (.file _) => .error .notDirectory
  | some .directory =>
    if part = "" ∨ part = "." then .ok at'
    else if part = ".." then .ok (parent at')
    else if maxName < part.utf8ByteSize then .error .tooLong
    else
      match t.node? (child at' part) with
      | some _ => .ok (child at' part)
      | none => .error .missing

/-- Where a path starts, and its parts. -/
def begin (path : String) : Except PathFault (Place × List String) :=
  if path = "" then .error .missing
  else if Text.hasChar '\x00' path then .error .invalid
  else if maxPath < path.utf8ByteSize then .error .tooLong
  else .ok (if Path.isRooted path then [] else t.here, Text.split '/' path)

/-- The place of a path. -/
def locate (path : String) : Except PathFault Place := do
  let (start, parts) ← t.begin path
  parts.foldlM t.enter start

/-- What a path leads to. -/
def find (path : String) : Except PathFault FileNode := do
  let place ← t.locate path
  match t.node? place with
  | some n => pure n
  | none => .error .missing

/-- Looks a path up. -/
def stat (path : String) : Except Failure FileNode :=
  (t.find path).mapError (PathFault.toFailure ("stat " ++ path))

/-- Opens a path for reading; a directory opens and then cannot be read. -/
def openFile (path : String) : Except Failure Bytes :=
  match t.find path with
  | .error f => .error (f.toFailure ("open " ++ path))
  | .ok .directory => .error (PathFault.isDirectory.toFailure ("read " ++ path))
  | .ok (.file content) => .ok content

/-- Reads a file. -/
def read (path : String) : Except Failure Bytes :=
  (t.openFile path).mapError (.within ("reading " ++ path))

/-- The content of a place, set. -/
def put (place : Place) (content : Bytes) : Tree :=
  if t.files.any (·.1 = place) then
    { t with files := t.files.map fun f => if f.1 = place then (place, content) else f }
  else { t with files := t.files ++ [(place, content)] }

/-- A place without its file. -/
def remove (place : Place) : Tree :=
  { t with files := t.files.filter (·.1 ≠ place) }

/-- A name that is not in a directory, tried by number. -/
def freshName (place : Place) : (fuel number : Nat) → String
  | 0, n => ".blob-" ++ toString n
  | fuel + 1, n =>
    if (t.node? (child place (".blob-" ++ toString n))).isNone then ".blob-" ++ toString n
    else freshName place fuel (n + 1)

/-- Where an entry of a directory would be put: in place of a file, but not of a directory. -/
def landing (place : Place) (name : String) : Except PathFault Place :=
  match t.enter place name with
  | .ok there => if t.node? there = some .directory then .error .present else .ok there
  | .error .missing => .ok (child place name)
  | .error f => .error f

/-- Where a move to a path would put its file. -/
def target (path : String) : Except PathFault Place := do
  let (start, parts) ← t.begin path
  let place ← parts.dropLast.foldlM t.enter start
  t.landing place (parts.getLastD "")

/-- Moves a file to a place, with what it holds. -/
def moveFile (old new : Place) : Tree :=
  match t.files.lookup old with
  | some content => (t.remove old).put new content
  | none => t

end Tree

namespace Writing

variable (w : Writing)

/-- What a step does where nothing else goes wrong. -/
def act (t : Tree) : WriteStep → Except Failure Tree
  | .create => .ok (t.put w.temp [])
  | .fill => .ok (t.put w.temp w.data)
  | .close => .ok t
  | .allow => .ok t
  | .move =>
    match t.target w.path with
    | .ok place => .ok (t.moveFile w.temp place)
    | .error f => .error (f.toFailure ("rename " ++ w.tempPath ++ " " ++ w.path))

/-- What a step that fails for other reasons leaves behind: filling may have come some way. -/
def interrupted (fault : WriteFault) (t : Tree) : WriteStep → Tree
  | .fill => t.put w.temp (w.data.take fault.filled)
  | _ => t

/-- Takes one step after the other, up to the first that fails. -/
def takeSteps (fault : WriteFault) : List WriteStep → Tree → Except Failure Unit × Tree
  | [], t => (.ok (), t)
  | step :: more, t =>
    match fault.failure step with
    | some f => (.error (.within step.text f), w.interrupted fault t step)
    | none =>
      match w.act t step with
      | .error f => (.error (.within step.text f), t)
      | .ok t => takeSteps fault more t

/-- Takes all steps. Once the fresh file is there, it is removed again if a step fails. -/
def run (fault : WriteFault) (t : Tree) : Except Failure Unit × Tree :=
  match w.takeSteps fault [.create] t with
  | (.error f, left) => (.error f, left)
  | (.ok (), created) =>
    match w.takeSteps fault [.fill, .close, .allow, .move] created with
    | (.error f, left) => (.error f, left.remove w.temp)
    | (.ok (), written) => (.ok (), written)

end Writing

namespace Tree

variable (t : Tree)

/-- Writes a file. -/
def write (fault : WriteFault) (path : String) (data : Bytes) : Except Failure Unit × Tree :=
  let dir := Path.dir path
  let refuse (name : String) (f : PathFault) : Except Failure Unit × Tree :=
    (.error (.within WriteStep.create.text (f.toFailure ("open " ++ Path.join dir name))), t)
  match t.locate dir with
  | .error f => refuse ".blob-0" f
  | .ok place =>
    -- Every file and the working directory may have one of the names that are tried.
    let name := t.freshName place (t.files.length + 2) 0
    match t.node? place with
    | some .directory =>
      let w : Writing := { temp := child place name, tempPath := Path.join dir name, path, data }
      w.run fault t
    | some (.file _) => refuse name .notDirectory
    | none => refuse name .missing

/-- Orders names by their octets. -/
def namesBefore (a b : List String) : Bool :=
  (a.map Bytes.ofText) ≤ (b.map Bytes.ofText)

/-- The paths of all files below the working directory, directory by directory. -/
def paths : List String :=
  let below := (t.files.map (·.1)).filter t.here.isPrefixOf
  ((below.map (·.drop t.here.length)).mergeSort namesBefore).map (Text.join "/")

end Tree

end EngineHost
