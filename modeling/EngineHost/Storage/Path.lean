import EngineHost.Text.Pieces

/-!
# Paths

Paths are texts with slashes. `Path.clean` gives the shortest path that means the same without
looking at any file; `Path.dir` and `Path.base` are all but the last part and the last part.
-/

namespace EngineHost

namespace Path

/-- The parts that remain: none that says nothing, and two dots take back the part before them. -/
def cleanParts (rooted : Bool) (kept : List String) : List String → List String
  | [] => kept.reverse
  | p :: more =>
    if p = "" ∨ p = "." then cleanParts rooted kept more
    else if p = ".." then
      match kept with
      | [] => cleanParts rooted (if rooted then [] else [p]) more
      | k :: rest =>
        if k = ".." then cleanParts rooted (p :: kept) more else cleanParts rooted rest more
    else cleanParts rooted (p :: kept) more

/-- Does a path start at the root? -/
def isRooted (path : String) : Bool :=
  Text.startsWith "/" path

/-- The shortest path of the same meaning. -/
def clean (path : String) : String :=
  let parts := cleanParts (isRooted path) [] (Text.split '/' path)
  if isRooted path then "/" ++ Text.join "/" parts
  else if parts.isEmpty then "." else Text.join "/" parts

/-- The directory of a path. -/
def dir (path : String) : String :=
  let parts := Text.split '/' path
  clean (Text.join "/" (parts.dropLast ++ if parts.length ≤ 1 then [] else [""]))

/-- The last part of a path. -/
def base (path : String) : String :=
  if path = "" then "."
  else
    match ((Text.split '/' path).filter (· ≠ "")).getLast? with
    | some p => p
    | none => "/"

/-- A name in a directory. -/
def join (dir name : String) : String :=
  if Text.endsWith "/" dir then dir ++ name else dir ++ "/" ++ name

end Path

end EngineHost
