import EngineHost.Command.Execute

/-!
# The command line

The machine as surroundings of a command, and the program itself. Nothing is decided here: every
effect asks the machine and says in the words of the library what came of it. Requests over the
network and listening are not built in, so they fail with a plain reason.
-/

namespace EngineHost

namespace Machine

/-- The system's number for "is a directory". -/
def directoryCode : UInt32 := 21

/-- What the machine refused, met in doing something with a path. -/
def refusal (doing : String) : IO.Error → Failure
  | .noFileOrDirectory .. => PathFault.missing.toFailure doing
  | .inappropriateType _ code _ =>
    (if code = directoryCode then PathFault.isDirectory else .notDirectory).toFailure doing
  | .alreadyExists .. => PathFault.present.toFailure doing
  | e => .plain (doing ++ ": " ++ e.toString)

/-- Does something with a path. -/
def attempt (doing : String) (act : IO α) : IO (Except Failure α) := do
  match ← act.toBaseIO with
  | .ok a => return .ok a
  | .error e => return .error (refusal doing e)

/-- Looks a path up by reading what is there. -/
def stat (path : String) : IO (Except Failure FileNode) := do
  match ← (IO.FS.readBinFile path).toBaseIO with
  | .ok data => return .ok (.file data.toList)
  | .error (.inappropriateType name code text) =>
    if code = directoryCode then return .ok .directory
    return .error (refusal ("stat " ++ path) (.inappropriateType name code text))
  | .error e => return .error (refusal ("stat " ++ path) e)

/-- Opens a path for reading; a directory opens and then cannot be read. -/
def openFile (path : String) : IO (Except Failure Bytes) := do
  match ← (IO.FS.readBinFile path).toBaseIO with
  | .ok data => return .ok data.toList
  | .error (.inappropriateType name code text) =>
    let verb := if code = directoryCode then "read " else "open "
    return .error (refusal (verb ++ path) (.inappropriateType name code text))
  | .error e => return .error (refusal ("open " ++ path) e)

/-- Writes beside a file and moves the result in place, so that a reader meets the old content or
the new one. -/
def write (path : String) (data : Bytes) : IO (Except Failure Unit) := do
  let temp := Path.join (Path.dir path) (".blob-" ++ toString (← IO.monoNanosNow))
  match ← attempt ("open " ++ temp) (IO.FS.writeBinFile temp ⟨data.toArray⟩) with
  | .error f => return .error (.within WriteStep.create.text f)
  | .ok () =>
    match ← attempt ("rename " ++ temp ++ " " ++ path) (IO.FS.rename temp path) with
    | .ok () => return .ok ()
    | .error f =>
      let _ ← attempt "" (IO.FS.removeFile temp)
      return .error (.within WriteStep.move.text f)

/-- All that a stream still holds. -/
partial def drain (input : IO.FS.Stream) (seen : ByteArray) : IO ByteArray := do
  let more ← input.read 65536
  if more.isEmpty then return seen
  drain input (seen ++ more)

/-- The machine as surroundings. -/
def world : World IO where
  env name := return (← IO.getEnv name).getD ""
  stat := stat
  openFile := openFile
  write := write
  ask _ := return .failed "no network"
  input := return (← drain (← IO.getStdin) .empty).toList
  print text := attempt "write" do (← IO.getStdout).putStr text
  printError text := do (← IO.getStderr).putStr text
  now := return Int64.ofNat (← IO.monoNanosNow)
  signal := return .never
  listen _ := return .error (.plain "no network")
  onnx := .absent

end Machine

end EngineHost

/-- Executes the command line; a failure is told on the error stream. -/
def main (args : List String) : IO UInt32 := do
  match ← EngineHost.Command.execute EngineHost.Machine.world args with
  | .ok () => return 0
  | .error f =>
    IO.eprintln f.message
    return 1
