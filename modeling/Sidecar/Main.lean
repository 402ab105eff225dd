import Sidecar.Program

/-!
# Sidecar.Main

The program on a real system. The files that the arguments name are read first;
`Program.run` decides on what was found, and its report is printed.
-/

namespace Sidecar.Main

/-- The number under which the system reports a failure, if it does. -/
def systemNumber? : IO.Error → Option UInt32
  | .alreadyExists _ code _ | .otherError code _ | .resourceBusy code _
  | .resourceVanished code _ | .unsupportedOperation code _ | .hardwareFault code _
  | .unsatisfiedConstraints code _ | .illegalOperation code _ | .protocolError code _
  | .timeExpired code _ | .interrupted _ code _ | .noFileOrDirectory _ code _
  | .invalidArgument _ code _ | .permissionDenied _ code _ | .resourceExhausted _ code _
  | .inappropriateType _ code _ | .noSuchThing _ code _ => some code
  | .unexpectedEof | .userError _ => none

/-- The failure of a file operation. -/
def failureOf (e : IO.Error) : IoError :=
  match systemNumber? e with
  | some code => .os code.toNat
  | none => .described (toString e)

def readHandle (handle : IO.FS.Handle) : IO Handle := do
  try
    return .file (← handle.readBinToEnd).toList
  catch e =>
    let error := failureOf e
    if lasting : error.isInterrupted = false then return .unreadable ⟨[], error, lasting⟩
    else throw e

/-- Opens the file at a path and reads it. One whose reading stays interrupted counts
as one that does not open. -/
def openFile (path : Path) : IO (Except IoError Handle) := do
  try
    return .ok (← readHandle (← IO.FS.Handle.mk path.display .read))
  catch e =>
    return .error (failureOf e)

/-- The files at some paths, as they are now. -/
def openFiles (paths : List Path) : IO Opener := do
  let found ← paths.mapM fun path => return (path, ← openFile path)
  return fun path => (found.lookup path).getD (.error .notFound)

/-- Runs the program on arguments, with the key file that the environment names. -/
def run (environment : Option String) (args : List String) : IO Program.Report := do
  let key := environment.map fun text => (Path.ofText text.toList).bytes
  let args := args.map fun text => (Path.ofText text.toList).bytes
  let files := match CommandLine.parse key args with
    | .ok invocation => Program.filesRead invocation
    | .error _ => []
  return Program.run (← openFiles files) key args

end Sidecar.Main

/-- The program: arguments in, report out. -/
def main (args : List String) : IO UInt32 := do
  let report ← Sidecar.Main.run (← IO.getEnv "SIGCHECK_KEY_FILE") args
  (← IO.getStdout).putStr report.stdout
  (← IO.getStderr).putStr report.stderr
  return UInt32.ofNat report.exitCode
