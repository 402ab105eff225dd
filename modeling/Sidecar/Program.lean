import Sidecar.CommandLine
import Sidecar.Verifier

/-!
# Sidecar.Program

One run of the program: from the arguments, the environment and the files to
the exit code and what is printed. The key file is read before any command
runs, whichever it is.
-/

namespace Sidecar.Program

open CommandLine

/-! ## Reports -/

/-- What a run leaves behind. `stderr` is without the log, whose lines carry times: what a
verification logs is the events that `verify` gives. -/
structure Report where
  exitCode : Nat
  stdout : String
  stderr : String
  deriving DecidableEq, Repr

/-- The report of an error, with the system's failure behind it. -/
def errorText (message : String) (cause? : Option IoError) : String :=
  "Error: " ++ message ++ "\n" ++
    match cause? with
    | some cause => "\nCaused by:\n    " ++ cause.text ++ "\n"
    | none => ""

/-- Ends a run at a failure, after some output. -/
def Report.failed (stdout : String) (failure : Failure) : Report :=
  ⟨1, stdout, errorText failure.message failure.source?⟩

/-! ## The key -/

/-- Why a key file could not be read. -/
structure KeyFileFault where
  path : Path
  cause : IoError
  deriving DecidableEq, Repr

/-- The fault in words, without its cause. -/
def KeyFileFault.message (f : KeyFileFault) : String :=
  "Failed to read public key " ++ f.path.display

def readFile (opener : Opener) (path : Path) : Except IoError (List UInt8) := do
  (← opener path).readAll

/-- The key of a run: that of the file, if one is named, else the one embedded in
the program. Its bytes are not looked at here. -/
def loadKey (opener : Opener) (file? : Option Path) (embedded : KeyResource := .embedded) :
    Traced KeyFileFault KeyResource :=
  match file? with
  | none => return embedded
  | some path => do
      Traced.log (.usingKey path)
      let bytes ← (readFile opener path).mapError (KeyFileFault.mk path)
      return ⟨bytes⟩

/-! ## Commands -/

/-- The line of a verified file; none for a passing one under `quiet`. -/
def verifyLine (quiet : Bool) (path : Path) (v : Verification) : String :=
  if v.isOk then (if quiet then "" else path.display ++ ": ok\n")
  else path.display ++ ": FAILED: " ++ v.diagnostic ++ "\n"

/-- Verifies files one after the other, each with its line after what is printed
already; succeeds if all pass, those before among them (`passed`). What is logged
(`verify`) is for a subscriber and no part of the report. -/
def runVerify (opener : Opener) (key : KeyResource) (quiet passed : Bool) (printed : String) :
    List Path → Report
  | [] => ⟨if passed then 0 else 1, printed, ""⟩
  | path :: paths =>
      let v := (verify opener key path).2
      runVerify opener key quiet (passed && v.isOk) (printed ++ verifyLine quiet path v) paths

/-- Prints where the signature of a file is expected. -/
def runSignaturePath (path : Path) : Report :=
  match path.signaturePath with
  | .ok signature => ⟨0, signature.display ++ "\n", ""⟩
  | .error fault => .failed "" fault.failure

/-- Prints the hashes of files up to the first that cannot be read. -/
def runHash (opener : Opener) (printed : String) : List Path → Report
  | [] => ⟨0, printed, ""⟩
  | path :: paths =>
      match hashFile opener path with
      | .ok d => runHash opener (printed ++ d.hex ++ "  " ++ path.display ++ "\n") paths
      | .error failure => .failed printed failure

/-- Prints the size of the key, and whether it can be used. -/
def runKeyInfo (key : KeyResource) : Report :=
  let size :=
    "size: " ++ toString key.size ++ " bytes (limit " ++ toString KeyResource.maxSize ++ ")\n"
  match key.usableKey with
  | .ok _ => ⟨0, size ++ "status: usable, RSA-" ++ toString (signatureLength * 8) ++ "\n", ""⟩
  | .error failure => ⟨1, size ++ "status: unusable: " ++ failure.message ++ "\n", ""⟩

def runCommand (opener : Opener) (key : KeyResource) (quiet : Bool) : Command → Report
  | .verify paths => runVerify opener key quiet true "" paths
  | .signaturePath path => runSignaturePath path
  | .hash files => runHash opener "" files
  | .keyInfo => runKeyInfo key

/-! ## Whole runs -/

/-- The files that an invocation may read: the key file, and for its command the
named files and their signatures. -/
def filesRead (i : Invocation) : List Path :=
  i.key.toList ++
    match i.command with
    | .verify paths => paths ++ paths.filterMap fun path => path.signaturePath.toOption
    | .hash files => files
    | .signaturePath _ | .keyInfo => []

/-- Runs an invocation: the key first, then the command. -/
def runInvocation (embedded : KeyResource) (opener : Opener) (i : Invocation) : Report :=
  match (loadKey opener i.key embedded).result with
  | .error fault => ⟨1, "", errorText fault.message (some fault.cause)⟩
  | .ok key => runCommand opener key i.quiet i.command

/-- What a build of the program brings along: the key embedded in it, and what it
prints about a command line without an invocation, given the environment and the
arguments. -/
structure Build where
  key : KeyResource
  wording : Option (List UInt8) → List (List UInt8) → Stop → String

/-- A build without a key and without words. -/
def Build.bare : Build := ⟨.embedded, fun _ _ _ => ""⟩

/-- What a command line without an invocation leaves behind: help and the version are
output, what is wrong with the arguments is an error. -/
def stopped (text : String) : Stop → Report
  | .help | .version => ⟨0, text, ""⟩
  | .usage => ⟨2, "", text⟩

/-- A run of the program. -/
def run (opener : Opener) (environment : Option (List UInt8)) (args : List (List UInt8))
    (build : Build := .bare) : Report :=
  match parse environment args with
  | .ok invocation => runInvocation build.key opener invocation
  | .error stop => stopped (build.wording environment args stop) stop

end Sidecar.Program
