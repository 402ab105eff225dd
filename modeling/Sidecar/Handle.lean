import Sidecar.Reader
import Sidecar.Signature

/-!
# Sidecar.Handle

Opened files, and a file system as far as a verification sees it: what opening
each path gives. A handle either has a content, which every reading from it
gives, or its reading breaks off, at once as a directory's does or part way.
-/

namespace Sidecar

/-- A reading that breaks off: what is handed out before, and the failure of every
read after that. That one lasts, so it is no interruption. -/
structure BrokenReading where
  front : List UInt8
  error : IoError
  lasting : error.isInterrupted = false
  deriving DecidableEq, Repr

/-- A directory opens, but every read of it fails. -/
def BrokenReading.directory : BrokenReading := ⟨[], .isDirectory, rfl⟩

/-- An opened file: one with its whole content, or one that cannot be read to its end. -/
inductive Handle where
  | file (content : List UInt8)
  | unreadable (reading : BrokenReading)
  deriving DecidableEq, Repr

/-- What opening a path for reading gives. -/
abbrev Opener := Path → Except IoError Handle

namespace Handle

/-- The steps of reading to the end. An empty piece would be the end already, so a
reading that breaks off at once has none. -/
def steps : Handle → List ReadStep
  | .file content => [.data content]
  | .unreadable ⟨[], error, _⟩ => [.fail error]
  | .unreadable ⟨front, error, _⟩ => [.data front, .fail error]

/-- The hash of the content, read in pieces. -/
def digest (handle : Handle) : Except IoError Sha256.Digest :=
  (Reader.ofSteps handle.steps).digest

/-- The content, but no more than `limit` bytes of it. A reading that breaks off
after those has not failed yet. -/
def readUpTo (limit : Nat) : Handle → Except IoError (List UInt8)
  | .file content => .ok (content.take limit)
  | .unreadable reading =>
      if reading.front.length < limit then .error reading.error
      else .ok (reading.front.take limit)

def readAll : Handle → Except IoError (List UInt8)
  | .file content => .ok content
  | .unreadable reading => .error reading.error

end Handle

/-! ## Files of a verification -/

/-- The hash of the file at a path. -/
def hashFile (opener : Opener) (path : Path) : Except Failure Sha256.Digest :=
  match opener path with
  | .error e => .error (.openTarget path e)
  | .ok handle => handle.digest.mapError (.readTarget path)

/-- The signature that the file at a path holds. One chunk is read at most,
which is enough to tell a file that is too long. -/
def readSignature (opener : Opener) (path : Path) : Except Failure Signature :=
  match opener path with
  | .error e => .error (.openSignature path e)
  | .ok handle =>
      match handle.readUpTo chunkSize with
      | .error e => .error (.readSignature path e)
      | .ok bytes => Signature.ofBytes bytes

end Sidecar
