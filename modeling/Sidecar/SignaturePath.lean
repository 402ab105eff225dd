import Sidecar.Failure
import Sidecar.Text.Utf16

/-!
# Sidecar.SignaturePath

Where the signature of a file stands, and paths given as UTF-16 units.

```
dir/name.ext  ↦  dir/signatures/name.sig
```

Only the last extension is replaced, and a name without one keeps its full text.
-/

namespace Sidecar

/-- Why a path cannot be used: it is empty or ends at the root, a dot or two dots, or its
units hold a surrogate that is not part of a pair. -/
inductive PathFault where
  | noFileName (path : Path)
  | loneSurrogate
  deriving DecidableEq, Repr

def PathFault.message : PathFault → String
  | .noFileName path => path.display ++ " has no file name"
  | .loneSurrogate => "path is not valid UTF-16: invalid utf-16: lone surrogate found"

/-- The fault as what stops a verification. -/
def PathFault.failure (fault : PathFault) : Failure := .invalidPath fault.message

namespace Path

/-- The directory beside a file that holds signatures. -/
def signatureDirectory : List UInt8 := ascii "signatures"

/-- What follows the stem in a signature's file name. -/
def signatureExtension : List UInt8 := ascii ".sig"

/-- The path of the signature of the file at a path. -/
def signaturePath (p : Path) : Except PathFault Path :=
  match p.fileName? with
  | none => .error (.noFileName p)
  | some name =>
      .ok ⟨join (join p.parentText signatureDirectory) (stem name ++ signatureExtension)⟩

/-! ## Wide paths -/

/-- Drops the zero units at the end, which terminate a wide text. -/
def dropTerminators (units : List UInt16) : List UInt16 :=
  (units.reverse.dropWhile (· == 0)).reverse

/-- The path that a sequence of UTF-16 units spells. -/
def ofWide (units : List UInt16) : Except PathFault Path :=
  match Text.Utf16.decode? (dropTerminators units) with
  | some text => .ok (ofText text)
  | none => .error .loneSurrogate

end Path

end Sidecar
