import Sidecar.IoError
import Sidecar.Path

/-!
# Sidecar.Failure

What stops a verification: one value per cause, with the texts, the class and
the system's number that are reported for it.
-/

namespace Sidecar

/-- The class of a failure, which is what an operator acts on. `malformedSignature` is of a
signature file that has a wrong size, `mismatch` of a signature that is none of this file
under this key, and `crypto` of a check that failed for a reason of its own. -/
inductive FailureKind where
  | keyCorruption
  | io
  | malformedSignature
  | mismatch
  | crypto
  | invalidPath
  deriving DecidableEq, Repr

/-- What stops a verification. -/
inductive Failure where
  | keyTooLarge (size : Nat)
  | keyUnreadable (reason : String)
  | keySize (bits expected : Nat)
  | openTarget (path : Path) (source : IoError)
  | readTarget (path : Path) (source : IoError)
  | openSignature (path : Path) (source : IoError)
  | readSignature (path : Path) (source : IoError)
  | signatureLength (expected read : Nat)
  | signatureMismatch
  | crypto (reason : String)
  | invalidPath (reason : String)
  deriving DecidableEq, Repr

namespace Failure

def kind : Failure → FailureKind
  | .keyTooLarge _ | .keyUnreadable _ | .keySize _ _ => .keyCorruption
  | .openTarget _ _ | .readTarget _ _ | .openSignature _ _ | .readSignature _ _ => .io
  | .signatureLength _ _ => .malformedSignature
  | .signatureMismatch => .mismatch
  | .crypto _ => .crypto
  | .invalidPath _ => .invalidPath

/-- The system's failure behind a failure, if there is one. -/
def source? : Failure → Option IoError
  | .openTarget _ source | .readTarget _ source => some source
  | .openSignature _ source | .readSignature _ source => some source
  | _ => none

/-- The operating system's number behind a failure, if there is one. -/
def osError? (f : Failure) : Option Int := f.source?.bind IoError.osCode?

def message : Failure → String
  | .keyTooLarge size =>
      "Invalid public key, size is too large: " ++ toString size ++ " bytes"
  | .keyUnreadable reason => "Failed to load RSA public key: " ++ reason
  | .keySize bits expected =>
      "Unsupported RSA key size: " ++ toString bits ++ " bits, expected " ++ toString expected ++
        " bits"
  | .openTarget path source =>
      "Failed to open executable (" ++ path.display ++ ") for reading: " ++ source.codeOrText
  | .readTarget path source =>
      "Failed to read executable (" ++ path.display ++ ") while hashing: " ++ source.codeOrText
  | .openSignature path source =>
      "Failed to open signature file (" ++ path.display ++ ") for reading: " ++ source.codeOrText
  | .readSignature path source =>
      "Failed to read signature file (" ++ path.display ++ "): " ++ source.codeOrText
  | .signatureLength expected read =>
      "Signature file is an invalid size, or failed to read entire file. Expected " ++
        toString expected ++ " bytes, read " ++ toString read ++ "."
  | .signatureMismatch => "Executable's signature does not match signature file"
  | .crypto reason => "RSA verification failed internally: " ++ reason
  | .invalidPath reason => "Invalid executable path: " ++ reason

end Failure

end Sidecar
