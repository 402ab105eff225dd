import Sidecar.Event
import Sidecar.Handle
import Sidecar.KeyResource
import Sidecar.PublicKey
import Sidecar.SignaturePath

/-!
# Sidecar.Verifier

The verification of a file against its detached signature:

```
key size → key → hash of the file → path of the signature → signature → check
```

The first step that fails ends it (`check`); `verify` turns the outcome into a
record for the caller and logs a failure.
-/

namespace Sidecar

/-! ## Outcomes -/

/-- What a verification found: nothing wrong, or one failure. -/
structure Verification where
  failure? : Option Failure
  deriving DecidableEq, Repr

namespace Verification

/-- The record of an outcome. -/
def ofResult : Except Failure Unit → Verification
  | .ok () => ⟨none⟩
  | .error failure => ⟨some failure⟩

/-- Whether the file is the one that was signed. -/
def isOk (v : Verification) : Bool := v.failure?.isNone

/-- The reasons against it, in words and in order. -/
def reasons (v : Verification) : List String := v.failure?.toList.map Failure.message

/-- The reasons in one line; empty if there are none. -/
def diagnostic (v : Verification) : String := "; ".intercalate v.reasons

def kind? (v : Verification) : Option FailureKind := v.failure?.map Failure.kind

/-- The operating system's number behind the failure. -/
def osError? (v : Verification) : Option Int := v.failure?.bind Failure.osError?

end Verification

/-! ## The steps -/

/-- Refuses a file that is not the one signed in its signature file. -/
def check (opener : Opener) (key : KeyResource) (path : Path) : Traced Failure Unit := do
  let key ← key.usableKey
  Traced.log (.hashing path)
  let digest ← hashFile opener path
  Traced.log (.hashed path digest)
  let signaturePath ← path.signaturePath.mapError PathFault.failure
  Traced.log (.readingSignature signaturePath)
  let signature ← readSignature opener signaturePath
  key.verify digest signature
  Traced.log (.signatureValid path)

/-- Checks a file; a failure becomes part of the record and the last event. -/
def verify (opener : Opener) (key : KeyResource) (path : Path) : List Event × Verification :=
  let outcome := check opener key path
  let record := Verification.ofResult outcome.result
  (outcome.events ++ record.failure?.toList.map (Event.failed path), record)

/-- Checks the file at a path that UTF-16 units spell. -/
def verifyWide (opener : Opener) (key : KeyResource) (units : List UInt16) :
    List Event × Verification :=
  match Path.ofWide units with
  | .ok path => verify opener key path
  | .error fault => ([.wideRejected fault.failure], ⟨some fault.failure⟩)

end Sidecar
