import Sidecar.Failure
import Sidecar.Sha256

/-!
# Sidecar.Event

What a verification tells an operator's log, and computations that leave such
events behind. Events are kept also when a computation fails: they say how far
it came.
-/

namespace Sidecar

/-! ## Events -/

inductive Level where
  | debug
  | warn
  | error
  deriving DecidableEq, Repr

/-- A line of the log. `failed` ends a verification, `wideRejected` one of a wide path that
cannot be used. -/
inductive Event where
  | usingKey (path : Path)
  | hashing (path : Path)
  | hashed (path : Path) (digest : Sha256.Digest)
  | readingSignature (path : Path)
  | signatureValid (path : Path)
  | failed (path : Path) (failure : Failure)
  | wideRejected (failure : Failure)
  deriving DecidableEq, Repr

namespace Event

/-- Whether a failure lies with the verifier itself rather than with the files. -/
def isOwnFault : FailureKind → Bool
  | .keyCorruption | .crypto => true
  | _ => false

/-- The level of an event: steps are for debugging, failures are warnings, and
faults of the verifier's own are errors. -/
def level : Event → Level
  | .failed _ failure => if isOwnFault failure.kind then .error else .warn
  | .wideRejected _ => .warn
  | _ => .debug

/-- The failure class that an event is marked with. -/
def kind? : Event → Option FailureKind
  | .failed _ failure => some failure.kind
  | _ => none

def message : Event → String
  | .usingKey path => "Using public key from " ++ path.display
  | .hashing path => "Hashing " ++ path.display
  | .hashed path digest => "SHA256 " ++ path.display ++ " = " ++ digest.hex
  | .readingSignature path => "Reading signature " ++ path.display
  | .signatureValid path => "Signature valid for " ++ path.display
  | .failed path failure =>
      (if isOwnFault failure.kind then "Cannot verify " else "Verification failed for ") ++
        path.display ++ ": " ++ failure.message
  | .wideRejected failure => "Rejected wide path: " ++ failure.message

end Event

/-! ## Traced computations -/

/-- A result, or what stopped the computation, and the events on the way there. -/
structure Traced (ε α : Type) where
  events : List Event
  result : Except ε α

namespace Traced

/-- Leaves an event behind. -/
def log (event : Event) : Traced ε Unit := ⟨[event], .ok ()⟩

/-- A computation without events. -/
def ofExcept (result : Except ε α) : Traced ε α := ⟨[], result⟩

/-- Continues with a result; what stopped a computation stays. -/
def bind (x : Traced ε α) (f : α → Traced ε β) : Traced ε β :=
  match x.result with
  | .ok a =>
      let y := f a
      ⟨x.events ++ y.events, y.result⟩
  | .error e => ⟨x.events, .error e⟩

instance : Monad (Traced ε) where
  pure a := ⟨[], .ok a⟩
  bind := bind

instance : MonadLift (Except ε) (Traced ε) := ⟨ofExcept⟩

end Traced

end Sidecar
