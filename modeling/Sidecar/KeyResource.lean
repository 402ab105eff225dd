import Sidecar.Failure
import Sidecar.PublicKey.Document
import Sidecar.Text.Blank

/-!
# Sidecar.KeyResource

The bytes that are to be a public key, before anything is known of them: they
have to be few enough, UTF-8, and the PEM text of an RSA key whose signatures
have the one supported length.
-/

namespace Sidecar

/-- The bytes of a public key's text. -/
structure KeyResource where
  bytes : List UInt8
  deriving DecidableEq, Repr

namespace KeyResource

/-- The most bytes that a key's text may have: those of the largest supported key. -/
def maxSize : Nat := 800

/-- What is embedded in a program that is built without a key. -/
def embedded : KeyResource := ⟨[]⟩

def size (r : KeyResource) : Nat := r.bytes.length

/-- Refuses a resource that is too large. -/
def checkSize (r : KeyResource) : Except Failure Unit :=
  if maxSize < r.size then .error (.keyTooLarge r.size) else .ok ()

/-- Why bytes are no key text: there are none, they are not UTF-8, or the text without the
blanks around it is no key. -/
inductive Fault where
  | empty
  | encoding (fault : Text.Utf8.Fault)
  | key (fault : KeyFault)
  deriving DecidableEq, Repr

def Fault.message : Fault → String
  | .empty => "public key resource is empty; this build carries no signing key"
  | .encoding fault => "key is not valid PEM text: " ++ fault.message
  | .key fault => fault.message

/-- The key that the bytes spell. -/
def parse (r : KeyResource) : Except Fault PublicKey :=
  if r.bytes = [] then .error .empty
  else
    match Text.Utf8.decode r.bytes with
    | .error fault => .error (.encoding fault)
    | .ok text => (PublicKey.ofText (Text.trim text)).mapError .key

/-- The key that the bytes spell, if its signatures have the supported length. -/
def materialize (r : KeyResource) : Except Failure PublicKey :=
  match r.parse with
  | .error fault => .error (.keyUnreadable fault.message)
  | .ok key =>
      if key.size = signatureLength then .ok key
      else .error (.keySize (key.size * 8) (signatureLength * 8))

/-- The key of a resource that is small enough. -/
def usableKey (r : KeyResource) : Except Failure PublicKey := do
  r.checkSize
  r.materialize

end KeyResource

end Sidecar
