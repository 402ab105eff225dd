import Sidecar.Failure

/-!
# Sidecar.Signature

Signatures as they stand in a file: 512 bytes, which are a big-endian number.
-/

namespace Sidecar

/-- The length of a signature in bytes. -/
def signatureLength : Nat := 512

/-- Bytes of a signature's length. -/
structure Signature where
  bytes : List UInt8
  length_bytes : bytes.length = signatureLength
  deriving DecidableEq

namespace Signature

/-- The signature with the given bytes, if their number is right. -/
def ofBytes (bytes : List UInt8) : Except Failure Signature :=
  if h : bytes.length = signatureLength then .ok ⟨bytes, h⟩
  else .error (.signatureLength signatureLength bytes.length)

def toNat (s : Signature) : Nat := natOfBytes s.bytes

/-- A short form for people: the first bytes. -/
def summary (s : Signature) : String := "SignatureBlob(" ++ hex (s.bytes.take 8) ++ "..)"

instance : Repr Signature := ⟨fun s _ => s.summary⟩

end Signature

end Sidecar
