import Sidecar.Sha256
import Sidecar.Signature

/-!
# Sidecar.PublicKey

RSA public keys and the check of a signature: the signature, raised to the
key's exponent, has to be the full block of RSASSA-PKCS1-v1_5 for the hash.

```
00 01 FF … FF 00  DigestInfo  hash
```

The whole block is computed and compared, so there is no other padding and no
other algorithm that a check could accept.
-/

namespace Sidecar

/-! ## Keys -/

/-- A modulus and an exponent. -/
structure PublicKey where
  modulus : Nat
  exponent : Nat
  deriving DecidableEq, Repr

/-- Why a modulus and an exponent make no key. -/
inductive PublicKeyFault where
  | modulusTooLarge
  | exponentTooLarge
  | invalidModulus
  | invalidExponent
  | exponentTooSmall
  deriving DecidableEq, Repr

def PublicKeyFault.message : PublicKeyFault → String
  | .modulusTooLarge => "modulus too large"
  | .exponentTooLarge => "public exponent too large"
  | .invalidModulus => "invalid modulus"
  | .invalidExponent => "invalid exponent"
  | .exponentTooSmall => "public exponent too small"

/-- How the check of a signature can fail: the signature is not one of the hash under
the key, or the computation went wrong, which says nothing of the signature. -/
inductive RsaFault where
  | verification
  | internal (reason : String)
  deriving DecidableEq, Repr

/-- The fault as what stops a verification. -/
def RsaFault.failure : RsaFault → Failure
  | .verification => .signatureMismatch
  | .internal reason => .crypto reason

namespace PublicKey

def maxModulusBits : Nat := 4096

/-- The largest exponent: 33 bits. -/
def maxExponent : Nat := 0x1FFFFFFFF

/-- The key of a modulus and an exponent: both odd, the modulus not too long, the
exponent between 3 and the largest one and below the modulus. -/
def ofNumbers (modulus exponent : Nat) : Except PublicKeyFault PublicKey :=
  if maxModulusBits < bitLength modulus then .error .modulusTooLarge
  else if UInt64.size ≤ exponent then .error .exponentTooLarge
  else if modulus ≤ exponent ∨ modulus % 2 = 0 then .error .invalidModulus
  else if exponent % 2 = 0 then .error .invalidExponent
  else if exponent < 2 then .error .exponentTooSmall
  else if maxExponent < exponent then .error .exponentTooLarge
  else .ok ⟨modulus, exponent⟩

/-- The length of the modulus in bytes. -/
def size (key : PublicKey) : Nat := byteLength key.modulus

/-! ## Checking a signature -/

/-- The remainder of `base ^ exponent` by `modulus`, by repeated squaring. -/
def powMod (base exponent modulus : Nat) : Nat :=
  if exponent = 0 then 1 % modulus
  else
    let rest := powMod (base * base % modulus) (exponent / 2) modulus
    if exponent % 2 = 1 then base * rest % modulus else rest
termination_by exponent
decreasing_by omega

/-- The DER header that names SHA-256 before a hash. -/
def digestInfo : List UInt8 :=
  [0x30, 0x31, 0x30, 0x0d, 0x06, 0x09, 0x60, 0x86, 0x48, 0x01, 0x65, 0x03, 0x04, 0x02, 0x01, 0x05,
   0x00, 0x04, 0x20]

/-- The block that a signature of the hash has to open to. -/
def paddedBlock (d : Sha256.Digest) : List UInt8 :=
  0x00 :: 0x01 ::
    (List.replicate (signatureLength - 3 - digestInfo.length - 32) 0xFF ++ 0x00 ::
      (digestInfo ++ d.bytes))

/-- Whether the signature is one of the hash under the key. -/
def accepts (key : PublicKey) (d : Sha256.Digest) (s : Signature) : Bool :=
  key.size == signatureLength && s.toNat < key.modulus &&
    bytesOfNat signatureLength (powMod s.toNat key.exponent key.modulus) == paddedBlock d

/-- Checks a signature; whatever is wrong with one is the same fault. -/
def checkSignature (key : PublicKey) (d : Sha256.Digest) (s : Signature) : Except RsaFault Unit :=
  if key.accepts d s then .ok () else .error .verification

/-- What a verification makes of the answer to such a check. -/
def classify (answer : Except RsaFault Unit) : Except Failure Unit :=
  answer.mapError RsaFault.failure

/-- Refuses a signature that is not one of the hash under the key. -/
def verify (key : PublicKey) (d : Sha256.Digest) (s : Signature) : Except Failure Unit :=
  classify (key.checkSignature d s)

end PublicKey

end Sidecar
