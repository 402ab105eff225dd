import Sidecar.Der.Value
import Sidecar.Pem
import Sidecar.PublicKey

/-!
# Sidecar.PublicKey.Document

RSA public keys as DER documents and as PEM texts, in two encodings.

* **PKCS #1** (`RSA PUBLIC KEY`): a sequence of the modulus and the exponent.
* **SubjectPublicKeyInfo** (`PUBLIC KEY`): a sequence of an algorithm, with its
  parameters, and a bit string that holds a PKCS #1 document.

`encodeNumbers` and `encodeInfo` write the canonical documents, which are the
only ones that the readers take.
-/

namespace Sidecar

open Der

/-! ## Faults -/

/-- Why a text or a document is no RSA public key. `malformed` is of parameters, a bit
string or numbers that are not those of an RSA key. -/
inductive KeyFault where
  | pem (fault : Pem.Fault)
  | der (fault : Der.Fault)
  | algorithm
  | parametersMissing
  | malformed
  deriving DecidableEq, Repr

def KeyFault.message : KeyFault → String
  | .pem fault => "ASN.1 error: PEM error: " ++ fault.message
  | .der fault => "ASN.1 error: " ++ fault.message
  | .algorithm => "unknown/unsupported algorithm OID: 1.2.840.113549.1.1.1"
  | .parametersMissing => "AlgorithmIdentifier parameters missing"
  | .malformed => "SPKI cryptographic key data malformed"

namespace PublicKey

/-- The contents of the identifier of RSA encryption, 1.2.840.113549.1.1.1. -/
def rsaIdentifier : List UInt8 := [0x2a, 0x86, 0x48, 0x86, 0xf7, 0x0d, 0x01, 0x01, 0x01]

/-! ## Canonical documents -/

/-- The key as a PKCS #1 document. -/
def encodeNumbers (key : PublicKey) : List UInt8 :=
  encodeSequence [encodeInteger key.modulus, encodeInteger key.exponent]

/-- The key as a SubjectPublicKeyInfo document. -/
def encodeInfo (key : PublicKey) : List UInt8 :=
  encodeSequence
    [encodeSequence [encodeIdentifier rsaIdentifier, encodeNull],
      encodeBitString key.encodeNumbers]

/-! ## Reading PKCS #1 -/

def readNumbers (w : Window) : Except Der.Fault ((Nat × Nat) × Window) := do
  let (modulus, w) ← w.field Window.readInteger
  let (exponent, w) ← w.field Window.readInteger
  return ((modulus, exponent), w)

def decodeNumbers (bs : List UInt8) : Except KeyFault PublicKey :=
  match readDocument bs readNumbers with
  | .error fault => .error (.der fault)
  | .ok (modulus, exponent) => (ofNumbers modulus exponent).mapError fun _ => .malformed

/-! ## Reading SubjectPublicKeyInfo -/

/-- The parts of a SubjectPublicKeyInfo document: its algorithm with the parameters, and the
bytes of the key, of which the last has `unused` bits too many. -/
structure Info where
  algorithm : List UInt8
  parameters : Option (Tag × List UInt8)
  unused : UInt8
  key : List UInt8
  deriving DecidableEq, Repr

/-- Reads an algorithm's identifier and its parameters. -/
def readAlgorithm (w : Window) :
    Except Der.Fault ((List UInt8 × Option (Tag × List UInt8)) × Window) :=
  w.readSequence fun w => do
    let (algorithm, w) ← w.field Window.readIdentifier
    let (parameters, w) ← w.field Window.readOptional
    return ((algorithm, parameters), w)

/-- Reads the parts of a SubjectPublicKeyInfo document. -/
def readInfo (w : Window) : Except Der.Fault (Info × Window) := do
  let ((algorithm, parameters), w) ← w.field readAlgorithm
  let ((unused, key), w) ← w.readBitString
  return (⟨algorithm, parameters, unused, key⟩, w)

def decodeInfo (bs : List UInt8) : Except KeyFault PublicKey :=
  match readDocument bs readInfo with
  | .error fault => .error (.der fault)
  | .ok info =>
      if info.algorithm ≠ rsaIdentifier then .error .algorithm
      else
        match info.parameters with
        | none => .error .parametersMissing
        | some parameters =>
            if parameters ≠ (.null, []) ∨ info.unused ≠ 0 then .error .malformed
            else decodeNumbers info.key

/-! ## Texts -/

def infoLabel : String := "PUBLIC KEY"

def numbersLabel : String := "RSA PUBLIC KEY"

/-- The document in a PEM text of the given label. A text that holds no DER
sequence is refused whatever its label. -/
def documentOfText (label : String) (text : List Char) : Except KeyFault (List UInt8) :=
  match Pem.decode text with
  | .error fault => .error (.pem fault)
  | .ok pem =>
      match checkDocument pem.payload with
      | .error fault => .error (.der fault)
      | .ok () =>
          if pem.label = label.toList then .ok pem.payload
          else .error (.pem (.unexpectedLabel label))

/-- The key of a SubjectPublicKeyInfo text. -/
def ofInfoText (text : List Char) : Except KeyFault PublicKey :=
  (documentOfText infoLabel text).bind decodeInfo

/-- The key of a PKCS #1 text. -/
def ofNumbersText (text : List Char) : Except KeyFault PublicKey :=
  (documentOfText numbersLabel text).bind decodeNumbers

/-- The key of a text in either encoding. If it is in neither, the fault is
that of the SubjectPublicKeyInfo reading. -/
def ofText (text : List Char) : Except KeyFault PublicKey :=
  match ofInfoText text with
  | .ok key => .ok key
  | .error fault => (ofNumbersText text).mapError fun _ => fault

/-- The canonical SubjectPublicKeyInfo text of a key. -/
def toInfoText (key : PublicKey) : List Char := Pem.encode ⟨infoLabel.toList, key.encodeInfo⟩

/-- The canonical PKCS #1 text of a key. -/
def toNumbersText (key : PublicKey) : List Char :=
  Pem.encode ⟨numbersLabel.toList, key.encodeNumbers⟩

end PublicKey

end Sidecar
