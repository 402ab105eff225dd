import Sidecar.Der.Tag

/-!
# Sidecar.Der.Fault

Why a byte sequence is not the DER value that was expected.

A fault has a cause and, for some causes, a position. It also remembers how far
the reading had come, from which the readers of structures work out the
position that they report.
-/

namespace Sidecar.Der

/-- What is wrong with a DER value. The lengths of `incomplete` count from the start of the
document; `overflow` is of lengths that are larger than the largest supported one or smaller
than zero; `tagNumber` is of a tag whose number does not fit the identifier byte. A length
that is not in its shortest form is a fault of `length`, contents that are not in their only
form are one of `noncanonical`. -/
inductive Cause where
  | incomplete (expected actual : Nat)
  | trailing (decoded remaining : Nat)
  | overflow
  | tagNumber
  | unknownTag (byte : UInt8)
  | unexpectedTag (expected actual : Tag)
  | indefiniteLength
  | length (tag : Tag)
  | value (tag : Tag)
  | noncanonical (tag : Tag)
  | malformedIdentifier
  deriving DecidableEq, Repr

def Cause.message : Cause → String
  | .incomplete expected actual =>
      "ASN.1 DER message is incomplete: expected " ++ toString expected ++ ", actual " ++
        toString actual
  | .trailing decoded remaining =>
      "trailing data at end of DER message: decoded " ++ toString decoded ++ " bytes, " ++
        toString remaining ++ " bytes remaining"
  | .overflow => "integer overflow"
  | .tagNumber => "invalid tag number"
  | .unknownTag byte => "unknown/unsupported ASN.1 DER tag: 0x" ++ hex [byte]
  | .unexpectedTag expected actual =>
      "unexpected ASN.1 DER tag: expected " ++ expected.name ++ ", got " ++ actual.name
  | .indefiniteLength => "indefinite length disallowed"
  | .length tag => "incorrect length for " ++ tag.name
  | .value tag => "malformed ASN.1 DER value for " ++ tag.name
  | .noncanonical tag => "ASN.1 " ++ tag.name ++ " not canonically encoded as DER"
  | .malformedIdentifier => "malformed OID"

/-- A cause, the position where it is reported, if any, and how many bytes of the document
had been read where the reading stopped. -/
structure Fault where
  cause : Cause
  position : Option Nat
  stopped : Nat
  deriving DecidableEq, Repr

def Fault.message (f : Fault) : String :=
  match f.position with
  | some position => f.cause.message ++ " at DER byte " ++ toString position
  | none => f.cause.message

end Sidecar.Der
