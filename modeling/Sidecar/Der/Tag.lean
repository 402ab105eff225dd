import Sidecar.Bytes

/-!
# Sidecar.Der.Tag

The identifier byte of a DER value: its class, whether it is constructed, and
its number, all in one byte. A number of 31 would continue in further bytes and
is not a tag here; among the universal ones only those with a name are.
-/

namespace Sidecar.Der

/-- An identifier byte. -/
structure Tag where
  byte : UInt8
  deriving DecidableEq, Repr

namespace Tag

def integer : Tag := ⟨0x02⟩
def bitString : Tag := ⟨0x03⟩
def null : Tag := ⟨0x05⟩
def objectIdentifier : Tag := ⟨0x06⟩
def sequence : Tag := ⟨0x30⟩

/-- The name of a universal tag. -/
def universalName? (byte : UInt8) : Option String :=
  match byte with
  | 0x01 => some "BOOLEAN"
  | 0x02 => some "INTEGER"
  | 0x03 => some "BIT STRING"
  | 0x04 => some "OCTET STRING"
  | 0x05 => some "NULL"
  | 0x06 => some "OBJECT IDENTIFIER"
  | 0x09 => some "REAL"
  | 0x0A => some "ENUMERATED"
  | 0x0C => some "UTF8String"
  | 0x12 => some "NumericString"
  | 0x13 => some "PrintableString"
  | 0x14 => some "TeletexString"
  | 0x15 => some "VideotexString"
  | 0x16 => some "IA5String"
  | 0x17 => some "UTCTime"
  | 0x18 => some "GeneralizedTime"
  | 0x1A => some "VisibleString"
  | 0x1E => some "BMPString"
  | 0x30 => some "SEQUENCE"
  | 0x31 => some "SET"
  | _ => none

def className (byte : UInt8) : String :=
  if byte < 0x80 then "APPLICATION"
  else if byte < 0xC0 then "CONTEXT-SPECIFIC"
  else "PRIVATE"

/-- The tag in words: a universal name, or the class, the number and the form. -/
def name (t : Tag) : String :=
  match universalName? t.byte with
  | some name => name
  | none =>
      className t.byte ++ " [" ++ toString (t.byte &&& 0x1F).toNat ++ "] (" ++
        (if t.byte &&& 0x20 = 0 then "primitive" else "constructed") ++ ")"

end Tag

end Sidecar.Der
