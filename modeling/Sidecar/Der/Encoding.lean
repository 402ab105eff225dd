import Sidecar.Der.Tag

/-!
# Sidecar.Der.Encoding

The canonical bytes of DER values: identifier, shortest length, contents.
-/

namespace Sidecar.Der

/-! ## Headers -/

/-- The bytes of a length: one below 128, else their number and the big-endian digits. -/
def encodeLength (n : Nat) : List UInt8 :=
  if n < 0x80 then [UInt8.ofNat n]
  else UInt8.ofNat (0x80 + byteLength n) :: bytesOfNat (byteLength n) n

def encodeValue (tag : Tag) (contents : List UInt8) : List UInt8 :=
  tag.byte :: encodeLength contents.length ++ contents

/-! ## Values -/

/-- A natural number: the fewest bytes that leave the sign bit clear. -/
def encodeInteger (n : Nat) : List UInt8 :=
  encodeValue .integer (bytesOfNat (bitLength n / 8 + 1) n)

/-- A bit string of whole bytes. -/
def encodeBitString (bytes : List UInt8) : List UInt8 := encodeValue .bitString (0 :: bytes)

def encodeIdentifier (contents : List UInt8) : List UInt8 :=
  encodeValue .objectIdentifier contents

def encodeNull : List UInt8 := encodeValue .null []

def encodeSequence (values : List (List UInt8)) : List UInt8 :=
  encodeValue .sequence values.flatten

end Sidecar.Der
