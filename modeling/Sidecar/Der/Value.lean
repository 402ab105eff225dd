import Sidecar.Der.Encoding
import Sidecar.Der.Window

/-!
# Sidecar.Der.Value

Readers of DER values. Each accepts canonical encodings only: lengths in their
shortest form, integers without redundant leading bytes, sequences without
bytes after their last part.
-/

namespace Sidecar.Der

/-! ## Headers -/

def Tag.ofByte (byte : UInt8) : Except Cause Tag :=
  if byte &&& 0x1F = 0x1F then .error .tagNumber
  else if (universalName? byte).isSome || 0x40 ≤ byte then .ok ⟨byte⟩
  else .error (.unknownTag byte)

namespace Window

def readTag (w : Window) : Except Fault (Tag × Window) := do
  let (byte, w) ← w.readByte
  match Tag.ofByte byte with
  | .ok tag => return (tag, w)
  | .error cause => .error (w.fault cause)

def readLength (w : Window) (tag : Tag) : Except Fault (Nat × Window) := do
  let (byte, w) ← w.readByte
  if byte < 0x80 then return (byte.toNat, w)
  else if byte = 0x80 then .error (w.fault .indefiniteLength)
  else if 0x84 < byte then .error (w.fault (.length tag))
  else
    let (digits, w) ← w.readBytes (byte.toNat - 0x80)
    let n := natOfBytes digits
    if maxLength < n then .error (w.fault .overflow)
    else if encodeLength n = byte :: digits then return (n, w)
    else .error (w.fault (.length tag))

def readHeader (w : Window) : Except Fault (Tag × Nat × Window) := do
  let (tag, w) ← w.readTag
  let (n, w) ← w.readLength tag
  return (tag, n, w)

/-- Reads the header of a value of the given tag. -/
def readHeaderOf (w : Window) (expected : Tag) : Except Fault (Nat × Window) := do
  let (tag, n, w) ← w.readHeader
  if tag = expected then return (n, w) else .error (w.fault (.unexpectedTag expected tag))

/-! ## Values -/

/-- Reads a sequence, whose contents `read` takes. -/
def readSequence (w : Window) (read : Window → Except Fault (α × Window)) :
    Except Fault (α × Window) := do
  let (n, w) ← w.readHeaderOf .sequence
  w.nested n read

/-- Reads a number that is not negative. -/
def readInteger (w : Window) : Except Fault (Nat × Window) := do
  let (n, w) ← w.readHeaderOf .integer
  let (bytes, w) ← w.read n
  match bytes with
  | [] => .error (w.fault (.noncanonical .integer))
  | [b] => if b < 0x80 then return (b.toNat, w) else .error (w.fault (.value .integer))
  | b :: b' :: _ =>
      if b = 0 ∧ b' < 0x80 then .error (w.fault (.noncanonical .integer))
      else if b < 0x80 then return (natOfBytes bytes, w)
      else .error (w.fault (.value .integer))

/-- Whether bytes are whole numbers to base 128 of at most 32 bits each, `count`
bytes of the first one having been read. -/
def arcsFit (count : Nat) : List UInt8 → Bool
  | [] => count == 0
  | b :: bs =>
      if 4 ≤ count && b &&& 0xF0 != 0 then false
      else arcsFit (if b < 0x80 then 0 else count + 1) bs

/-- Whether bytes are the contents of an object identifier: at least three
bytes, the first for two arcs, the others for the arcs after them. -/
def isIdentifier (bytes : List UInt8) : Bool :=
  match bytes with
  | b :: bs => 2 ≤ bs.length && b < 120 && arcsFit 0 bs
  | [] => false

def maxIdentifierLength : Nat := 39

/-- Reads the contents of an object identifier. -/
def readIdentifier (w : Window) : Except Fault (List UInt8 × Window) := do
  let (n, w) ← w.readHeaderOf .objectIdentifier
  if maxIdentifierLength < n then .error (w.fault (.length .objectIdentifier))
  else
    let (bytes, w) ← w.read n
    if isIdentifier bytes then return (bytes, w) else .error (w.fault .malformedIdentifier)

/-- Reads a bit string: the number of unused bits in its last byte, and its bytes. -/
def readBitString (w : Window) : Except Fault ((UInt8 × List UInt8) × Window) := do
  let (n, w) ← w.readHeaderOf .bitString
  if n = 0 then .error (w.fault .overflow)
  else
    let (unused, w) ← w.readByte
    let (bytes, w) ← w.read (n - 1)
    if 7 < unused ∨ unused ≠ 0 ∧ bytes = [] then .error (w.fault (.value .bitString))
    else return ((unused, bytes), w)

/-- Reads a value of any tag, if there is one. -/
def readOptional (w : Window) : Except Fault (Option (Tag × List UInt8) × Window) :=
  match w.rest with
  | [] => .ok (none, w)
  | b :: _ =>
      match Tag.ofByte b with
      | .error cause => .error (w.fault cause)
      | .ok _ => do
          let (tag, n, w) ← w.readHeader
          let (bytes, w) ← w.read n
          return (some (tag, bytes), w)

end Window

/-! ## Documents -/

/-- Reads a document that is one sequence. -/
def readDocument (bs : List UInt8) (read : Window → Except Fault (α × Window)) :
    Except Fault α := do
  let (value, w) ← (Window.ofBytes bs).readSequence read
  w.finish
  return value

/-- Refuses a document that is not one sequence with nothing after it; the
contents of the sequence are not looked at. -/
def checkDocument (bs : List UInt8) : Except Fault Unit := do
  let w := Window.ofBytes bs
  let (n, body) ← w.readHeaderOf .sequence
  let (_, w) ← w.read (body.offset + n)
  w.finish

end Sidecar.Der
