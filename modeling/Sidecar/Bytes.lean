/-!
# Sidecar.Bytes

Byte sequences as lists: big-endian numbers of any length, fixed-width
big-endian numbers, hexadecimal text and ASCII literals.

A number and its bytes determine each other once the width is fixed:
`length_bytesOfNat` is the fact that the signature format builds on.
-/

namespace Sidecar

/-! ## Big-endian numbers -/

/-- The natural number whose big-endian digits to base 256 are the bytes. -/
def natOfBytes (bs : List UInt8) : Nat :=
  bs.foldl (fun value b => value * 256 + b.toNat) 0

/-- The last `width` big-endian bytes of a number; higher digits are dropped. -/
def bytesOfNat : (width : Nat) → Nat → List UInt8
  | 0, _ => []
  | width + 1, n => UInt8.ofNat (n >>> (8 * width)) :: bytesOfNat width n

@[simp] theorem length_bytesOfNat (width n : Nat) : (bytesOfNat width n).length = width := by
  induction width with
  | zero => rfl
  | succ width ih => simp [bytesOfNat, ih]

/-- The number of bytes in the shortest big-endian form, zero taking none. -/
def byteLength (n : Nat) : Nat := if n = 0 then 0 else n.log2 / 8 + 1

/-- The number of binary digits, zero having none. -/
def bitLength (n : Nat) : Nat := if n = 0 then 0 else n.log2 + 1

/-! ## Text -/

/-- The lower-case hexadecimal digit of a number below sixteen. -/
def hexDigit (n : Nat) : Char :=
  if n < 10 then Char.ofNat (48 + n) else Char.ofNat (87 + n)

/-- The two digits of each byte, in lower case. -/
def hex (bs : List UInt8) : String :=
  String.ofList (bs.flatMap fun b => [hexDigit (b.toNat / 16), hexDigit (b.toNat % 16)])

/-- The bytes of a text that holds ASCII characters only. -/
def ascii (text : String) : List UInt8 := text.toList.map Char.toUInt8

end Sidecar
