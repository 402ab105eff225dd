/-!
# Sidecar.Text.Base64

Base64 with padding: four characters for three bytes, a last group of one or
two bytes filled up with `=`. The reader accepts canonical text only: whole
groups, padding at the end alone, and no set bit that belongs to no byte.
-/

namespace Sidecar.Text.Base64

/-! ## Digits -/

/-- The character of a number below 64. -/
def digit (n : Nat) : Char :=
  if n < 26 then Char.ofNat (65 + n)
  else if n < 52 then Char.ofNat (71 + n)
  else if n < 62 then Char.ofNat (n - 4)
  else if n = 62 then '+'
  else '/'

def value? (c : Char) : Option Nat :=
  if 'A' ≤ c ∧ c ≤ 'Z' then some (c.toNat - 65)
  else if 'a' ≤ c ∧ c ≤ 'z' then some (c.toNat - 71)
  else if '0' ≤ c ∧ c ≤ '9' then some (c.toNat + 4)
  else if c = '+' then some 62
  else if c = '/' then some 63
  else none

/-! ## Writing -/

def encode : List UInt8 → List Char
  | [] => []
  | [a] => [digit (a.toNat / 4), digit (a.toNat % 4 * 16), '=', '=']
  | [a, b] =>
      [digit (a.toNat / 4), digit (a.toNat % 4 * 16 + b.toNat / 16), digit (b.toNat % 16 * 4), '=']
  | a :: b :: c :: bs =>
      digit (a.toNat / 4) :: digit (a.toNat % 4 * 16 + b.toNat / 16) ::
        digit (b.toNat % 16 * 4 + c.toNat / 64) :: digit (c.toNat % 64) :: encode bs

/-! ## Reading -/

/-- A last group of two characters and two signs of padding. -/
def decodeOne? (x y : Char) : Option (List UInt8) := do
  let x ← value? x
  let y ← value? y
  if y % 16 = 0 then return [UInt8.ofNat (x * 4 + y / 16)] else none

/-- A last group of three characters and one sign of padding. -/
def decodeTwo? (x y z : Char) : Option (List UInt8) := do
  let x ← value? x
  let y ← value? y
  let z ← value? z
  if z % 4 = 0 then return [UInt8.ofNat (x * 4 + y / 16), UInt8.ofNat (y % 16 * 16 + z / 4)]
  else none

/-- A full group of four characters. -/
def decodeThree? (x y z t : Char) : Option (List UInt8) := do
  let x ← value? x
  let y ← value? y
  let z ← value? z
  let t ← value? t
  return [UInt8.ofNat (x * 4 + y / 16), UInt8.ofNat (y % 16 * 16 + z / 4),
    UInt8.ofNat (z % 4 * 64 + t)]

/-- The bytes of a base64 text; none if it is not the one that `encode` writes. -/
def decode? : List Char → Option (List UInt8)
  | [] => some []
  | [x, y, '=', '='] => decodeOne? x y
  | [x, y, z, '='] => decodeTwo? x y z
  | x :: y :: z :: t :: cs => do
      let group ← decodeThree? x y z t
      let rest ← decode? cs
      return group ++ rest
  | _ => none

end Sidecar.Text.Base64
