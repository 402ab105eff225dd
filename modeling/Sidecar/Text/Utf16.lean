/-!
# Sidecar.Text.Utf16

UTF-16 over lists of 16-bit units, as systems with wide characters hand over
file names. Reading is strict: a surrogate that is not part of a pair, high
before low, is refused, so that a text has one wide form only.
-/

namespace Sidecar.Text.Utf16

/-! ## Writing -/

/-- The units of one character: one below U+10000, a surrogate pair above. -/
def encodeChar (c : Char) : List UInt16 :=
  if c.toNat < 0x10000 then [UInt16.ofNat c.toNat]
  else
    [UInt16.ofNat (0xD800 + (c.toNat - 0x10000) / 0x400),
      UInt16.ofNat (0xDC00 + (c.toNat - 0x10000) % 0x400)]

def encode (text : List Char) : List UInt16 := text.flatMap encodeChar

/-! ## Reading -/

/-- Whether a unit is the first half of a surrogate pair. -/
def isHigh (u : UInt16) : Bool := 0xD800 ≤ u && u ≤ 0xDBFF

/-- Whether a unit is the second half of a surrogate pair. -/
def isLow (u : UInt16) : Bool := 0xDC00 ≤ u && u ≤ 0xDFFF

def pair (high low : UInt16) : Char :=
  Char.ofNat (0x10000 + (high.toNat - 0xD800) * 0x400 + (low.toNat - 0xDC00))

/-- Reads a unit sequence as UTF-16; none where a surrogate stands alone. -/
def decode? : List UInt16 → Option (List Char)
  | [] => some []
  | [u] => if isHigh u || isLow u then none else some [Char.ofNat u.toNat]
  | u :: v :: us =>
      if isHigh u then
        if isLow v then (decode? us).map (pair u v :: ·) else none
      else if isLow u then none
      else (decode? (v :: us)).map (Char.ofNat u.toNat :: ·)

end Sidecar.Text.Utf16
