/-!
# Sidecar.Text.Utf8

UTF-8 over byte lists: a writer, a strict reader that says where and how a
sequence is ill formed, and a reader for display that puts U+FFFD in place of
each ill-formed part.

Both readers take one step at a time (`front`): the first byte fixes the number
of continuation bytes and the range of the first of them, so overlong forms,
surrogates and numbers above U+10FFFF are refused at the earliest byte that
rules them out.
-/

namespace Sidecar.Text.Utf8

/-! ## Writing -/

def encode (text : List Char) : List UInt8 := text.flatMap String.utf8EncodeChar

/-! ## One character -/

/-- What stands at the front of a byte sequence: a character of `width` bytes, or an
ill-formed part, the longest that could still begin one, or the sequence ends inside a
character. -/
inductive Front where
  | char (c : Char) (width : Nat)
  | invalid (width : Nat)
  | truncated
  deriving DecidableEq, Repr

/-- Reads the continuation bytes of a character: `value` and `width` are what
the bytes before gave, the next byte has to lie between `low` and `high`, and
those after it anywhere among the continuation bytes. -/
def continuation (value width : Nat) (low high : UInt8) : (count : Nat) → List UInt8 → Front
  | 0, _ => .char (Char.ofNat value) width
  | _ + 1, [] => .truncated
  | count + 1, b :: bs =>
      if low ≤ b ∧ b ≤ high then
        continuation (value * 64 + (b.toNat - 0x80)) (width + 1) 0x80 0xBF count bs
      else .invalid width

/-- Reads the character that begins with `b`, the bytes after it being `bs`. -/
def front (b : UInt8) (bs : List UInt8) : Front :=
  if b < 0x80 then .char (Char.ofNat b.toNat) 1
  else if b < 0xC2 then .invalid 1
  else if b < 0xE0 then continuation (b.toNat - 0xC0) 1 0x80 0xBF 1 bs
  else if b = 0xE0 then continuation 0x0 1 0xA0 0xBF 2 bs
  else if b = 0xED then continuation 0xD 1 0x80 0x9F 2 bs
  else if b < 0xF0 then continuation (b.toNat - 0xE0) 1 0x80 0xBF 2 bs
  else if b = 0xF0 then continuation 0x0 1 0x90 0xBF 3 bs
  else if b < 0xF4 then continuation (b.toNat - 0xF0) 1 0x80 0xBF 3 bs
  else if b = 0xF4 then continuation 0x4 1 0x80 0x8F 3 bs
  else .invalid 1

/-! ## Strict reading -/

/-- Why a byte sequence is not UTF-8: `width` bytes that no character has, or an end inside
a character. `index` counts the well-formed bytes before the fault. -/
inductive Fault where
  | invalid (index width : Nat)
  | truncated (index : Nat)
  deriving DecidableEq, Repr

def Fault.message : Fault → String
  | .invalid index width =>
      "invalid utf-8 sequence of " ++ toString width ++ " bytes from index " ++ toString index
  | .truncated index => "incomplete utf-8 byte sequence from index " ++ toString index

/-- Reads UTF-8 that stands `index` bytes into a sequence. -/
def decodeFrom (index : Nat) : List UInt8 → Except Fault (List Char)
  | [] => .ok []
  | b :: bs =>
      match front b bs with
      | .char c width => (decodeFrom (index + width) (bs.drop (width - 1))).map (c :: ·)
      | .invalid width => .error (.invalid index width)
      | .truncated => .error (.truncated index)
termination_by bs => bs.length
decreasing_by simp only [List.length_drop, List.length_cons]; omega

/-- Reads a byte sequence as UTF-8, or says where it is none. -/
def decode (bs : List UInt8) : Except Fault (List Char) := decodeFrom 0 bs

/-! ## Reading for display -/

/-- Reads a byte sequence for display: each ill-formed part, as long as it can
be the beginning of a character, becomes one U+FFFD. -/
def decodeLossy : List UInt8 → List Char
  | [] => []
  | b :: bs =>
      match front b bs with
      | .char c width => c :: decodeLossy (bs.drop (width - 1))
      | .invalid width => '\uFFFD' :: decodeLossy (bs.drop (width - 1))
      | .truncated => ['\uFFFD']
termination_by bs => bs.length
decreasing_by all_goals simp only [List.length_drop, List.length_cons]; omega

end Sidecar.Text.Utf8
