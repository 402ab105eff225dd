import Sidecar.Bytes

/-!
# Sidecar.Sha256

The SHA-256 hash function, in two forms: `digest` takes a whole message, pads it
and folds its blocks; a `Hasher` takes a message piece by piece and keeps the
bytes that do not fill a block yet.

```
digest m  =  ((blocks (m ++ padding m.length)).foldl compress initial).digest
```

Words are 32-bit and every sum is taken modulo 2^32.
-/

namespace Sidecar.Sha256

/-! ## Digests -/

/-- A hash value: 32 bytes. -/
structure Digest where
  bytes : List UInt8
  length_bytes : bytes.length = 32
  deriving DecidableEq

instance : Repr Digest := ⟨fun d _ => hex d.bytes⟩

def Digest.hex (d : Digest) : String := Sidecar.hex d.bytes

/-! ## Constants -/

/-- The first 32 bits of the fractional parts of the cube roots of the first 64 primes. -/
def roundConstants : List UInt32 :=
  [0x428a2f98, 0x71374491, 0xb5c0fbcf, 0xe9b5dba5, 0x3956c25b, 0x59f111f1, 0x923f82a4, 0xab1c5ed5,
   0xd807aa98, 0x12835b01, 0x243185be, 0x550c7dc3, 0x72be5d74, 0x80deb1fe, 0x9bdc06a7, 0xc19bf174,
   0xe49b69c1, 0xefbe4786, 0x0fc19dc6, 0x240ca1cc, 0x2de92c6f, 0x4a7484aa, 0x5cb0a9dc, 0x76f988da,
   0x983e5152, 0xa831c66d, 0xb00327c8, 0xbf597fc7, 0xc6e00bf3, 0xd5a79147, 0x06ca6351, 0x14292967,
   0x27b70a85, 0x2e1b2138, 0x4d2c6dfc, 0x53380d13, 0x650a7354, 0x766a0abb, 0x81c2c92e, 0x92722c85,
   0xa2bfe8a1, 0xa81a664b, 0xc24b8b70, 0xc76c51a3, 0xd192e819, 0xd6990624, 0xf40e3585, 0x106aa070,
   0x19a4c116, 0x1e376c08, 0x2748774c, 0x34b0bcb5, 0x391c0cb3, 0x4ed8aa4a, 0x5b9cca4f, 0x682e6ff3,
   0x748f82ee, 0x78a5636f, 0x84c87814, 0x8cc70208, 0x90befffa, 0xa4506ceb, 0xbef9a3f7, 0xc67178f2]

/-- The eight words that are carried from block to block. -/
structure State where
  (a b c d e f g h : UInt32)
  deriving DecidableEq, Repr

/-- The first 32 bits of the fractional parts of the square roots of the first 8 primes. -/
def State.initial : State :=
  ⟨0x6a09e667, 0xbb67ae85, 0x3c6ef372, 0xa54ff53a, 0x510e527f, 0x9b05688c, 0x1f83d9ab, 0x5be0cd19⟩

/-! ## Words -/

/-- Rotates a word right by `n` bits, `0 < n < 32`. -/
def rotr (x : UInt32) (n : UInt32) : UInt32 := (x >>> n) ||| (x <<< (32 - n))

/-- The mixing of a schedule word fifteen places back. -/
def scheduleNear (x : UInt32) : UInt32 := rotr x 7 ^^^ rotr x 18 ^^^ (x >>> 3)

/-- The mixing of a schedule word two places back. -/
def scheduleFar (x : UInt32) : UInt32 := rotr x 17 ^^^ rotr x 19 ^^^ (x >>> 10)

/-- The big-endian words of a byte sequence; bytes that fill no word are dropped. -/
def words : List UInt8 → List UInt32
  | b₀ :: b₁ :: b₂ :: b₃ :: bs =>
      (b₀.toUInt32 <<< 24 ||| b₁.toUInt32 <<< 16 ||| b₂.toUInt32 <<< 8 ||| b₃.toUInt32) :: words bs
  | _ => []

/-- Mixes `count` more words out of the last sixteen, the latest word first. -/
def extendSchedule : (count : Nat) → List UInt32 → List UInt32
  | 0, ws => ws
  | count + 1, ws =>
      extendSchedule count
        ((scheduleFar (ws.getD 1 0) + ws.getD 6 0 + scheduleNear (ws.getD 14 0) + ws.getD 15 0)
          :: ws)

/-- The message schedule: the sixteen words of a block and forty-eight mixed from them. -/
def schedule (block : List UInt8) : List UInt32 := (extendSchedule 48 (words block).reverse).reverse

/-! ## Compression -/

/-- One round: a constant and a schedule word are stirred into the state. -/
def State.round (s : State) (constant word : UInt32) : State :=
  let choice := (s.e &&& s.f) ^^^ (~~~s.e &&& s.g)
  let majority := (s.a &&& s.b) ^^^ (s.a &&& s.c) ^^^ (s.b &&& s.c)
  let sum := s.h + (rotr s.e 6 ^^^ rotr s.e 11 ^^^ rotr s.e 25) + choice + constant + word
  ⟨sum + (rotr s.a 2 ^^^ rotr s.a 13 ^^^ rotr s.a 22) + majority,
    s.a, s.b, s.c, s.d + sum, s.e, s.f, s.g⟩

def State.add (s t : State) : State :=
  ⟨s.a + t.a, s.b + t.b, s.c + t.c, s.d + t.d, s.e + t.e, s.f + t.f, s.g + t.g, s.h + t.h⟩

/-- Takes a block of 64 bytes into the state. -/
def State.compress (s : State) (block : List UInt8) : State :=
  s.add ((roundConstants.zip (schedule block)).foldl (fun t (k, w) => t.round k w) s)

/-- The four big-endian bytes of a word. -/
def wordBytes (w : UInt32) : List UInt8 :=
  [(w >>> 24).toUInt8, (w >>> 16).toUInt8, (w >>> 8).toUInt8, w.toUInt8]

/-- The state as a hash value. -/
def State.digest (s : State) : Digest where
  bytes := wordBytes s.a ++ wordBytes s.b ++ wordBytes s.c ++ wordBytes s.d ++
    wordBytes s.e ++ wordBytes s.f ++ wordBytes s.g ++ wordBytes s.h
  length_bytes := by simp [wordBytes]

/-! ## Whole messages -/

/-- The full blocks of 64 bytes at the front of a byte sequence. -/
def blocks (bs : List UInt8) : List (List UInt8) :=
  if (bs.take 64).length = 64 then bs.take 64 :: blocks (bs.drop 64) else []
termination_by bs.length
decreasing_by simp_all; omega

/-- What follows a message of `length` bytes: a one bit, zeros up to the last
eight bytes of a block, and the length in bits. -/
def padding (length : Nat) : List UInt8 :=
  0x80 :: List.replicate ((119 - length % 64) % 64) 0 ++ bytesOfNat 8 (8 * length)

/-- The hash value of a message. -/
def digest (message : List UInt8) : Digest :=
  ((blocks (message ++ padding message.length)).foldl State.compress State.initial).digest

/-! ## Messages in pieces -/

/-- The hash of the message so far: the state after its full blocks, the bytes
after them, and the message's length. -/
structure Hasher where
  state : State
  pending : List UInt8
  length : Nat
  deriving DecidableEq, Repr

/-- The hasher of the empty message. -/
def Hasher.empty : Hasher := ⟨State.initial, [], 0⟩

/-- Continues the message with more bytes. -/
def Hasher.update (h : Hasher) (bs : List UInt8) : Hasher :=
  let buffer := h.pending ++ bs
  { state := (blocks buffer).foldl State.compress h.state
    pending := buffer.drop (64 * (buffer.length / 64))
    length := h.length + bs.length }

def Hasher.finish (h : Hasher) : Digest :=
  ((blocks (h.pending ++ padding h.length)).foldl State.compress h.state).digest

end Sidecar.Sha256
