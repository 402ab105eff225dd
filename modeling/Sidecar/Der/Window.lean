import Sidecar.Der.Fault

/-!
# Sidecar.Der.Window

A window on a document: the bytes left of the value being read, how many bytes
of the document lie before them, and where the value's contents began. Values
are nested by opening a window on the front of another.

Every reader takes a window and gives what it read and the window after it.
-/

namespace Sidecar.Der

/-- The largest supported length: 28 bits. -/
def maxLength : Nat := 0xFFFFFFF

/-- What is left to read of a value's contents: `start` is where in the document the
contents begin, `offset` where `rest` does. -/
structure Window where
  start : Nat
  offset : Nat
  rest : List UInt8
  deriving DecidableEq, Repr

namespace Window

def ofBytes (bs : List UInt8) : Window := ⟨0, 0, bs⟩

def fault (w : Window) (cause : Cause) : Fault := ⟨cause, none, w.offset⟩

def faultAt (w : Window) (cause : Cause) (position : Nat) : Fault := ⟨cause, some position, w.offset⟩

/-- The fault of a window that holds fewer than `n` more bytes. -/
def shortage (w : Window) (n : Nat) : Fault :=
  if maxLength < w.offset + n then w.fault .overflow
  else w.faultAt (.incomplete (w.offset + n) (w.offset + w.rest.length)) w.offset

def read (w : Window) (n : Nat) : Except Fault (List UInt8 × Window) :=
  if n ≤ w.rest.length then .ok (w.rest.take n, ⟨w.start, w.offset + n, w.rest.drop n⟩)
  else .error (w.shortage n)

def readByte (w : Window) : Except Fault (UInt8 × Window) :=
  match w.rest with
  | b :: rest => .ok (b, ⟨w.start, w.offset + 1, rest⟩)
  | [] => .error (w.shortage 1)

/-- Reads `n` bytes one after the other. -/
def readBytes (w : Window) : (n : Nat) → Except Fault (List UInt8 × Window)
  | 0 => .ok ([], w)
  | n + 1 => do
      let (b, w) ← w.readByte
      let (bs, w) ← w.readBytes n
      return (b :: bs, w)

/-- Refuses a window with bytes left. -/
def finish (w : Window) : Except Fault Unit :=
  if w.rest = [] then .ok ()
  else .error (w.faultAt (.trailing (w.offset - w.start) w.rest.length) (w.offset - w.start))

/-- Reads a part of a structure. A fault's position is moved by the bytes of
the structure that had been read when it arose. -/
def field (w : Window) (read : Window → Except Fault (α × Window)) : Except Fault (α × Window) :=
  match read w with
  | .ok result => .ok result
  | .error f =>
      .error { f with position := some (f.stopped - w.start + f.position.getD 0) }

/-- Reads the next `n` bytes as contents of their own, all of which `read` has to use. -/
def nested (w : Window) (n : Nat) (read : Window → Except Fault (α × Window)) :
    Except Fault (α × Window) :=
  if n ≤ w.rest.length then do
    let (value, inner) ← read ⟨w.offset, w.offset, w.rest.take n⟩
    inner.finish
    return (value, ⟨w.start, w.offset + n, w.rest.drop n⟩)
  else .error (w.shortage n)

end Window

end Sidecar.Der
