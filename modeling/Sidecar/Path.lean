import Sidecar.Bytes
import Sidecar.Text.Utf8

/-!
# Sidecar.Path

Paths as byte sequences, and what their text alone says: components, the last
component, and the text before it.

A path is cut at its slashes into a first segment and the others. After the
first segment, empty ones and single dots stand for nothing; the first one is
the root if it is empty and others follow. No file is looked at:
`a/../b` has the three components `a`, `..` and `b`.
-/

namespace Sidecar

/-- A path: any bytes. -/
structure Path where
  bytes : List UInt8
  deriving DecidableEq, Repr

namespace Path

/-- The byte that separates segments. -/
def slash : UInt8 := 0x2F

/-- The byte that separates a stem and an extension. -/
def dot : UInt8 := 0x2E

/-- The path with the UTF-8 form of a text. -/
def ofText (text : List Char) : Path := ⟨Text.Utf8.encode text⟩

/-- The path as it is shown: ill-formed UTF-8 becomes U+FFFD, nothing is quoted. -/
def display (p : Path) : String := String.ofList (Text.Utf8.decodeLossy p.bytes)

/-! ## Segments -/

/-- A byte sequence cut at its slashes. -/
structure Segments where
  first : List UInt8
  others : List (List UInt8)
  deriving DecidableEq, Repr

/-- Cuts a byte sequence at its slashes. -/
def Segments.ofBytes : List UInt8 → Segments
  | [] => ⟨[], []⟩
  | b :: bs =>
      let s := ofBytes bs
      if b = slash then ⟨[], s.first :: s.others⟩ else ⟨b :: s.first, s.others⟩

/-- The segments joined by slashes. -/
def Segments.toBytes (s : Segments) : List UInt8 := s.first ++ s.others.flatMap (slash :: ·)

def segments (p : Path) : Segments := .ofBytes p.bytes

/-- Cutting loses nothing. -/
theorem toBytes_ofBytes (bs : List UInt8) : (Segments.ofBytes bs).toBytes = bs := by
  induction bs with
  | nil => rfl
  | cons b bs ih =>
      by_cases h : b = slash
      · simpa [Segments.ofBytes, Segments.toBytes, h] using ih
      · simpa [Segments.ofBytes, Segments.toBytes, h] using ih

def isAbsolute (p : Path) : Bool := p.segments.first == [] && p.segments.others != []

/-- Whether a segment after the first stands for nothing: it is empty or a single dot. -/
def isVoid (segment : List UInt8) : Bool := segment == [] || segment == [dot]

/-- Drops the segments at the end that stand for nothing. -/
def dropVoidEnd (segments : List (List UInt8)) : List (List UInt8) :=
  (segments.reverse.dropWhile isVoid).reverse

/-! ## Components -/

/-- A component of a path: the root, at the front of an absolute path; a single dot, at the
front of a relative one; two dots; or the name of an entry. -/
inductive Component where
  | root
  | current
  | parent
  | name (bytes : List UInt8)
  deriving DecidableEq, Repr

/-- The component that a segment stands for. -/
def Component.ofSegment (segment : List UInt8) : Component :=
  if segment = [dot] then .current
  else if segment = [dot, dot] then .parent
  else .name segment

/-- The component that the first segment stands for, if any. -/
def Segments.leading (s : Segments) : List Component :=
  if s.first = [] then (if s.others = [] then [] else [.root]) else [.ofSegment s.first]

/-- The components of a path, in order. -/
def components (p : Path) : List Component :=
  p.segments.leading ++
    (p.segments.others.filter fun segment => !isVoid segment).map Component.ofSegment

/-! ## The last component -/

/-- The text before the last component, and the last component's text. The text
before ends with the component before the last; it is empty if there is none. -/
def splitLast (p : Path) : List UInt8 × List UInt8 :=
  match p.segments.others.reverse.dropWhile isVoid with
  | [] => ([], p.segments.first)
  | last :: before =>
      match p.segments.first, before.dropWhile isVoid with
      | [], [] => ([slash], last)
      | first, others => ((Segments.mk first others.reverse).toBytes, last)

/-- The text before the last component. -/
def parentText (p : Path) : List UInt8 := p.splitLast.1

/-- The last component, if it is the name of an entry. -/
def fileName? (p : Path) : Option (List UInt8) :=
  let last := p.splitLast.2
  if isVoid last || last == [dot, dot] then none else some last

/-- A name up to its last dot; the whole name if it has no dot, or only one at its front. -/
def stem (name : List UInt8) : List UInt8 :=
  match name.reverse.dropWhile (· != dot) with
  | _ :: b :: before => (b :: before).reverse
  | _ => name

/-! ## Joining -/

/-- The path of an entry of a directory: one slash between, unless the
directory's text is empty or ends with a slash. -/
def join (directory name : List UInt8) : List UInt8 :=
  if directory = [] ∨ directory.getLast? = some slash then directory ++ name
  else directory ++ slash :: name

end Path

end Sidecar
