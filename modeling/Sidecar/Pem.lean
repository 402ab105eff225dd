import Sidecar.Text.Base64

/-!
# Sidecar.Pem

PEM text: a payload in base64 between two boundaries that carry a label.

```
-----BEGIN label-----
lines of 64 characters, the last one as long as it needs to be
-----END label-----
```

Lines end with a carriage return and a line feed, or with either alone. Text
before the first boundary is passed over unless it holds a NUL; the text has to
end with the second one.
-/

namespace Sidecar

/-- A labelled payload. -/
structure Pem where
  label : List Char
  payload : List UInt8
  deriving DecidableEq, Repr

namespace Pem

/-! ## Faults -/

/-- Why a text is not PEM, or not of the label that was expected. `preamble` is of a text
without a first boundary, or with a NUL before it, `beginBoundary` of one that does not end
with the five dashes of a boundary, and `headers` of ill-formed base64 with a colon, which
hints at header lines. -/
inductive Fault where
  | preamble
  | label
  | beginBoundary
  | endBoundary
  | base64Length
  | base64Encoding
  | headers
  | unexpectedLabel (expected : String)
  deriving DecidableEq, Repr

def Fault.message : Fault → String
  | .preamble => "PEM preamble contains invalid data (NUL byte)"
  | .label => "PEM type label invalid"
  | .beginBoundary => "PEM error in pre-encapsulation boundary"
  | .endBoundary => "PEM error in post-encapsulation boundary"
  | .base64Length => "PEM Base64 error: invalid Base64 length"
  | .base64Encoding => "PEM Base64 error: invalid Base64 encoding"
  | .headers => "PEM headers disallowed by RFC7468"
  | .unexpectedLabel expected =>
      "unexpected PEM type label: expecting \"" ++ expected ++ "\""

/-! ## Lines -/

/-- The length of every base64 line but the last. -/
def lineWidth : Nat := 64

/-- What follows the line end at the front of a text. -/
def afterLineEnd? : List Char → Option (List Char)
  | '\r' :: '\n' :: cs => some cs
  | '\r' :: cs => some cs
  | '\n' :: cs => some cs
  | _ => none

/-- What precedes the line end at the back of a text. -/
def beforeLineEnd? (text : List Char) : Option (List Char) :=
  match text.reverse with
  | '\n' :: '\r' :: cs => some cs.reverse
  | '\n' :: cs => some cs.reverse
  | '\r' :: cs => some cs.reverse
  | _ => none

theorem length_lt_of_afterLineEnd? {text rest : List Char} (h : afterLineEnd? text = some rest) :
    rest.length < text.length := by
  unfold afterLineEnd? at h
  split at h
  · cases h; simp only [List.length_cons]; omega
  · cases h; simp
  · cases h; simp
  · cases h

/-- The lines of a base64 text: each is of full width and has a line end, but
for the last one, which may be shorter and may lack it. -/
def lines? (text : List Char) : Option (List (List Char)) :=
  if text = [] then some []
  else
    match text.drop lineWidth with
    | [] => some [(beforeLineEnd? text).getD text]
    | _ :: _ =>
        match _h : afterLineEnd? (text.drop lineWidth) with
        | none => none
        | some rest => (lines? rest).map (text.take lineWidth :: ·)
termination_by text.length
decreasing_by
  have := length_lt_of_afterLineEnd? _h
  simp at this
  omega

/-! ## Reading -/

/-- The payload of the text between the boundaries. -/
def decodeBody (text : List Char) : Except Fault (List UInt8) :=
  match lines? text with
  | none => .error .base64Encoding
  | some lines =>
      if lines.flatten = [] then .error .base64Length
      else if lines.getLast? = some [] ∧ lines.flatten.getLast? = some '=' then
        .error .base64Encoding
      else
        match Text.Base64.decode? lines.flatten with
        | none => .error .base64Encoding
        | some payload => .ok payload

/-- The front of the first boundary. -/
def beginMark : List Char := "-----BEGIN ".toList

/-- The front of the second boundary. -/
def endMark : List Char := "-----END ".toList

/-- The back of both boundaries. -/
def dashes : List Char := "-----".toList

/-- What follows the front of the first boundary that begins a line, with no NUL before it. -/
def skipPreamble? : List Char → Option (List Char)
  | [] => none
  | c :: cs =>
      if c = '\n' then
        match beginMark.isPrefixOf? cs with
        | some rest => some rest
        | none => skipPreamble? cs
      else if c = '\x00' then none
      else skipPreamble? cs

/-- What follows the front of the first boundary. -/
def afterBegin? (text : List Char) : Option (List Char) :=
  match beginMark.isPrefixOf? text with
  | some rest => some rest
  | none => skipPreamble? text

/-- Whether a label is made of visible characters and single blanks between
them; `blankAllowed` says whether a blank may come next. -/
def isLabel (blankAllowed : Bool) : List Char → Bool
  | [] => true
  | c :: cs =>
      if c = ' ' ∨ c = '\t' then blankAllowed && isLabel false cs
      else '!' ≤ c && c ≤ '~' && isLabel true cs

/-- Splits what follows the front of the first boundary into the label and the
text after the boundary's line. -/
def splitLabel? (text : List Char) : Option (List Char × List Char) := do
  let label := text.takeWhile (· != '-')
  if isLabel false label then
    let rest ← dashes.isPrefixOf? (text.dropWhile (· != '-'))
    let rest ← afterLineEnd? rest
    return (label, rest)
  else none

/-- What precedes the second boundary, of the given label and without its dashes. -/
def beforeEnd? (label text : List Char) : Option (List Char) := do
  let text ← label.isSuffixOf? text
  let text ← endMark.isSuffixOf? text
  beforeLineEnd? text

def decode (text : List Char) : Except Fault Pem :=
  match afterBegin? text with
  | none => .error .preamble
  | some rest =>
      match splitLabel? rest with
      | none => .error .label
      | some (label, rest) =>
          match dashes.isSuffixOf? rest with
          | none => .error .beginBoundary
          | some rest =>
              match beforeEnd? label rest with
              | none => .error .endBoundary
              | some body =>
                  match decodeBody body with
                  | .ok payload => .ok ⟨label, payload⟩
                  | .error .base64Encoding =>
                      .error (if text.contains ':' then .headers else .base64Encoding)
                  | .error fault => .error fault

/-! ## Writing -/

/-- Ends every line of full width, and the last one. -/
def wrap (text : List Char) : List Char :=
  if text = [] then []
  else text.take lineWidth ++ '\n' :: wrap (text.drop lineWidth)
termination_by text.length
decreasing_by
  have := List.length_pos_iff.mpr ‹_›
  simp [lineWidth]
  omega

/-- The canonical text: no preamble, line feeds as line ends. -/
def encode (pem : Pem) : List Char :=
  beginMark ++ pem.label ++ dashes ++ '\n' ::
    (wrap (Text.Base64.encode pem.payload) ++ endMark ++ pem.label ++ dashes ++ ['\n'])

end Pem

end Sidecar
