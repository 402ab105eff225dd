import Sidecar.CommandLine

/-!
# Sidecar.Proofs.CommandLine.Grammar

The grammar of command lines, as a type of lines with the arguments that each
consists of:

```
line   = option* command item* [ "--" path* ]
item   = option | path
option = "-q" | "--quiet" | "--key" file | "--key=" file
```

`Line.WellFormed` says what else has to hold of a line.
-/

namespace Sidecar.CommandLine

/-! ## Items -/

/-- Whether an argument is no option: it is a dash alone, or does not begin with one. -/
def Plain (arg : List UInt8) : Prop := arg = ascii "-" ∨ arg.head? ≠ some 0x2D

/-- What stands on one side of a command: the quiet option, as `--quiet` or as `-q`; the key
option, with its file attached by an equals sign or in an argument of its own; or a path. -/
inductive Item where
  | quiet (long : Bool)
  | key (attached : Bool) (file : List UInt8)
  | path (bytes : List UInt8)
  deriving DecidableEq, Repr

namespace Item

def args : Item → List (List UInt8)
  | .quiet true => [ascii "--quiet"]
  | .quiet false => [ascii "-q"]
  | .key true file => [ascii "--key=" ++ file]
  | .key false file => [ascii "--key", file]
  | .path bytes => [bytes]

@[simp] def isQuiet : Item → Bool
  | .quiet _ => true
  | _ => false

@[simp] def key? : Item → Option Path
  | .key _ file => some ⟨file⟩
  | _ => none

@[simp] def path? : Item → Option Path
  | .path bytes => some ⟨bytes⟩
  | _ => none

/-- Whether what could be taken for an option is none. -/
def Unambiguous : Item → Prop
  | .quiet _ | .key true _ => True
  | .key false bytes | .path bytes => Plain bytes

/-- Whether the file or the path is there. -/
def NonEmpty : Item → Prop
  | .quiet _ => True
  | .key _ bytes | .path bytes => bytes ≠ []

end Item

/-! ## Lines -/

/-- Whether the number of paths is right for a command. -/
def Verb.Takes : Verb → (count : Nat) → Prop
  | .verify, count | .hash, count => 1 ≤ count
  | .signaturePath, count => count = 1
  | .keyInfo, count => count = 0

/-- A command line: the items on either side of its verb, and the arguments after `--`, if
that is there. -/
structure Line where
  before : List Item
  verb : Verb
  after : List Item
  rest : Option (List (List UInt8))
  deriving DecidableEq, Repr

/-- The arguments from `--` on. -/
def trailer : Option (List (List UInt8)) → List (List UInt8)
  | none => []
  | some rest => ascii "--" :: rest

namespace Line

def args (line : Line) : List (List UInt8) :=
  line.before.flatMap Item.args ++
    ascii line.verb.name :: (line.after.flatMap Item.args ++ trailer line.rest)

def paths (line : Line) : List Path :=
  line.after.filterMap Item.path? ++ (line.rest.getD []).map Path.mk

/-- Whether options alone stand before the command and each option at most once
on either side, values can be told from options and are not empty, and there are
as many paths as the command takes. -/
structure WellFormed (line : Line) : Prop where
  unambiguous : ∀ item ∈ line.before ++ line.after, item.Unambiguous
  nonEmpty : ∀ item ∈ line.before ++ line.after, item.NonEmpty
  rest_nonEmpty : [] ∉ line.rest.getD []
  path_before : line.before.filterMap Item.path? = []
  quiet_before : line.before.countP Item.isQuiet ≤ 1
  quiet_after : line.after.countP Item.isQuiet ≤ 1
  key_before : (line.before.filterMap Item.key?).length ≤ 1
  key_after : (line.after.filterMap Item.key?).length ≤ 1
  count : line.verb.Takes line.paths.length

end Line

/-! ## Commands -/

def Command.paths : Command → List Path
  | .verify paths | .hash paths => paths
  | .signaturePath path => [path]
  | .keyInfo => []

def Command.verb : Command → Verb
  | .verify _ => .verify
  | .signaturePath _ => .signaturePath
  | .hash _ => .hash
  | .keyInfo => .keyInfo

end Sidecar.CommandLine
