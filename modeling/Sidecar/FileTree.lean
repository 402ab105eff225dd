import Sidecar.Handle

/-!
# Sidecar.FileTree

A tree of files, directories and symbolic links, and where a path leads in it.

A location is the list of names from the root to an entry: `Entry.find?` looks
one up and `Entry.alter` changes what stands there. A path is followed name by
name (`walk`): a dot stays, two dots go back, a link is replaced by its target.
What happens at the last name depends on what the path is followed for
(`Purpose`). Following ends: each step uses up a name or one of the forty links
that a path may go through.
-/

namespace Sidecar

/-- The name of an entry in its directory. -/
abbrev Name := List UInt8

/-- The names from the root to an entry. -/
abbrev Location := List Name

/-- What stands at a location. -/
inductive Entry where
  | file (content : List UInt8)
  | link (target : Path)
  | directory (children : List (Name × Entry))

namespace Entry

def isDirectory : Entry → Bool
  | directory _ => true
  | _ => false

/-- What stands at a location below an entry. -/
def find? : Entry → Location → Option Entry
  | e, [] => some e
  | directory children, name :: rest => (children.lookup name).bind (·.find? rest)
  | _, _ :: _ => none

/-- Changes what stands at a location; the change is given nothing where nothing
stands. Without the directory of its last name all stays as it is. -/
def alter (change : Option Entry → Option Entry) : Location → Option Entry → Option Entry
  | [], e => change e
  | name :: rest, some (directory children) =>
      let others := children.filter (·.1 != name)
      match alter change rest (children.lookup name) with
      | some child => some (directory ((name, child) :: others))
      | none => some (directory others)
  | _ :: _, e => e

end Entry

/-- What a directory holds. -/
abbrev Children := List (Name × Entry)

/-- What the root holds, and the directory where relative paths start. -/
structure FileTree where
  root : Children
  workingDirectory : Location

/-! ## Names of a path -/

namespace Path

def endsWithSlash (p : Path) : Bool := p.bytes.getLast? == some slash

def segmentNames (p : Path) : List Name :=
  (p.segments.first :: p.segments.others).filter (· != [])

/-- The names to follow. A slash at the end asks for a directory; the empty name stands for it. -/
def names (p : Path) : List Name :=
  p.segmentNames ++ if p.endsWithSlash then [[]] else []

/-- What a path ends with, be it a dot; slashes after it do not count. -/
def lastComponent (p : Path) : Component :=
  (p.segmentNames.getLast?.map .ofSegment).getD .root

def maxNameLength : Nat := 255

def maxLength : Nat := 4095

/-- The most links that a path may go through. -/
def maxLinks : Nat := 40

/-- Refuses a path with a NUL in it, which no call takes. -/
def refuseNul (p : Path) : Except IoError Unit :=
  if p.bytes.contains 0 then
    .error (.described "file name contained an unexpected NUL byte" .invalidInput)
  else .ok ()

/-- Refuses an empty path and one that is too long. -/
def refuseSize (p : Path) : Except IoError Unit :=
  if p.bytes = [] then .error .notFound
  else if maxLength < p.bytes.length then .error .nameTooLong
  else .ok ()

end Path

namespace FileTree

/-! ## Entries -/

/-- The tree with one empty directory, below the root, where relative paths start. -/
def empty : FileTree :=
  let home := ascii "home"
  ⟨[(home, .directory [])], [home]⟩

def entry? (t : FileTree) (location : Location) : Option Entry :=
  (Entry.directory t.root).find? location

/-- The tree with an entry put at a location, or with none there. The root is always a directory. -/
def set (t : FileTree) (location : Location) (entry : Option Entry) : FileTree :=
  match Entry.alter (fun _ => entry) location (some (.directory t.root)) with
  | some (.directory children) => { t with root := children }
  | _ => { t with root := [] }

def put (t : FileTree) (location : Location) (entry : Entry) : FileTree :=
  t.set location (some entry)

/-- The tree without a location and what is below it. -/
def erase (t : FileTree) (location : Location) : FileTree := t.set location none

/-! ## Following a path -/

/-- Where a path leads: to an entry, or to a name that its directory does not have. -/
inductive Place where
  | occupied (location : Location) (entry : Entry)
  | vacant (directory : Location) (name : Name)

/-- What a path is followed for: the entry itself, so that a link at the end is kept; what
stands there; or to make a file there if none is. Then no slash may come after the last
name, neither in the path nor in a link's target. -/
inductive Purpose where
  | inspect
  | use
  | create
  deriving DecidableEq, Repr

/-- The directories on the way from the root, innermost first: the name and what is in it. -/
abbrev Trail := List (Name × Children)

/-- The names along a trail, from the root. -/
def Trail.location (trail : Trail) : Location := (trail.map Prod.fst).reverse

/-- What the directory at the end of a trail holds. -/
def standing (t : FileTree) (trail : Trail) : Children := trail.head?.elim t.root Prod.snd

/-- Follows names from the end of a trail, through at most `links` links. -/
def walk (t : FileTree) (purpose : Purpose) (links : Nat) (trail : Trail) :
    List Name → Except IoError Place
  | [] => .ok (.occupied (Trail.location trail) (.directory (t.standing trail)))
  | name :: rest =>
      if name = [] ∨ name = [Path.dot] then t.walk purpose links trail rest
      else if name = [Path.dot, Path.dot] then t.walk purpose links trail.tail rest
      else if purpose = .create ∧ rest ≠ [] ∧ rest.all (· = []) then .error .isDirectory
      else if Path.maxNameLength < name.length then .error .nameTooLong
      else
        match (t.standing trail).lookup name with
        | none => if rest = [] then .ok (.vacant (Trail.location trail) name) else .error .notFound
        | some (.directory children) => t.walk purpose links ((name, children) :: trail) rest
        | some (.file content) =>
            if rest = [] then .ok (.occupied (Trail.location trail ++ [name]) (.file content))
            else .error .notDirectory
        | some (.link target) =>
            if purpose = .inspect ∧ rest = [] then
              .ok (.occupied (Trail.location trail ++ [name]) (.link target))
            else
              match links with
              | 0 => .error .tooManyLinks
              | links + 1 =>
                  t.walk purpose links (if target.isAbsolute then [] else trail)
                    (target.names ++ rest)
termination_by names => (links, names.length)

/-- Follows names from where a path starts. -/
def follow (t : FileTree) (purpose : Purpose) (p : Path) (names : List Name) :
    Except IoError Place :=
  t.walk purpose Path.maxLinks [] ((if p.isAbsolute then [] else t.workingDirectory) ++ names)

/-- Where a path leads, from its start to its last name. -/
def locate (t : FileTree) (purpose : Purpose) (p : Path) : Except IoError Place := do
  p.refuseNul
  p.refuseSize
  t.follow purpose p p.names

/-- What opening a path for reading gives: a file's content, or a directory,
whose reading fails. -/
def opener (t : FileTree) : Opener := fun p =>
  match t.locate .use p with
  | .error e => .error e
  | .ok (.vacant _ _) => .error .notFound
  | .ok (.occupied _ (.file content)) => .ok (.file content)
  | .ok (.occupied _ _) => .ok (.unreadable .directory)

end FileTree

end Sidecar
