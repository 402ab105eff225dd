import Sidecar.FileTree

/-!
# Sidecar.FileTree.Edit

Changes to a tree, each by paths and with the system's own failures: writing
and editing files, making directories and links, moving, copying, removing.
-/

namespace Sidecar

namespace FileTree

/-! ## Last names -/

/-- The directory that the last name of a path stands in. -/
def directoryOf (t : FileTree) (p : Path) : Except IoError Location := do
  match ← t.follow .use p (p.segmentNames.dropLast ++ [[]]) with
  | .occupied directory _ => return directory
  | .vacant _ _ => .error .notFound

def child? (t : FileTree) (directory : Location) (name : Name) : Except IoError (Option Entry) :=
  if Path.maxNameLength < name.length then .error .nameTooLong
  else .ok (t.entry? (directory ++ [name]))

/-! ## Files -/

/-- Creates a file, or replaces its content. -/
def write (t : FileTree) (p : Path) (content : List UInt8) : Except IoError FileTree := do
  match ← t.locate .create p with
  | .vacant directory name => return t.put (directory ++ [name]) (.file content)
  | .occupied location (.file _) => return t.put location (.file content)
  | .occupied _ _ => .error .isDirectory

/-- Changes the content of a file that exists. -/
def edit (t : FileTree) (p : Path) (change : List UInt8 → List UInt8) :
    Except IoError FileTree := do
  match ← t.locate .use p with
  | .vacant _ _ => .error .notFound
  | .occupied location (.file content) => return t.put location (.file (change content))
  | .occupied _ _ => .error .isDirectory

/-- Inverts one bit, counted from the lowest of the first byte; past the end nothing changes. -/
def flip (t : FileTree) (p : Path) (bit : Nat) : Except IoError FileTree :=
  t.edit p fun content => content.modify (bit / 8) (· ^^^ (1 <<< UInt8.ofNat (bit % 8)))

def append (t : FileTree) (p : Path) (bytes : List UInt8) : Except IoError FileTree :=
  t.edit p (· ++ bytes)

/-- Cuts a file to a length; a shorter one stays. -/
def truncate (t : FileTree) (p : Path) (length : Nat) : Except IoError FileTree :=
  t.edit p (·.take length)

/-- Copies a file's content to a path. The target is emptied before the source is
read, so a file copied to itself ends up empty. -/
def copy (t : FileTree) (source target : Path) : Except IoError FileTree := do
  match ← t.locate .use source with
  | .vacant _ _ => .error .notFound
  | .occupied location (.file _) =>
      let t ← t.write target []
      match t.entry? location with
      | some (.file content) => t.write target content
      | _ => return t
  | .occupied _ _ =>
      .error (.described
        "the source path is neither a regular file nor a symlink to a regular file" .invalidInput)

/-! ## Directories and links -/

/-- The location of a path's last name, which has to be free. -/
def freeLocation (t : FileTree) (p : Path) : Except IoError Location := do
  p.refuseSize
  let directory ← t.directoryOf p
  match p.lastComponent with
  | .name name =>
      if (← t.child? directory name).isSome then .error .alreadyExists
      else return directory ++ [name]
  | _ => .error .alreadyExists

/-- Makes a symbolic link under a name that is free. -/
def symlink (t : FileTree) (target p : Path) : Except IoError FileTree := do
  target.refuseNul
  p.refuseNul
  target.refuseSize
  let location ← t.freeLocation p
  if p.endsWithSlash then .error .notFound else return t.put location (.link target)

def isDirectory (t : FileTree) (p : Path) : Bool :=
  match t.locate .use p with
  | .ok (.occupied _ (.directory _)) => true
  | _ => false

/-- Makes a directory under a name that is free, or finds one there. -/
def ensureDirectory (t : FileTree) (p : Path) : Except IoError FileTree :=
  match (do p.refuseNul; t.freeLocation p) with
  | .ok location => .ok (t.put location (.directory []))
  | .error e => if t.isDirectory p then .ok t else .error e

end FileTree

/-! ## Directories above -/

namespace Path

/-- The bytes that segments after the first take, each with the slash before it. -/
def othersLength (segments : List (List UInt8)) : Nat := (segments.flatMap (slash :: ·)).length

theorem length_toBytes (s : Segments) :
    s.toBytes.length = s.first.length + othersLength s.others := by
  simp [Segments.toBytes, othersLength]

theorem othersLength_reverse (segments : List (List UInt8)) :
    othersLength segments.reverse = othersLength segments := by
  simp [othersLength, List.length_flatMap, List.sum_reverse]

theorem othersLength_dropWhile_le (test : List UInt8 → Bool) (segments : List (List UInt8)) :
    othersLength (segments.dropWhile test) ≤ othersLength segments := by
  induction segments with
  | nil => simp
  | cons s segments ih =>
      rw [List.dropWhile_cons]
      split
      · simp only [othersLength, List.flatMap_cons, List.length_append] at ih ⊢; omega
      · exact Nat.le_refl _

/-- The text before the last component is shorter than the path. -/
theorem length_parentText_lt {p : Path} (h : p.bytes ≠ []) :
    p.parentText.length < p.bytes.length := by
  have hbytes := length_toBytes p.segments
  rw [segments, toBytes_ofBytes] at hbytes
  unfold parentText splitLast
  split
  · exact List.length_pos_iff.mpr h
  · next last before hlast =>
    have hothers := othersLength_dropWhile_le isVoid p.segments.others.reverse
    rw [hlast, othersLength_reverse] at hothers
    have hvoid : isVoid last = false := by
      have :=
        List.head_dropWhile_not (p := isVoid) (l := p.segments.others.reverse) (by simp [hlast])
      simpa [hlast] using this
    have hpos : 0 < last.length :=
      List.length_pos_iff.mpr fun hnil => by simp [hnil, isVoid] at hvoid
    have hbefore := othersLength_dropWhile_le isVoid before
    have hcons : othersLength (last :: before) = last.length + 1 + othersLength before := by
      simp only [othersLength, List.flatMap_cons, List.length_append, List.length_cons]
    unfold segments at *
    split
    · simp; omega
    · rw [length_toBytes, othersLength_reverse]; dsimp only; omega

end Path

namespace FileTree

/-! ## Making directories -/

/-- Makes a directory and those above it that are missing; existing ones are
left alone. Those above stay also if the last one cannot be made. -/
def makeDirectories (t : FileTree) (p : Path) : FileTree × Option IoError :=
  if p.bytes = [] then (t, none)
  else
    match t.ensureDirectory p with
    | .ok t => (t, none)
    | .error e =>
        if e = .notFound then
          match t.makeDirectories ⟨p.parentText⟩ with
          | (t, none) =>
              match t.ensureDirectory p with
              | .ok t => (t, none)
              | .error e => (t, some e)
          | failed => failed
        else (t, some e)
termination_by p.bytes.length
decreasing_by exact Path.length_parentText_lt ‹_›

/-! ## Removing and moving -/

def removeFile (t : FileTree) (p : Path) : Except IoError FileTree := do
  p.refuseNul
  p.refuseSize
  let directory ← t.directoryOf p
  match p.lastComponent with
  | .name name =>
      match ← t.child? directory name with
      | none => .error .notFound
      | some (.directory _) => .error .isDirectory
      | some _ =>
          if p.endsWithSlash then .error .notDirectory else return t.erase (directory ++ [name])
  | _ => .error .isDirectory

/-- Removes an empty directory, under its own name: not by a dot, nor through a link. -/
def removeDirectory (t : FileTree) (p : Path) : Except IoError FileTree := do
  p.refuseNul
  p.refuseSize
  let directory ← t.directoryOf p
  match p.lastComponent with
  | .root => .error .busy
  | .current => .error .invalidRequest
  | .parent => .error .notEmpty
  | .name name =>
      match ← t.child? directory name with
      | none => .error .notFound
      | some (.directory []) => return t.erase (directory ++ [name])
      | some (.directory _) => .error .notEmpty
      | some _ => .error .notDirectory

/-- Removes a file, a link, or a directory with all that is in it. A directory is
emptied first; it stays empty if it cannot be removed under this path. -/
def remove (t : FileTree) (p : Path) : FileTree × Option IoError :=
  match t.locate .inspect p with
  | .ok (.occupied location (.directory _)) =>
      let t := t.put location (.directory [])
      match t.removeDirectory p with
      | .ok t => (t, none)
      | .error e => (t, if e = .notFound then none else some e)
  | _ =>
      match t.removeFile p with
      | .ok t => (t, none)
      | .error e => (t, some e)

/-- Moves an entry, with all that is in it, from one location to another, where
`replaced` stands. A file or link may replace another, a directory an empty one. -/
def relocate (t : FileTree) (entry : Entry) (source target : Location) (replaced : Option Entry) :
    Except IoError FileTree :=
  if source.isPrefixOf target.dropLast then .error .invalidRequest
  else if target.isPrefixOf source.dropLast then .error .notEmpty
  else if source = target then .ok t
  else
    let moved := (t.erase source).put target entry
    match entry, replaced with
    | _, none | .directory _, some (.directory []) => .ok moved
    | .directory _, some (.directory _) => .error .notEmpty
    | .directory _, some _ => .error .notDirectory
    | _, some (.directory _) => .error .isDirectory
    | _, some _ => .ok moved

/-- Moves an entry to a path. Only a directory's path may end with a slash. -/
def rename (t : FileTree) (source target : Path) : Except IoError FileTree := do
  source.refuseNul
  target.refuseNul
  source.refuseSize
  let sourceDirectory ← t.directoryOf source
  target.refuseSize
  let targetDirectory ← t.directoryOf target
  match source.lastComponent, target.lastComponent with
  | .name sourceName, .name targetName =>
      match ← t.child? sourceDirectory sourceName with
      | none => .error .notFound
      | some entry =>
          let replaced ← t.child? targetDirectory targetName
          if !entry.isDirectory ∧ (source.endsWithSlash ∨ target.endsWithSlash) then
            .error .notDirectory
          else
            t.relocate entry (sourceDirectory ++ [sourceName]) (targetDirectory ++ [targetName])
              replaced
  | _, _ => .error .busy

end FileTree

end Sidecar
