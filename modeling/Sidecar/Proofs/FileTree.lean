import Mathlib.Data.List.Basic
import Sidecar.FileTree
import Sidecar.Proofs.Outcome
import Sidecar.Proofs.Path.Components

/-!
# Sidecar.Proofs.FileTree

Where paths lead. Names whose last one is empty, a dot or two dots lead to a
directory or nowhere (`walk_ne_file`): so a path that opens to a file ends, slashes
aside, with a name (`exists_lastComponent_of_file`).

What a path ends with where it is followed is not what its last component is by the
text alone: `a/.` ends with a dot and has the file name `a`. But a name at
the end is the file name (`fileName?_of_lastComponent`), so what opens to a file has
one (`fileName?_ne_none`).

What a path that is opened leads to is a file or a directory, since links are followed
(`resolve_ne_link`); and there are four reasons why it leads nowhere
(`mem_lookupErrors_of_resolve`) unless it has a NUL in it.
-/

namespace Sidecar

/-! ## Names of a path -/

namespace Path

/-- A call takes the paths without a NUL in them. -/
theorem refuseNul_eq_ok_iff {p : Path} {u : Unit} : p.refuseNul = .ok u ↔ 0 ∉ p.bytes := by
  rw [refuseNul, ite_error_eq_ok_iff]
  simp

/-- Any other path is refused before the system is asked, with a text instead of a number. -/
theorem refuseNul_of_mem {p : Path} (h : 0 ∈ p.bytes) :
    p.refuseNul =
      .error (.described "file name contained an unexpected NUL byte" .invalidInput) := by
  rw [refuseNul, if_pos (List.contains_iff_mem.mpr h)]

/-- The system looks up the paths that are neither empty nor too long. -/
theorem refuseSize_eq_ok_iff {p : Path} {u : Unit} :
    p.refuseSize = .ok u ↔ p.bytes ≠ [] ∧ p.bytes.length ≤ maxLength := by
  rw [refuseSize, ite_error_eq_ok_iff, ite_error_eq_ok_iff]
  simp

theorem endsWithSlash_iff {p : Path} :
    p.endsWithSlash = true ↔ p.bytes.getLast? = some slash := by
  rw [endsWithSlash, beq_iff_eq]

/-- The last name to follow is the last segment. -/
theorem getLast?_names {p : Path} (h : p.bytes ≠ []) :
    p.names.getLast? = some p.segments.last := by
  have hlast := last_ofBytes_eq_nil_iff p.bytes
  rw [names]
  by_cases hslash : p.endsWithSlash = true
  · have hnil : p.segments.last = [] := hlast.mpr (Or.inr (endsWithSlash_iff.mp hslash))
    rw [if_pos hslash, List.getLast?_concat, hnil]
  · have hne : p.segments.last ≠ [] := by
      intro hnil
      exact hslash (endsWithSlash_iff.mpr ((hlast.mp hnil).resolve_left h))
    rw [if_neg hslash, List.append_nil, segmentNames]
    generalize p.segments = s at hne
    obtain ⟨first, others⟩ := s
    cases others using List.reverseRecOn with
    | nil => simp_all
    | append_singleton others segment =>
        rw [Segments.last_concat] at hne ⊢
        rw [← List.cons_append, List.filter_append]
        simp [hne]

theorem names_ne_nil {p : Path} (h : p.bytes ≠ []) : p.names ≠ [] := by
  intro hnil
  have hlast := getLast?_names h
  simp [hnil] at hlast

theorem lastComponent_of_nil {p : Path} (h : p.bytes = []) : p.lastComponent = .root := by
  simp [lastComponent, segmentNames, segments, Segments.ofBytes, h]

/-- The last component is a name if the last segment that is not empty is no dots. -/
theorem lastComponent_eq_name_iff {p : Path} {name : Name} :
    p.lastComponent = .name name ↔ p.segmentNames.getLast? = some name ∧ ¬ IsDots name := by
  have hnonempty : ∀ segment ∈ p.segmentNames, segment ≠ [] := by simp [segmentNames]
  rw [lastComponent]
  cases hlast : p.segmentNames.getLast? with
  | none => simp
  | some segment =>
      have hne := hnonempty segment (List.mem_of_getLast? hlast)
      simp only [Option.map_some, Option.getD_some, Option.some.injEq, Component.ofSegment, IsDots]
      split
      · grind
      · split <;> grind

/-- A name that a path ends with, slashes aside, is its file name: of the segments that are not
empty only those stand for nothing that are a dot. -/
theorem fileName?_of_lastComponent {p : Path} {name : Name} (h : p.lastComponent = .name name) :
    p.fileName? = some name := by
  obtain ⟨hlast, hdots⟩ := lastComponent_eq_name_iff.mp h
  have hne : name ≠ [] := fun hnil => hdots (Or.inl hnil)
  rw [fileName?_eq_some_iff, components, ← Component.ofSegment_eq_name hdots]
  rw [segmentNames, List.filter_cons] at hlast
  have hsignificant : significant p.segments.others =
      (p.segments.others.filter (· != [])).filter (· != [dot]) := by
    rw [List.filter_filter, significant]
    apply List.filter_congr
    intro segment _
    rw [isVoid, Bool.not_or, Bool.and_comm]
    rfl
  rw [← significant, hsignificant]
  obtain hnil | ⟨front, segment, hconcat⟩ :=
    List.eq_nil_or_concat' (p.segments.others.filter (· != []))
  · rw [hnil] at hlast ⊢
    have hfirst : p.segments.first = name := by
      split at hlast <;> simp_all
    simp [Segments.leading, hfirst, hne]
  · rw [hconcat] at hlast ⊢
    have hsegment : segment = name := by
      split at hlast <;> simpa [List.getLast?_cons] using hlast
    have hdot : name ≠ [dot] := fun h => hdots (Or.inr (Or.inl h))
    simp [hsegment, List.filter_append, hdot]

end Path

/-! ## Following names -/

namespace FileTree

/-- Whether the last of some names, if there is one, is no entry's own. -/
def EndInDots (names : List Name) : Prop := ∀ name, names.getLast? = some name → Path.IsDots name

theorem EndInDots.tail {name : Name} {rest : List Name} (h : EndInDots (name :: rest)) :
    EndInDots rest := by
  intro last hlast
  apply h
  rw [List.getLast?_cons, hlast, Option.getD_some]

/-- A link is replaced within its path, so it leaves the path's end as it is. -/
theorem EndInDots.append {names : List Name} (h : EndInDots names) (hne : names ≠ [])
    (before : List Name) : EndInDots (before ++ names) := by
  intro last hlast
  apply h
  rwa [List.getLast?_append_of_ne_nil _ hne] at hlast

theorem not_endInDots_singleton {name : Name} (hvoid : ¬ (name = [] ∨ name = [Path.dot]))
    (hdots : ¬ name = [Path.dot, Path.dot]) : ¬ EndInDots [name] := by
  intro h
  have hname : Path.IsDots name := h name rfl
  grind [Path.IsDots]

/-- A path that ends with no name, slashes aside, asks for names that end so too. -/
theorem endInDots_names {p : Path} (h : ∀ name, p.lastComponent ≠ .name name) :
    EndInDots p.names := by
  intro name hlast
  rw [Path.names] at hlast
  split at hlast
  · rw [List.getLast?_concat, Option.some.injEq] at hlast
    exact Or.inl hlast.symm
  · rw [List.append_nil] at hlast
    by_contra hdots
    exact h name (Path.lastComponent_eq_name_iff.mpr ⟨hlast, hdots⟩)

/-- Names that end in no entry's own lead to no file. Empty names, dots and directories leave
the end as it is; a file is found under the last name only, which has to be its own; a link is
not the last name either, so what its target is followed by ends as before. -/
theorem walk_ne_file (t : FileTree) (purpose : Purpose) (links : Nat) (trail : Trail)
    {names : List Name} (h : EndInDots names) (location : Location) (content : List UInt8) :
    t.walk purpose links trail names ≠ .ok (.occupied location (.file content)) := by
  fun_induction FileTree.walk t purpose links trail names with
  | case1 => simp
  | case2 _ _ _ _ _ ih => exact ih h.tail
  | case3 _ _ _ _ ih => exact ih h.tail
  | case8 _ _ _ _ _ _ _ _ _ _ ih => exact ih h.tail
  | case9 _ _ _ hvoid hdots => exact absurd h (not_endInDots_singleton hvoid hdots)
  | case13 trail name rest hvoid hdots _ _ target _ _ links ih =>
      have hrest : rest ≠ [] := by
        intro hrest
        rw [hrest] at h
        exact not_endInDots_singleton hvoid hdots h
      exact ih (h.tail.append hrest target.names)
  | case4 | case5 | case6 | case7 | case10 | case11 | case12 => simp

section Steps

variable {t : FileTree} {links : Nat} {trail : Trail} {name : Name} {rest : List Name}
  {children : Children} {content : List UInt8}

/-- Whether a name is one that an entry can have. -/
def IsEntryName (name : Name) : Prop := ¬ Path.IsDots name ∧ name.length ≤ Path.maxNameLength

instance (name : Name) : Decidable (IsEntryName name) :=
  inferInstanceAs (Decidable (¬ (_ ∨ _ ∨ _) ∧ _))

/-- A directory is entered under its name. -/
theorem walk_directory (hname : IsEntryName name)
    (h : (t.standing trail).lookup name = some (.directory children)) :
    t.walk .use links trail (name :: rest) = t.walk .use links ((name, children) :: trail) rest := by
  simp only [IsEntryName, Path.IsDots, not_or] at hname
  rw [walk, if_neg (by tauto), if_neg (by tauto), if_neg (by simp), if_neg (by omega), h]

/-- A file is found under the last name. -/
theorem walk_file (hname : IsEntryName name)
    (h : (t.standing trail).lookup name = some (.file content)) :
    t.walk .use links trail [name] =
      .ok (.occupied (Trail.location trail ++ [name]) (.file content)) := by
  simp only [IsEntryName, Path.IsDots, not_or] at hname
  rw [walk, if_neg (by tauto), if_neg (by tauto), if_neg (by simp), if_neg (by omega), h]
  rfl

/-- The place of a last name that the directory does not have is vacant. -/
theorem walk_vacant (hname : IsEntryName name) (h : (t.standing trail).lookup name = none) :
    t.walk .use links trail [name] = .ok (.vacant (Trail.location trail) name) := by
  simp only [IsEntryName, Path.IsDots, not_or] at hname
  rw [walk, if_neg (by tauto), if_neg (by tauto), if_neg (by simp), if_neg (by omega), h]
  rfl

end Steps

/-! ## Opened files -/

/-- What opens to a file is the place of a file. -/
theorem opener_eq_file_iff {t : FileTree} {p : Path} {content : List UInt8} :
    t.opener p = .ok (.file content) ↔
      ∃ location, t.locate .use p = .ok (.occupied location (.file content)) := by
  unfold opener
  split <;> simp_all

/-- A directory can be opened, but not read. -/
theorem opener_directory {t : FileTree} {p : Path} {location : Location} {children : Children}
    (h : t.locate .use p = .ok (.occupied location (.directory children))) :
    t.opener p = .ok (.unreadable .directory) := by
  rw [opener, h]

/-- What opens to a file ends with a name, slashes aside. -/
theorem exists_lastComponent_of_file {t : FileTree} {p : Path} {content : List UInt8}
    (h : t.opener p = .ok (.file content)) : ∃ name, p.lastComponent = .name name := by
  obtain ⟨location, hlocate⟩ := opener_eq_file_iff.mp h
  simp only [locate, bind_eq_ok_iff, Path.refuseSize_eq_ok_iff] at hlocate
  obtain ⟨_, -, _, ⟨hne, -⟩, hfollow⟩ := hlocate
  by_contra! hname
  have hends : EndInDots p.names := endInDots_names hname
  exact walk_ne_file t _ _ _ (hends.append (Path.names_ne_nil hne) _) _ _ hfollow

/-- What opens to a file has a file name. -/
theorem fileName?_ne_none {t : FileTree} {p : Path} {content : List UInt8}
    (h : t.opener p = .ok (.file content)) : p.fileName? ≠ none := by
  obtain ⟨name, hname⟩ := exists_lastComponent_of_file h
  simp [Path.fileName?_of_lastComponent hname]

end FileTree

/-! ## What stands where a path leads -/

/-- What opening an entry for reading gives. -/
def Entry.handle : Entry → Handle
  | .file content => .file content
  | _ => .unreadable .directory

namespace FileTree

variable {t : FileTree} {p : Path} {e : IoError}

/-- Why no entry stands where a path leads, if a call takes the path at all. -/
def lookupErrors : List IoError := [.notFound, .notDirectory, .nameTooLong, .tooManyLinks]

/-- Links are followed, be they the last name or not, but where an entry itself is looked at. -/
theorem walk_ne_link (t : FileTree) {purpose : Purpose} (h : purpose ≠ .inspect) (links : Nat)
    (trail : Trail) (names : List Name) (location : Location) (target : Path) :
    t.walk purpose links trail names ≠ .ok (.occupied location (.link target)) := by
  fun_induction FileTree.walk t purpose links trail names with
  | case2 _ _ _ _ _ ih | case3 _ _ _ _ ih | case8 _ _ _ _ _ _ _ _ _ _ ih
  | case13 _ _ _ _ _ _ _ _ _ _ _ ih => exact ih
  | case11 _ _ _ _ _ _ _ _ _ _ hinspect => exact absurd hinspect.1 h
  | case1 | case4 | case5 | case6 | case7 | case9 | case10 | case12 => simp

theorem mem_lookupErrors_of_refuseSize (h : p.refuseSize = .error e) : e ∈ lookupErrors := by
  rw [Path.refuseSize] at h
  split at h
  · cases h
    decide
  · split at h
    · cases h
      decide
    · cases h

/-- Following names fails in one of these ways; only where a file is made can a directory be in
its way. -/
theorem mem_lookupErrors_of_walk (t : FileTree) {purpose : Purpose} (h : purpose ≠ .create)
    (links : Nat) (trail : Trail) (names : List Name)
    (herror : t.walk purpose links trail names = .error e) : e ∈ lookupErrors := by
  revert herror
  fun_induction FileTree.walk t purpose links trail names with
  | case2 _ _ _ _ _ ih | case3 _ _ _ _ ih | case8 _ _ _ _ _ _ _ _ _ _ ih
  | case13 _ _ _ _ _ _ _ _ _ _ _ ih => exact ih
  | case4 _ _ _ _ _ _ hcreate => exact absurd hcreate.1 h
  | case1 | case6 | case9 | case11 => simp
  | case5 | case7 | case10 | case12 =>
      intro herror
      obtain rfl := Except.error.inj herror
      decide

def Place.entry : Place → Except IoError Entry
  | .occupied _ entry => .ok entry
  | .vacant _ _ => .error .notFound

/-- The entry that stands where a path leads. -/
def resolve (t : FileTree) (p : Path) : Except IoError Entry := t.locate .use p >>= Place.entry

/-- A path with a NUL in it leads nowhere. -/
theorem resolve_of_nul (h : 0 ∈ p.bytes) :
    t.resolve p =
      .error (.described "file name contained an unexpected NUL byte" .invalidInput) := by
  rw [resolve, locate, Path.refuseNul_of_mem h, error_bind, error_bind]

/-- Where a path that a call takes does not lead to an entry, a lookup says why. -/
theorem mem_lookupErrors_of_resolve (hnul : 0 ∉ p.bytes) (h : t.resolve p = .error e) :
    e ∈ lookupErrors := by
  have hcall : p.refuseNul = .ok () := Path.refuseNul_eq_ok_iff.mpr hnul
  rw [resolve, locate, hcall, ok_bind] at h
  obtain hlocate | ⟨place, -, hentry⟩ := bind_eq_error_iff.mp h
  · obtain hsize | ⟨_, -, hfollow⟩ := bind_eq_error_iff.mp hlocate
    · exact mem_lookupErrors_of_refuseSize hsize
    · exact mem_lookupErrors_of_walk t (by decide) _ _ _ hfollow
  · cases place with
    | occupied => cases hentry
    | vacant =>
        cases hentry
        decide

/-- A path that is opened leads to no link, since links are followed. -/
theorem resolve_ne_link (target : Path) : t.resolve p ≠ .ok (.link target) := by
  intro h
  simp only [resolve, locate, bind_eq_ok_iff] at h
  obtain ⟨place, ⟨_, -, _, -, hfollow⟩, hentry⟩ := h
  cases place with
  | vacant => cases hentry
  | occupied =>
      cases hentry
      exact walk_ne_link t (by decide) _ _ _ _ _ hfollow

/-- Opening a path is opening the entry where it leads. -/
theorem opener_eq_map (t : FileTree) (p : Path) :
    t.opener p = (t.resolve p).map Entry.handle := by
  rw [opener, resolve]
  cases t.locate .use p with
  | error => rfl
  | ok place =>
      cases place with
      | vacant => rfl
      | occupied _ entry => cases entry <;> rfl

/-- A path cannot be opened where it leads nowhere, for the same reason. -/
theorem opener_eq_error_iff : t.opener p = .error e ↔ t.resolve p = .error e := by
  rw [opener_eq_map, map_eq_error_iff]

/-- The one kind of entry that opens without being readable is a directory. -/
theorem opener_eq_unreadable_iff {reading : BrokenReading} :
    t.opener p = .ok (.unreadable reading) ↔
      reading = .directory ∧ ∃ children, t.resolve p = .ok (.directory children) := by
  have hlink := @resolve_ne_link t p
  rw [opener_eq_map, map_eq_ok_iff]
  constructor
  · intro h
    obtain ⟨entry, hentry, hhandle⟩ := h
    cases entry with
    | file => cases hhandle
    | link target => exact absurd hentry (hlink target)
    | directory children =>
        cases hhandle
        exact ⟨rfl, children, hentry⟩
  · intro h
    obtain ⟨rfl, children, hentry⟩ := h
    exact ⟨_, hentry, rfl⟩

/-- All that is said of a broken reading in a tree is said of a directory's. -/
theorem exists_unreadable_iff {P : BrokenReading → Prop} :
    (∃ reading, t.opener p = .ok (.unreadable reading) ∧ P reading) ↔
      P .directory ∧ ∃ children, t.resolve p = .ok (.directory children) := by
  simp only [opener_eq_unreadable_iff, and_assoc, exists_eq_left]
  exact and_comm

end FileTree

end Sidecar
