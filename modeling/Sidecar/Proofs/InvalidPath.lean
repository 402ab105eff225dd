import Sidecar.Proofs.FileTree
import Sidecar.Proofs.Trace
import Sidecar.Proofs.WidePath

/-!
# Sidecar.Proofs.InvalidPath

When a path is invalid. A check hashes the file before it needs the file's name, and
what has been hashed has a name: that no check ends for want of one is what two
readings of a path have to do with each other, the one by which it is opened and the
one that its text has (`Path.fileName?_of_lastComponent`). So a verification reports an
invalid path for wide paths only, if their units are no text
(`invalidPath_only_if_wide`).
-/

namespace Sidecar

open Text

/-! ## Paths that end with no name -/

/-- A file system where a path that is empty, or ends at the root, a dot or two dots,
leads to a directory or nowhere, and directories cannot be read. -/
def DotsAreDirectories (opener : Opener) : Prop :=
  ∀ path : Path,
    path.bytes = [] ∨ path.lastComponent = .root ∨ path.lastComponent = .current ∨
        path.lastComponent = .parent →
      (∃ e, opener path = .error e) ∨ ∃ reading, opener path = .ok (.unreadable reading)

/-- So are the trees. -/
theorem FileTree.dotsAreDirectories (t : FileTree) : DotsAreDirectories t.opener := by
  intro path hdots
  cases hopen : t.opener path with
  | error e => exact Or.inl ⟨e, rfl⟩
  | ok handle =>
      cases handle with
      | unreadable reading => exact Or.inr ⟨reading, rfl⟩
      | file content =>
          obtain ⟨name, hname⟩ := exists_lastComponent_of_file hopen
          have hroot : path.bytes ≠ [] := by
            intro hnil
            simp [Path.lastComponent_of_nil hnil] at hname
          simp [hname, hroot] at hdots

theorem Failure.kind_eq_invalidPath_iff {failure : Failure} :
    failure.kind = .invalidPath ↔ ∃ reason, failure = .invalidPath reason := by
  cases failure <;> simp [kind]

/-- Where only wide paths can be invalid: what can be hashed has a signature's path, and
no verification reports an invalid path but that of a wide one whose units are not well
formed without their terminators. -/
structure InvalidOnlyIfWide (opener : Opener) : Prop where
  exists_signaturePath : ∀ path digest, hashFile opener path = .ok digest →
    ∃ sidecar, path.signaturePath = .ok sidecar
  check_ne : ∀ key path reason, (check opener key path).result ≠ .error (.invalidPath reason)
  kind?_verify_ne : ∀ key path, (verify opener key path).2.kind? ≠ some .invalidPath
  kind?_verifyWide_iff : ∀ key units,
    (verifyWide opener key units).2.kind? = some .invalidPath ↔
      ¬ Utf16.WellFormed (units.rdropWhile (· == 0))

namespace DotsAreDirectories

variable {opener : Opener}

/-- What opens to a file has a signature's path. -/
theorem exists_signaturePath (h : DotsAreDirectories opener) {path : Path} {content : List UInt8}
    (hcontent : opener path = .ok (.file content)) :
    ∃ sidecar, path.signaturePath = .ok sidecar := by
  have hdots := h path
  have hname : ∃ name, path.lastComponent = .name name := by
    cases hlast : path.lastComponent with
    | name name => exact ⟨name, rfl⟩
    | root | current | parent => simp [hlast, hcontent] at hdots
  obtain ⟨name, hname⟩ := hname
  exact ⟨_, Path.signaturePath_eq_ok_iff.mpr ⟨name, Path.fileName?_of_lastComponent hname, rfl⟩⟩

/-- No check ends with an invalid path, where paths that end in dots lead to directories. -/
theorem check_ne_invalidPath (h : DotsAreDirectories opener) (key : KeyResource) (path : Path)
    (reason : String) : (check opener key path).result ≠ .error (.invalidPath reason) := by
  intro hresult
  obtain ⟨content, fault, hcontent, hfault⟩ := (check_course opener key path).of_invalidPath hresult
  obtain ⟨sidecar, hsidecar⟩ := h.exists_signaturePath hcontent
  rw [hfault] at hsidecar
  cases hsidecar

theorem kind?_verify_ne_invalidPath (h : DotsAreDirectories opener) (key : KeyResource)
    (path : Path) : (verify opener key path).2.kind? ≠ some .invalidPath := by
  intro hkind
  obtain ⟨failure, hresult, hfailure⟩ := kind?_verify_iff.mp hkind
  obtain ⟨reason, hreason⟩ := Failure.kind_eq_invalidPath_iff.mp hfailure
  exact h.check_ne_invalidPath key path reason (hreason ▸ hresult)

/-- Of a wide path, the units are at fault or the path that they spell is verified. -/
theorem kind?_verifyWide_eq_invalidPath_iff (h : DotsAreDirectories opener) (key : KeyResource)
    (units : List UInt16) :
    (verifyWide opener key units).2.kind? = some .invalidPath ↔
      ¬ Utf16.WellFormed (Path.dropTerminators units) := by
  cases hwide : Path.ofWide units with
  | ok path =>
      have hkind := h.kind?_verify_ne_invalidPath key path
      have hwell := Path.exists_ofWide_iff.mp ⟨path, hwide⟩
      simp [verifyWide_of_ok hwide, hkind, hwell]
  | error fault =>
      have hill := (Path.ofWide_eq_error_iff.mp hwide).1
      simp [verifyWide_of_error hwide, Verification.kind?, PathFault.failure, Failure.kind, hill]

/-- On such a system a path is invalid only if it comes from ill-formed UTF-16. -/
theorem invalidOnlyIfWide (h : DotsAreDirectories opener) : InvalidOnlyIfWide opener where
  exists_signaturePath path digest hdigest := by
    obtain ⟨content, hcontent, -⟩ := hashFile_eq_ok_iff.mp hdigest
    exact h.exists_signaturePath hcontent
  check_ne := h.check_ne_invalidPath
  kind?_verify_ne := h.kind?_verify_ne_invalidPath
  kind?_verifyWide_iff := h.kind?_verifyWide_eq_invalidPath_iff

end DotsAreDirectories

/-- **Invalid paths**: in every tree of files, directories and links what can be hashed
has a signature's path, so only wide paths are reported as invalid, and those exactly if
their units are no text. It is so in every file system where dots and the root are
directories. -/
theorem invalidPath_only_if_wide :
    (∀ t : FileTree, InvalidOnlyIfWide t.opener) ∧
      ∀ opener : Opener, DotsAreDirectories opener → InvalidOnlyIfWide opener := by
  constructor
  · intro t
    exact t.dotsAreDirectories.invalidOnlyIfWide
  · intro opener h
    exact h.invalidOnlyIfWide

/-- Where each name is that of an empty file and all else is a directory. -/
def emptyFiles : Opener := fun path =>
  match path.lastComponent with
  | .name _ => .ok (.file [])
  | _ => .ok (.unreadable .directory)

/-- The condition holds where all that a name leads to is an empty file. -/
theorem dotsAreDirectories_emptyFiles : DotsAreDirectories emptyFiles := by
  intro path hend
  have hlast : ∀ name, path.lastComponent ≠ .name name := by
    obtain hnil | hroot | hcurrent | hparent := hend
    · simp [Path.lastComponent_of_nil hnil]
    all_goals simp [*]
  right
  exact ⟨.directory, by simp [emptyFiles]⟩

theorem invalidPath_only_if_wide_emptyFiles :
    DotsAreDirectories emptyFiles ∧
      (verifyWide emptyFiles .embedded [0x2E, 0xD800, 0]).2.kind? = some .invalidPath := by
  have hill : ¬ Utf16.WellFormed (List.rdropWhile (· == 0) [0x2E, 0xD800, 0]) :=
    Utf16.decode?_eq_none_iff.mp rfl
  have hwide := invalidPath_only_if_wide.2 emptyFiles dotsAreDirectories_emptyFiles
  exact ⟨dotsAreDirectories_emptyFiles, (hwide.kind?_verifyWide_iff _ _).mpr hill⟩

end Sidecar
