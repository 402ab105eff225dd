import Mathlib.Data.List.Basic
import Sidecar.Proofs.SignaturePath

/-!
# Sidecar.Proofs.SignaturePath.Sharing

Which files share a signature file. A signature's path is two names joined to the
text before the file's name:

```
join (join parentText "signatures") (stem ++ ".sig")
```

A join puts a slash in only sometimes, but it can be undone (`join_inj`): names have
no slash, and of the texts that a path can have before its last component only the
root's ends with one (`isDirectoryText_parentText`). So a signature's path tells both
parts that it was made of (`signaturePath_eq_iff`).
-/

namespace Sidecar.Path

/-! ## Directories -/

/-- A directory's text in which no slash stands at the end but the root's. -/
def IsDirectoryText (directory : List UInt8) : Prop :=
  directory = [slash] ∨ directory.getLast? ≠ some slash

/-- The text before a path's last component is a directory's: its last segment is the first one
or stands for something, so it is not empty. -/
theorem isDirectoryText_parentText (p : Path) : IsDirectoryText p.parentText := by
  obtain hnil | ⟨before, last, hconcat⟩ := List.eq_nil_or_concat' (dropVoidEnd p.segments.others)
  · right
    simp [parentText, splitLast_of_nil hnil]
  · by_cases hroot : p.segments.first = [] ∧ dropVoidEnd before = []
    · left
      rw [parentText, splitLast_of_concat hconcat, if_pos hroot]
    · right
      intro hslash
      have hlast : (segments ⟨p.parentText⟩).last = [] :=
        (last_ofBytes_eq_nil_iff p.parentText).mpr (Or.inr hslash)
      rw [segments_parentText hconcat hroot] at hlast
      obtain hnil | ⟨front, segment, hbefore⟩ := List.eq_nil_or_concat' (dropVoidEnd before)
      · rw [hnil, Segments.last_nil] at hlast
        exact hroot ⟨hlast, hnil⟩
      · have hvoid := isVoid_of_dropVoidEnd hbefore
        rw [hbefore, Segments.last_concat] at hlast
        simp [hlast, isVoid] at hvoid

/-! ## Joins undone -/

/-- What a join puts before the name depends on the directory's text alone. -/
theorem join_eq_append (directory name : List UInt8) :
    join directory name = join directory [] ++ name := by
  unfold join
  split <;> simp

/-- A name that is not empty makes every text a directory's. -/
theorem isDirectoryText_join (directory : List UInt8) {name : List UInt8} (hne : name ≠ [])
    (hslash : slash ∉ name) : IsDirectoryText (join directory name) := by
  right
  rw [join_eq_append, List.getLast?_append_of_ne_nil _ hne]
  intro hlast
  exact hslash (List.mem_of_getLast? hlast)

/-- The name is what stands after the last slash. -/
theorem last_join (directory : List UInt8) {name : List UInt8} (hslash : slash ∉ name) :
    (segments ⟨join directory name⟩).last = name := by
  by_cases hnil : directory = []
  · rw [hnil, segments_join_nil hslash, Segments.last_nil]
  · obtain ⟨s, -, hjoin⟩ := exists_segments_join hnil
    rw [hjoin name hslash, Segments.last_concat]

/-- What a join puts before the name tells the directory's text: but for the root, a slash at
its end is the one that the join has added. -/
theorem IsDirectoryText.eq_of_join_nil {directory directory' : List UInt8}
    (h : IsDirectoryText directory) (h' : IsDirectoryText directory')
    (heq : join directory [] = join directory' []) : directory = directory' := by
  have hundo {text : List UInt8} (htext : IsDirectoryText text) :
      (if join text [] = [slash] then [slash] else (join text []).dropLast) = text := by
    obtain rfl | htext := htext
    · rfl
    · by_cases hnil : text = []
      · rw [hnil]
        rfl
      · have hjoin : join text [] = text ++ [slash] := by simp [join, hnil, htext]
        rw [hjoin, if_neg (by simpa using hnil), List.dropLast_concat]
  rw [← hundo h, heq, hundo h']

/-- **A join is undone**: different directories, or different names in one, have
different paths. -/
theorem join_inj {directory directory' name name' : List UInt8} (h : IsDirectoryText directory)
    (h' : IsDirectoryText directory') (hslash : slash ∉ name) (hslash' : slash ∉ name') :
    join directory name = join directory' name' ↔ directory = directory' ∧ name = name' := by
  constructor
  · intro heq
    have hname : name = name' := by
      rw [← last_join directory hslash, heq, last_join directory' hslash']
    rw [join_eq_append directory, join_eq_append directory', hname, List.append_cancel_right_eq]
      at heq
    exact ⟨h.eq_of_join_nil h' heq, hname⟩
  · intro ⟨hdirectory, hname⟩
    rw [hdirectory, hname]

/-! ## Shared signatures -/

/-- The stem of a path's file name. -/
def fileStem? (p : Path) : Option (List UInt8) := p.fileName?.map stem

/-- Names that differ at most in their last extension: before it they are one text. -/
def EqUpToExtension (name name' : List UInt8) : Prop := ∃ s, IsStem name s ∧ IsStem name' s

/-- Names are equal up to their extensions if their stems are. -/
theorem eqUpToExtension_iff {name name' : List UInt8} :
    EqUpToExtension name name' ↔ stem name = stem name' := by
  simp only [EqUpToExtension, isStem_iff]
  constructor
  · intro ⟨s, h, h'⟩
    rw [← h, ← h']
  · intro h
    exact ⟨stem name, rfl, h⟩

/-- A signature's path tells the text before the file's name, and the stem. -/
theorem bytes_eq_iff_of_signaturePath {p q sidecar sidecar' : Path} {name name' : List UInt8}
    (hp : p.signaturePath = .ok sidecar) (hq : q.signaturePath = .ok sidecar')
    (hname : p.fileName? = some name) (hname' : q.fileName? = some name') :
    sidecar.bytes = sidecar'.bytes ↔ p.parentText = q.parentText ∧ stem name = stem name' := by
  have hslash {name : List UInt8} {p : Path} (hname : p.fileName? = some name) :
      slash ∉ stem name ++ signatureExtension :=
    (signature_name (isStem_iff.mpr rfl) (of_fileName? hname).2).1
  have hsignatures (p : Path) : IsDirectoryText (join p.parentText signatureDirectory) :=
    isDirectoryText_join _ (by decide) (by decide)
  have hbytes {p sidecar : Path} {name : List UInt8} (hp : p.signaturePath = .ok sidecar)
      (hname : p.fileName? = some name) : sidecar.bytes =
        join (join p.parentText signatureDirectory) (stem name ++ signatureExtension) := by
    simp only [signaturePath, hname, Except.ok.injEq] at hp
    rw [← hp]
  rw [hbytes hp hname, hbytes hq hname',
    join_inj (hsignatures p) (hsignatures q) (hslash hname) (hslash hname'),
    join_inj (isDirectoryText_parentText p) (isDirectoryText_parentText q) (by decide) (by decide),
    List.append_cancel_right_eq]
  simp

/-- **Sharing**: two files have one signature's path exactly if the texts before their
names are the same bytes and so are their stems. Of the files in a directory, whichever
way its text is spelled, those share one whose names differ at most in their last
extension. -/
theorem signaturePath_eq_iff :
    (∀ p q sidecar sidecar' : Path,
      p.signaturePath = .ok sidecar → q.signaturePath = .ok sidecar' →
        (sidecar.bytes = sidecar'.bytes ↔
          p.parentText = q.parentText ∧ p.fileStem? = q.fileStem?)) ∧
    ∀ directory name name' : List UInt8,
      slash ∉ name → ¬ IsDots name → slash ∉ name' → ¬ IsDots name' →
        ∃ sidecar sidecar' : Path, signaturePath ⟨join directory name⟩ = .ok sidecar ∧
          signaturePath ⟨join directory name'⟩ = .ok sidecar' ∧
          (sidecar.bytes = sidecar'.bytes ↔ EqUpToExtension name name') := by
  constructor
  · intro p q sidecar sidecar' hp hq
    obtain ⟨name, hname, -⟩ := signaturePath_eq_ok_iff.mp hp
    obtain ⟨name', hname', -⟩ := signaturePath_eq_ok_iff.mp hq
    rw [bytes_eq_iff_of_signaturePath hp hq hname hname', fileStem?, fileStem?, hname, hname']
    simp
  · intro directory name name' hslash hdots hslash' hdots'
    have hname := fileName?_join directory hslash hdots
    have hname' := fileName?_join directory hslash' hdots'
    obtain ⟨sidecar, hsidecar⟩ : ∃ sidecar, signaturePath ⟨join directory name⟩ = .ok sidecar :=
      ⟨_, signaturePath_eq_ok_iff.mpr ⟨name, hname, rfl⟩⟩
    obtain ⟨sidecar', hsidecar'⟩ : ∃ sidecar, signaturePath ⟨join directory name'⟩ = .ok sidecar :=
      ⟨_, signaturePath_eq_ok_iff.mpr ⟨name', hname', rfl⟩⟩
    refine ⟨sidecar, sidecar', hsidecar, hsidecar', ?_⟩
    have hparent := parentText_join directory hslash hdots hslash' hdots'
    rw [bytes_eq_iff_of_signaturePath hsidecar hsidecar' hname hname', eqUpToExtension_iff]
    simp [hparent]

theorem signaturePath_eq_iff_archives :
    signaturePath ⟨ascii "x//./tool.tar.gz"⟩ = .ok ⟨ascii "x/signatures/tool.tar.sig"⟩ ∧
      signaturePath ⟨ascii "x/tool.tar.xz/"⟩ = .ok ⟨ascii "x/signatures/tool.tar.sig"⟩ ∧
      parentText ⟨ascii "x//./tool.tar.gz"⟩ = parentText ⟨ascii "x/tool.tar.xz/"⟩ ∧
      fileStem? ⟨ascii "x//./tool.tar.gz"⟩ = fileStem? ⟨ascii "x/tool.tar.xz/"⟩ :=
  ⟨rfl, rfl, (signaturePath_eq_iff.1 _ _ _ _ rfl rfl).mp rfl⟩

end Sidecar.Path
