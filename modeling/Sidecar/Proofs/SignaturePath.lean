import Mathlib.Data.List.TakeWhile
import Sidecar.Proofs.Path.Components
import Sidecar.SignaturePath

/-!
# Sidecar.Proofs.SignaturePath

Which paths have a signature's path, and what that path is, component by component
(`signaturePath_shape`): a file `name.ext` in a directory has its signature in the
directory `signatures` beside it, under `name.sig`.
-/

namespace Sidecar.Path

/-! ## Stems -/

/-- What the stem of a name is: the text before the last dot, which is not empty; the
whole name if there is no dot, or none after its first byte. -/
inductive IsStem : (name stem : List UInt8) → Prop
  | cut {stem : List UInt8} (hne : stem ≠ []) {extension : List UInt8} (hdot : dot ∉ extension) :
      IsStem (stem ++ dot :: extension) stem
  | whole {name : List UInt8} (hdot : dot ∉ name.tail) : IsStem name name

/-- A text with a dot is cut at its last one. -/
theorem eq_append_dot_of_mem {name : List UInt8} (h : dot ∈ name) :
    ∃ front extension, name = front ++ dot :: extension ∧ dot ∉ extension := by
  obtain ⟨extension, front, hname, hdot⟩ :=
    List.eq_append_cons_of_mem (List.mem_reverse.mpr h)
  refine ⟨front.reverse, extension.reverse, ?_, by simpa using hdot⟩
  rw [← List.reverse_reverse name, hname]
  simp

/-- A text without dots is passed over whole in the search for one. -/
theorem bne_dot_of_not_mem {bs : List UInt8} (h : dot ∉ bs) : ∀ b ∈ bs.reverse, (b != dot) = true := by
  intro b hb
  rw [List.mem_reverse] at hb
  exact bne_iff_ne.mpr fun hdot => h (hdot ▸ hb)

/-- The search from the back stops at the last dot. -/
theorem dropWhile_reverse_append_dot (front : List UInt8) {extension : List UInt8}
    (h : dot ∉ extension) :
    (front ++ dot :: extension).reverse.dropWhile (· != dot) = dot :: front.reverse := by
  rw [List.reverse_append, List.reverse_cons, List.append_assoc,
    List.dropWhile_append_of_pos (bne_dot_of_not_mem h)]
  simp

/-- The text before the last dot of a name, if there is any. -/
theorem stem_append_dot {front extension : List UInt8} (hne : front ≠ []) (h : dot ∉ extension) :
    stem (front ++ dot :: extension) = front := by
  obtain ⟨b, before, hfront⟩ := List.exists_cons_of_ne_nil (List.reverse_ne_nil_iff.mpr hne)
  rw [stem, dropWhile_reverse_append_dot front h, hfront]
  simpa using (List.reverse_eq_cons_iff.mp hfront).symm

/-- Neither a name without a dot nor one whose only dot is at the front is cut. -/
theorem stem_of_not_mem_tail {name : List UInt8} (h : dot ∉ name.tail) : stem name = name := by
  by_cases hdot : dot ∈ name
  · obtain ⟨b, extension, rfl⟩ := List.exists_cons_of_ne_nil (List.ne_nil_of_mem hdot)
    obtain rfl : dot = b := (List.mem_cons.mp hdot).resolve_right h
    have hdrop := dropWhile_reverse_append_dot [] h
    rw [List.nil_append, List.tail_cons] at hdrop
    rw [stem, hdrop]
    rfl
  · rw [stem, List.dropWhile_eq_nil_iff.mpr (bne_dot_of_not_mem hdot)]

/-- The stem is the one text that is a stem of the name: where a dot is not the first byte, there
is a text before the last one. -/
theorem isStem_iff {name s : List UInt8} : IsStem name s ↔ s = stem name := by
  constructor
  · intro h
    cases h with
    | cut hne hdot => exact (stem_append_dot hne hdot).symm
    | whole hdot => exact (stem_of_not_mem_tail hdot).symm
  · rintro rfl
    by_cases hdot : dot ∈ name.tail
    · obtain ⟨front, extension, htail, hextension⟩ := eq_append_dot_of_mem hdot
      cases name with
      | nil => simp at hdot
      | cons b rest =>
          rw [List.tail_cons] at htail
          rw [htail, ← List.cons_append, stem_append_dot (List.cons_ne_nil b front) hextension]
          exact .cut (List.cons_ne_nil b front) hextension
    · rw [stem_of_not_mem_tail hdot]
      exact .whole hdot

/-- A name begins with its stem. -/
theorem IsStem.isPrefix {name s : List UInt8} (h : IsStem name s) : s <+: name := by
  cases h with
  | cut hne hdot => exact List.prefix_append _ _
  | whole hdot => exact List.prefix_rfl

/-- The stem of a name is not empty. -/
theorem IsStem.ne_nil {name s : List UInt8} (h : IsStem name s) (hname : name ≠ []) : s ≠ [] := by
  cases h with
  | cut hne hdot => exact hne
  | whole hdot => exact hname

/-- Of a signature's file name, the stem is what its extension was put behind. -/
theorem isStem_signature {s : List UInt8} (h : s ≠ []) : IsStem (s ++ signatureExtension) s :=
  .cut h (by decide : dot ∉ ascii "sig")

/-! ## Signature paths -/

/-- A signature's path is built from a file name and the text before it. -/
theorem signaturePath_eq_ok_iff {p sidecar : Path} :
    p.signaturePath = .ok sidecar ↔
      ∃ name, p.fileName? = some name ∧
        sidecar = ⟨join (join p.parentText signatureDirectory) (stem name ++ signatureExtension)⟩ := by
  rw [signaturePath]
  cases p.fileName? with
  | none => simp
  | some name => simp [eq_comm]

/-- There is no signature's path if there is no file name, and for no other reason. -/
theorem signaturePath_eq_error_iff {p : Path} {fault : PathFault} :
    p.signaturePath = .error fault ↔ p.fileName? = none ∧ fault = .noFileName p := by
  rw [signaturePath]
  cases p.fileName? with
  | none => simp [eq_comm]
  | some name => simp

/-- The bytes of a signature's path are the file's path's or those that the path is built with. -/
theorem mem_signaturePath {p sidecar : Path} (h : p.signaturePath = .ok sidecar) {b : UInt8}
    (hb : b ∈ sidecar.bytes) :
    b ∈ p.bytes ∨ b = slash ∨ b ∈ signatureDirectory ∨ b ∈ signatureExtension := by
  obtain ⟨name, hname, rfl⟩ := signaturePath_eq_ok_iff.mp h
  have hstem : stem name ⊆ name := (isStem_iff.mpr rfl).isPrefix.subset
  obtain hdirectory | hslash | hentry := mem_join hb
  · obtain hparent | hslash | hsignatures := mem_join hdirectory
    · exact Or.inl (p.parentText_isPrefix.subset hparent)
    · exact Or.inr (Or.inl hslash)
    · exact Or.inr (Or.inr (Or.inl hsignatures))
  · exact Or.inr (Or.inl hslash)
  · obtain hstemmed | hextension := List.mem_append.mp hentry
    · exact Or.inl ((infix_of_fileName? hname).subset (hstem hstemmed))
    · exact Or.inr (Or.inr (Or.inr hextension))

/-- What stands in a signature's path, with no slash and with an end that the parts of the
program's own do not have, stands in the file's path. -/
theorem infix_of_infix_signaturePath {p sidecar : Path} (h : p.signaturePath = .ok sidecar)
    {word : List UInt8} {b : UInt8} (hslash : slash ∉ word) (hlast : word.getLast? = some b)
    (hdirectory : b ∉ signatureDirectory) (hextension : b ∉ signatureExtension)
    (hword : word <:+: sidecar.bytes) : word <:+: p.bytes := by
  obtain ⟨name, hname, rfl⟩ := signaturePath_eq_ok_iff.mp h
  have hstem : stem name <+: name := (isStem_iff.mpr rfl).isPrefix
  obtain hbeside | hentry := infix_of_infix_join hslash hword
  · obtain hparent | hsignatures := infix_of_infix_join hslash hbeside
    · exact hparent.trans p.parentText_isPrefix.isInfix
    · exact absurd (hsignatures.subset (List.mem_of_getLast? hlast)) hdirectory
  · have hstemmed := Text.infix_of_infix_append hlast hextension hentry
    exact (hstemmed.trans hstem.isInfix).trans (infix_of_fileName? hname)

/-- A signature's path has no NUL that the file's path has not. -/
theorem nul_not_mem_signaturePath {p sidecar : Path} (h : p.signaturePath = .ok sidecar)
    (hnul : 0 ∉ p.bytes) : 0 ∉ sidecar.bytes := by
  intro hmem
  obtain hmem | hmem | hmem | hmem := mem_signaturePath h hmem
  · exact hnul hmem
  all_goals
    revert hmem
    decide

/-- A signature's file name has no slash, and is a name that an entry can have. -/
theorem signature_name {name s : List UInt8} (h : IsStem name s) (hslash : slash ∉ name) :
    slash ∉ s ++ signatureExtension ∧ ¬ IsDots (s ++ signatureExtension) := by
  have hextension : slash ∉ signatureExtension := by decide
  constructor
  · simpa [hextension] using fun hmem => hslash (h.isPrefix.subset hmem)
  · have hlength : signatureExtension.length = 4 := rfl
    rintro (hdots | hdots | hdots)
    all_goals
      have := congrArg List.length hdots
      simp [hlength] at this

/-- The signature of a file named in a directory, whose stem is the name's. -/
theorem components_signaturePath {p : Path} {directory : List Component} {name s : List UInt8}
    (h : p.components = directory ++ [.name name]) (hstem : IsStem name s) :
    ∃ sidecar, p.signaturePath = .ok sidecar ∧
      sidecar.components = directory ++ [.name signatureDirectory, .name (s ++ signatureExtension)] := by
  have hname : p.fileName? = some name := by rw [fileName?_eq_some_iff, h, List.getLast?_concat]
  have hparent : components ⟨p.parentText⟩ = directory := by
    simpa [h] using (components_of_fileName? hname).symm
  obtain ⟨hslash, hdots⟩ := signature_name hstem (of_fileName? hname).2
  have hdirectory : ¬ IsDots signatureDirectory := by simp only [IsDots]; decide
  refine ⟨_, signaturePath_eq_ok_iff.mpr ⟨name, hname, rfl⟩, ?_⟩
  rw [← isStem_iff.mp hstem, components_join _ hslash hdots, components_join _ (by decide) hdirectory,
    hparent, List.append_assoc, List.singleton_append]

/-- **The signature's path**: there is none exactly if the path has no components or
ends at the root, a dot or two dots. Else the last component is a name, and in its
directory the signature is the entry of `signatures` that is named by the stem, an
entry's name of its own. That path leads no further up, is another one than the
file's, and has itself a signature's path, one directory deeper. -/
theorem signaturePath_shape (p : Path) :
    ((∃ fault, p.signaturePath = .error fault ∧ fault.failure.kind = .invalidPath) ↔
      p.components = [] ∨ p.components.getLast? = some .root ∨
        p.components.getLast? = some .current ∨ p.components.getLast? = some .parent) ∧
    ∀ directory name, p.components = directory ++ [.name name] →
      ∃ s sidecar, IsStem name s ∧ p.signaturePath = .ok sidecar ∧
        sidecar.components =
          directory ++ [.name (ascii "signatures"), .name (s ++ ascii ".sig")] ∧
        slash ∉ s ++ ascii ".sig" ∧ s ++ ascii ".sig" ≠ [dot] ∧ s ++ ascii ".sig" ≠ [dot, dot] ∧
        sidecar.components.count .parent = directory.count .parent ∧
        sidecar.components ≠ p.components ∧
        ∃ deeper, sidecar.signaturePath = .ok deeper ∧
          deeper.components =
            directory ++ [.name (ascii "signatures"), .name (ascii "signatures"),
              .name (s ++ ascii ".sig")] := by
  constructor
  · rw [← fileName?_eq_none_iff]
    simp [signaturePath_eq_error_iff, PathFault.failure, Failure.kind]
  · intro directory name h
    have hname : p.fileName? = some name := by rw [fileName?_eq_some_iff, h, List.getLast?_concat]
    obtain ⟨hne, hslash⟩ := of_fileName? hname
    have hstem : IsStem name (stem name) := isStem_iff.mpr rfl
    obtain ⟨sidecar, hsidecar, hcomponents⟩ := components_signaturePath h hstem
    obtain ⟨hslash', hdots⟩ := signature_name hstem hslash
    rw [IsDots, not_or, not_or] at hdots
    have hsplit : sidecar.components =
        (directory ++ [.name signatureDirectory]) ++ [.name (stem name ++ signatureExtension)] := by
      rw [hcomponents, List.append_assoc, List.singleton_append]
    obtain ⟨deeper, hdeeper, hcomponents'⟩ :=
      components_signaturePath hsplit (isStem_signature (hstem.ne_nil hne))
    refine ⟨stem name, sidecar, hstem, hsidecar, hcomponents, hslash', hdots.2.1, hdots.2.2, ?_, ?_,
      deeper, hdeeper, ?_⟩
    · simp [hcomponents]
    · intro heq
      have hlength := congrArg List.length heq
      simp [hcomponents, h] at hlength
    · rw [hcomponents', List.append_assoc, List.singleton_append]
      rfl

end Sidecar.Path
