import Mathlib.Data.List.Basic
import Sidecar.Proofs.Path
import Sidecar.Proofs.Text.Lines

/-!
# Sidecar.Proofs.Path.Components

The components of a path, from its end. A path is the text before its last
component and that component (`components_eq_concat`), so the last component tells
whether there is a file name (`fileName?_eq_some_iff`); and joining a name to a
directory's text adds a component at its end (`components_join`), whichever slashes
and dots the text has.
-/

namespace Sidecar.Path

/-! ## Segments -/

theorem ofBytes_of_not_mem {bs : List UInt8} (h : slash ∉ bs) : Segments.ofBytes bs = ⟨bs, []⟩ := by
  induction bs with
  | nil => rfl
  | cons b bs ih =>
      rw [List.mem_cons, not_or] at h
      rw [Segments.ofBytes, ih h.2, if_neg (Ne.symm h.1)]

/-- A slash puts the segments after it behind those before it. -/
theorem ofBytes_append_slash (xs ys : List UInt8) :
    Segments.ofBytes (xs ++ slash :: ys) =
      ⟨(Segments.ofBytes xs).first,
        (Segments.ofBytes xs).others ++
          (Segments.ofBytes ys).first :: (Segments.ofBytes ys).others⟩ := by
  induction xs with
  | nil => simp [Segments.ofBytes]
  | cons x xs ih =>
      by_cases hx : x = slash
      · simp [Segments.ofBytes, ih, hx]
      · simp [Segments.ofBytes, ih, hx]

/-- No segment holds a slash. -/
theorem slash_not_mem_ofBytes (bs : List UInt8) :
    ∀ segment ∈ (Segments.ofBytes bs).first :: (Segments.ofBytes bs).others, slash ∉ segment := by
  induction bs with
  | nil => simp [Segments.ofBytes]
  | cons b bs ih =>
      by_cases hb : b = slash
      · simpa [Segments.ofBytes, hb] using ih
      · simpa [Segments.ofBytes, hb, Ne.symm hb] using ih

/-- Segments without slashes are what their text is cut into. -/
theorem ofBytes_toBytes (first : List UInt8) (others : List (List UInt8))
    (h : ∀ segment ∈ first :: others, slash ∉ segment) :
    Segments.ofBytes (Segments.mk first others).toBytes = ⟨first, others⟩ := by
  induction others using List.reverseRecOn with
  | nil => simpa [Segments.toBytes] using ofBytes_of_not_mem (h first List.mem_cons_self)
  | append_singleton others segment ih =>
      have hbytes : (Segments.mk first (others ++ [segment])).toBytes =
          (Segments.mk first others).toBytes ++ slash :: segment := by simp [Segments.toBytes]
      rw [hbytes, ofBytes_append_slash, ih fun s hs => h s (by grind),
        ofBytes_of_not_mem (h segment (by simp))]

/-- A segment stands in its path in one piece. -/
theorem infix_bytes_of_mem_segments {p : Path} {segment : List UInt8}
    (h : segment ∈ p.segments.first :: p.segments.others) : segment <:+: p.bytes := by
  have hbytes : p.segments.toBytes = p.bytes := toBytes_ofBytes p.bytes
  rw [← hbytes, Segments.toBytes]
  cases h with
  | head => exact List.infix_append_left
  | tail _ hmem =>
      obtain ⟨before, after, hothers⟩ := List.append_of_mem hmem
      rw [hothers, List.flatMap_append, List.flatMap_cons]
      exact ⟨p.segments.first ++ before.flatMap (slash :: ·) ++ [slash],
        after.flatMap (slash :: ·), by simp⟩

/-- Leaving off the last segments leaves off the end of the text. -/
theorem toBytes_isPrefix (first : List UInt8) {others others' : List (List UInt8)}
    (h : others <+: others') :
    (Segments.mk first others).toBytes <+: (Segments.mk first others').toBytes := by
  obtain ⟨rest, rfl⟩ := h
  simp [Segments.toBytes]

/-! ## Segments that stand for something -/

/-- The segments that stand for something. -/
def significant (segments : List (List UInt8)) : List (List UInt8) :=
  segments.filter fun segment => !isVoid segment

@[simp] theorem significant_nil : significant [] = [] := rfl

@[simp] theorem significant_append (xs ys : List (List UInt8)) :
    significant (xs ++ ys) = significant xs ++ significant ys := List.filter_append _ _

theorem significant_singleton {segment : List UInt8} (h : isVoid segment = false) :
    significant [segment] = [segment] := by simp [significant, h]

/-- Dropping void segments at the front drops nothing significant. -/
theorem significant_dropWhile (segments : List (List UInt8)) :
    significant (segments.dropWhile isVoid) = significant segments := by
  induction segments with
  | nil => rfl
  | cons segment segments ih =>
      cases h : isVoid segment with
      | true => simpa [significant, h] using ih
      | false => simp [h]

@[simp] theorem significant_dropVoidEnd (segments : List (List UInt8)) :
    significant (dropVoidEnd segments) = significant segments := by
  have h := congrArg List.reverse (significant_dropWhile segments.reverse)
  simpa [significant, dropVoidEnd] using h

theorem dropVoidEnd_isPrefix (segments : List (List UInt8)) :
    dropVoidEnd segments <+: segments := by
  rw [← List.reverse_suffix, dropVoidEnd, List.reverse_reverse]
  exact List.dropWhile_suffix isVoid

theorem dropVoidEnd_subset (segments : List (List UInt8)) : dropVoidEnd segments ⊆ segments :=
  (dropVoidEnd_isPrefix segments).subset

/-- The same drop, read from the back. -/
theorem dropWhile_reverse_of_dropVoidEnd {segments before : List (List UInt8)}
    {last : List UInt8} (h : dropVoidEnd segments = before ++ [last]) :
    segments.reverse.dropWhile isVoid = last :: before.reverse := by
  simpa [dropVoidEnd, List.reverse_eq_append_iff] using h

/-- The segment at which the drop stops is not void. -/
theorem isVoid_of_dropVoidEnd {segments before : List (List UInt8)} {last : List UInt8}
    (h : dropVoidEnd segments = before ++ [last]) : isVoid last = false := by
  have hdrop := dropWhile_reverse_of_dropVoidEnd h
  have := List.head_dropWhile_not (p := isVoid) (l := segments.reverse) (by simp [hdrop])
  simpa [hdrop] using this

/-! ## Components of segments -/

/-- A path that is more than an empty segment begins with its first segment or at
the root. -/
theorem leading_eq {first : List UInt8} {others : List (List UInt8)}
    (h : first ≠ [] ∨ others ≠ []) :
    (Segments.mk first others).leading =
      [if first = [] then .root else .ofSegment first] := by
  by_cases hfirst : first = []
  · simp [Segments.leading, hfirst, h.resolve_left (not_not_intro hfirst)]
  · simp [Segments.leading, hfirst]

/-- A path with text has a first component, for the root or for its first segment. -/
theorem components_eq_cons {p : Path} (h : p.segments.first ≠ [] ∨ p.segments.others ≠ []) :
    p.components = (if p.segments.first = [] then .root else .ofSegment p.segments.first) ::
      (significant p.segments.others).map Component.ofSegment := by
  rw [components, leading_eq h, List.singleton_append, significant]

@[simp] theorem components_nil : components ⟨[]⟩ = [] := rfl

theorem isVoid_eq_false {name : List UInt8} (h : ¬ IsDots name) : isVoid name = false := by
  rw [IsDots, not_or, not_or] at h
  simp [isVoid, h]

theorem Component.ofSegment_eq_name {name : List UInt8} (h : ¬ IsDots name) :
    Component.ofSegment name = .name name := by
  rw [IsDots, not_or, not_or] at h
  simp [Component.ofSegment, h]

/-! ## The last component -/

/-- Where the segments after the first stand for nothing, the first is the last component. -/
theorem splitLast_of_nil {p : Path} (h : dropVoidEnd p.segments.others = []) :
    p.splitLast = ([], p.segments.first) := by
  rw [dropVoidEnd, List.reverse_eq_nil_iff] at h
  simp [splitLast, h]

/-- Else the last one that stands for something is, and the text before it goes up to
the one before, or is the root. -/
theorem splitLast_of_concat {p : Path} {before : List (List UInt8)} {last : List UInt8}
    (h : dropVoidEnd p.segments.others = before ++ [last]) :
    p.splitLast =
      (if p.segments.first = [] ∧ dropVoidEnd before = [] then [slash]
        else (Segments.mk p.segments.first (dropVoidEnd before)).toBytes, last) := by
  rw [splitLast, dropWhile_reverse_of_dropVoidEnd h, dropVoidEnd]
  dsimp only
  generalize p.segments.first = first
  generalize before.reverse.dropWhile isVoid = rest
  cases first <;> cases rest <;> simp

/-- The segments of the text before the last component, unless that is the root. -/
theorem segments_parentText {p : Path} {before : List (List UInt8)} {last : List UInt8}
    (h : dropVoidEnd p.segments.others = before ++ [last])
    (hroot : ¬ (p.segments.first = [] ∧ dropVoidEnd before = [])) :
    segments ⟨p.parentText⟩ = ⟨p.segments.first, dropVoidEnd before⟩ := by
  have hslash : ∀ segment ∈ p.segments.first :: p.segments.others, slash ∉ segment :=
    slash_not_mem_ofBytes p.bytes
  have hsubset : before ⊆ p.segments.others := by
    intro segment hmem
    exact dropVoidEnd_subset _ (h ▸ List.mem_append_left _ hmem)
  rw [parentText, splitLast_of_concat h, if_neg hroot]
  apply ofBytes_toBytes
  intro segment hmem
  apply hslash
  exact List.cons_subset_cons _ (List.Subset.trans (dropVoidEnd_subset before) hsubset) hmem

/-- The text before the last component is the front of the path. -/
theorem parentText_isPrefix (p : Path) : p.parentText <+: p.bytes := by
  have hbytes : p.segments.toBytes = p.bytes := toBytes_ofBytes p.bytes
  obtain hnil | ⟨before, last, hconcat⟩ := List.eq_nil_or_concat' (dropVoidEnd p.segments.others)
  · rw [parentText, splitLast_of_nil hnil]
    exact List.nil_prefix
  · have hothers : before ++ [last] <+: p.segments.others := hconcat ▸ dropVoidEnd_isPrefix _
    have hfront := toBytes_isPrefix p.segments.first hothers
    rw [hbytes] at hfront
    rw [parentText, splitLast_of_concat hconcat]
    refine List.IsPrefix.trans ?_ hfront
    split
    · next hroot => cases before <;> simp [Segments.toBytes, hroot.1]
    · exact toBytes_isPrefix _ ((dropVoidEnd_isPrefix before).trans (List.prefix_append _ _))

/-- A path is the text before its last component and that component. -/
theorem components_eq_concat {p : Path} (h : p.splitLast.2 ≠ []) :
    p.components = components ⟨p.parentText⟩ ++ [.ofSegment p.splitLast.2] := by
  have hsignificant := significant_dropVoidEnd p.segments.others
  obtain hnil | ⟨before, last, hconcat⟩ := List.eq_nil_or_concat' (dropVoidEnd p.segments.others)
  · have hlast := splitLast_of_nil hnil
    have hfirst : p.segments.first ≠ [] := by simpa [hlast] using h
    rw [hnil] at hsignificant
    rw [components_eq_cons (Or.inl hfirst), parentText, hlast, if_neg hfirst, ← hsignificant]
    rfl
  · have hothers : p.segments.others ≠ [] := by
      intro hnil
      simp [hnil, dropVoidEnd] at hconcat
    have hbefore := significant_dropVoidEnd before
    have hlast : p.splitLast.2 = last := by rw [splitLast_of_concat hconcat]
    rw [hconcat, significant_append, significant_singleton (isVoid_of_dropVoidEnd hconcat)]
      at hsignificant
    rw [components_eq_cons (Or.inr hothers), hlast, ← hsignificant, List.map_append,
      List.map_singleton, ← List.cons_append, ← hbefore]
    congr 1
    by_cases hroot : p.segments.first = [] ∧ dropVoidEnd before = []
    · rw [parentText, splitLast_of_concat hconcat, if_pos hroot, if_pos hroot.1, hroot.2]
      rfl
    · have hsegments := segments_parentText hconcat hroot
      rw [components_eq_cons (by rw [hsegments]; tauto), hsegments]

/-- A path whose last component has no text is empty or the root. -/
theorem components_of_snd_splitLast_eq_nil {p : Path} (h : p.splitLast.2 = []) :
    p.components = [] ∨ p.components = [.root] := by
  obtain hnil | ⟨before, last, hconcat⟩ := List.eq_nil_or_concat' (dropVoidEnd p.segments.others)
  · have hsignificant := significant_dropVoidEnd p.segments.others
    rw [splitLast_of_nil hnil] at h
    rw [hnil] at hsignificant
    rw [components, Segments.leading, if_pos h, ← significant, ← hsignificant]
    split
    · exact Or.inl rfl
    · exact Or.inr rfl
  · have hvoid := isVoid_of_dropVoidEnd hconcat
    rw [splitLast_of_concat hconcat] at h
    simp only at h
    simp [h, isVoid] at hvoid

/-- The file name is the last component, if that is the name of an entry. -/
theorem fileName?_eq_some_iff {p : Path} {name : List UInt8} :
    p.fileName? = some name ↔ p.components.getLast? = some (.name name) := by
  by_cases hlast : p.splitLast.2 = []
  · have hname : p.fileName? = none := by simp [fileName?, hlast, isVoid]
    obtain h | h := components_of_snd_splitLast_eq_nil hlast
    · simp [hname, h]
    · simp [hname, h]
  · rw [components_eq_concat hlast, List.getLast?_concat, fileName?]
    simp only [Component.ofSegment, isVoid, hlast, beq_iff_eq, Bool.or_eq_true, false_or]
    split
    · next hdots =>
        obtain h | h := hdots
        · simp [h]
        · simp [h]
    · next hdots =>
        rw [not_or] at hdots
        simp [hdots]

/-- There is no file name if there are no components or the last one is no entry's name. -/
theorem fileName?_eq_none_iff {p : Path} :
    p.fileName? = none ↔ p.components = [] ∨ p.components.getLast? = some .root ∨
      p.components.getLast? = some .current ∨ p.components.getLast? = some .parent := by
  have hname := @fileName?_eq_some_iff p
  rw [Option.eq_none_iff_forall_ne_some]
  simp only [ne_eq, hname]
  cases hlast : p.components.getLast? with
  | none => simpa using List.getLast?_eq_none_iff.mp hlast
  | some last =>
      have hne : p.components ≠ [] := by
        intro hnil
        simp [hnil] at hlast
      cases last <;> simp [hne]

/-- The components of a path are those of its parent and then its file name. -/
theorem components_of_fileName? {p : Path} {name : List UInt8} (h : p.fileName? = some name) :
    p.components = components ⟨p.parentText⟩ ++ [.name name] := by
  have hlast : p.splitLast.2 ≠ [] := by
    intro hnil
    simp [fileName?, hnil, isVoid] at h
  have hcomponents := components_eq_concat hlast
  have hname := fileName?_eq_some_iff.mp h
  rw [hcomponents, List.getLast?_concat, Option.some.injEq] at hname
  rw [hcomponents, hname]

theorem snd_splitLast_mem (p : Path) :
    p.splitLast.2 ∈ p.segments.first :: p.segments.others := by
  obtain hnil | ⟨before, last, hconcat⟩ := List.eq_nil_or_concat' (dropVoidEnd p.segments.others)
  · simp [splitLast_of_nil hnil]
  · rw [splitLast_of_concat hconcat]
    exact List.mem_cons_of_mem _ (dropVoidEnd_subset _ (hconcat ▸ List.mem_concat_self))

/-- A file name is not empty and has no slash. -/
theorem of_fileName? {p : Path} {name : List UInt8} (h : p.fileName? = some name) :
    name ≠ [] ∧ slash ∉ name := by
  simp only [fileName?, Option.ite_none_left_eq_some, Option.some.injEq] at h
  obtain ⟨hdots, rfl⟩ := h
  constructor
  · intro hnil
    simp [hnil, isVoid] at hdots
  · exact slash_not_mem_ofBytes p.bytes _ p.snd_splitLast_mem

/-- The file name stands in the path. -/
theorem infix_of_fileName? {p : Path} {name : List UInt8} (h : p.fileName? = some name) :
    name <:+: p.bytes := by
  simp only [fileName?, Option.ite_none_left_eq_some, Option.some.injEq] at h
  obtain ⟨-, rfl⟩ := h
  exact infix_bytes_of_mem_segments p.snd_splitLast_mem

/-! ## Joining -/

theorem mem_join {b : UInt8} {directory name : List UInt8} (h : b ∈ join directory name) :
    b ∈ directory ∨ b = slash ∨ b ∈ name := by
  rw [join] at h
  split at h
  · simp only [List.mem_append] at h
    tauto
  · simpa using h

/-- A word without a slash stands on one side of a join. -/
theorem infix_of_infix_join {word directory name : List UInt8} (hslash : slash ∉ word)
    (h : word <:+: join directory name) : word <:+: directory ∨ word <:+: name := by
  rw [join] at h
  split at h
  · next hend =>
      obtain rfl | hend := hend
      · exact Or.inr h
      · obtain ⟨front, rfl⟩ := List.getLast?_eq_some_iff.mp hend
        rw [List.append_assoc, List.singleton_append, Text.infix_append_cons_iff hslash] at h
        exact h.imp_left fun hfront => List.infix_append_of_infix_left hfront
  · exact (Text.infix_append_cons_iff hslash).mp h

/-- Joined to nothing, a name is the whole path. -/
theorem segments_join_nil {name : List UInt8} (hslash : slash ∉ name) :
    segments ⟨join [] name⟩ = ⟨name, []⟩ := by
  simp [join, segments, ofBytes_of_not_mem hslash]

/-- Joining puts a name behind the segments of a directory's text, whichever name it is. A slash
at the end of that text is the one between. -/
theorem exists_segments_join {directory : List UInt8} (hne : directory ≠ []) :
    ∃ s : Segments,
      components ⟨directory⟩ = (if s.first = [] then .root else .ofSegment s.first) ::
        (significant s.others).map Component.ofSegment ∧
      ∀ name, slash ∉ name → segments ⟨join directory name⟩ = ⟨s.first, s.others ++ [name]⟩ := by
  by_cases hlast : directory.getLast? = some slash
  · obtain ⟨front, rfl⟩ := List.getLast?_eq_some_iff.mp hlast
    have hdirectory : segments ⟨front ++ [slash]⟩ =
        ⟨(Segments.ofBytes front).first, (Segments.ofBytes front).others ++ [[]]⟩ :=
      ofBytes_append_slash front []
    refine ⟨Segments.ofBytes front, ?_, ?_⟩
    · have hempty : significant [[]] = [] := rfl
      rw [components_eq_cons (by simp [hdirectory]), hdirectory]
      simp [hempty]
    · intro name hslash
      rw [join, if_pos (Or.inr hlast), List.append_assoc, List.singleton_append]
      simp [segments, ofBytes_append_slash, ofBytes_of_not_mem hslash]
  · have hbytes : (segments ⟨directory⟩).toBytes = directory := toBytes_ofBytes directory
    refine ⟨segments ⟨directory⟩, ?_, ?_⟩
    · apply components_eq_cons
      by_contra! hempty
      exact hne (by simpa [Segments.toBytes, hempty] using hbytes.symm)
    · intro name hslash
      rw [join, if_neg (not_or.mpr ⟨hne, hlast⟩)]
      simp [segments, ofBytes_append_slash, ofBytes_of_not_mem hslash]

/-- A name joined to a directory's text is one component more. -/
theorem components_join (directory : List UInt8) {name : List UInt8} (hslash : slash ∉ name)
    (hdots : ¬ IsDots name) :
    components ⟨join directory name⟩ = components ⟨directory⟩ ++ [.name name] := by
  rw [← Component.ofSegment_eq_name hdots]
  by_cases hnil : directory = []
  · have hname : name ≠ [] := fun h => hdots (Or.inl h)
    have hsegments := segments_join_nil hslash
    rw [hnil, components_eq_cons (by simp [hsegments, hname]), hsegments]
    simp [hname]
  · obtain ⟨s, hdirectory, hjoin⟩ := exists_segments_join hnil
    have hsegments := hjoin name hslash
    rw [components_eq_cons (by simp [hsegments]), hsegments, hdirectory]
    simp [significant_singleton (isVoid_eq_false hdots)]

/-- The file name of a join is the name that is joined. -/
theorem fileName?_join (directory : List UInt8) {name : List UInt8} (hslash : slash ∉ name)
    (hdots : ¬ IsDots name) : fileName? ⟨join directory name⟩ = some name := by
  rw [fileName?_eq_some_iff, components_join directory hslash hdots, List.getLast?_concat]

/-- Names joined to one directory's text have the same text before them. -/
theorem parentText_join (directory : List UInt8) {name name' : List UInt8}
    (hslash : slash ∉ name) (hdots : ¬ IsDots name) (hslash' : slash ∉ name')
    (hdots' : ¬ IsDots name') :
    parentText ⟨join directory name⟩ = parentText ⟨join directory name'⟩ := by
  by_cases hnil : directory = []
  · have hnone {name : List UInt8} (hslash : slash ∉ name) :
        parentText ⟨join [] name⟩ = [] := by
      rw [parentText, splitLast_of_nil (by rw [segments_join_nil hslash]; rfl)]
    rw [hnil, hnone hslash, hnone hslash']
  · obtain ⟨s, -, hjoin⟩ := exists_segments_join hnil
    have hconcat {name : List UInt8} (hslash : slash ∉ name) (hdots : ¬ IsDots name) :
        dropVoidEnd (segments ⟨join directory name⟩).others = s.others ++ [name] := by
      rw [hjoin name hslash]
      simp [dropVoidEnd, isVoid_eq_false hdots]
    rw [parentText, parentText, splitLast_of_concat (hconcat hslash hdots),
      splitLast_of_concat (hconcat hslash' hdots'), hjoin name hslash, hjoin name' hslash']

end Sidecar.Path
