import Mathlib.Data.List.Induction
import Sidecar.Path

/-!
# Sidecar.Proofs.Path

The last segment of a path. It is empty if the path ends with a slash
(`last_ofBytes_eq_nil_iff`), which asks for a directory where files are looked up, and
which no text before a last component does but the root's.
-/

namespace Sidecar.Path

/-! ## The last segment -/

/-- What stands after the last slash. -/
def Segments.last (s : Segments) : List UInt8 := s.others.getLast?.getD s.first

@[simp] theorem Segments.last_nil (first : List UInt8) : (Segments.mk first []).last = first := rfl

@[simp] theorem Segments.last_concat (first segment : List UInt8) (others : List (List UInt8)) :
    (Segments.mk first (others ++ [segment])).last = segment := by
  simp [Segments.last]

/-- The last segment does not depend on the first, if there is another. -/
theorem Segments.last_cons (first segment : List UInt8) (others : List (List UInt8)) :
    (Segments.mk first (segment :: others)).last = (Segments.mk segment others).last := by
  simp [Segments.last, List.getLast?_cons]

theorem getLast?_slash_cons (bs : List UInt8) :
    (slash :: bs).getLast? = some slash ↔ bs = [] ∨ bs.getLast? = some slash := by
  cases bs using List.reverseRecOn with
  | nil => simp
  | append_singleton bs b => simp [List.getLast?_cons]

theorem getLast?_cons_of_ne_slash {b : UInt8} (h : b ≠ slash) (bs : List UInt8) :
    (b :: bs).getLast? = some slash ↔ bs.getLast? = some slash := by
  cases bs using List.reverseRecOn with
  | nil => simpa using h
  | append_singleton bs b' => simp [List.getLast?_cons]

/-- The last segment is empty if nothing stands after the last slash; without a slash all bytes
are that segment. -/
theorem last_ofBytes_eq_nil_iff (bs : List UInt8) :
    (Segments.ofBytes bs).last = [] ↔ bs = [] ∨ bs.getLast? = some slash := by
  induction bs with
  | nil => simp [Segments.ofBytes]
  | cons b bs ih =>
      rw [Segments.ofBytes]
      by_cases hb : b = slash
      · rw [if_pos hb, Segments.last_cons, ih, hb, getLast?_slash_cons]
        simp
      · have hbytes := toBytes_ofBytes bs
        rw [if_neg hb, getLast?_cons_of_ne_slash hb]
        generalize Segments.ofBytes bs = s at ih hbytes ⊢
        obtain ⟨first, others⟩ := s
        cases others with
        | nil =>
            have hfirst : first = bs := by simpa [Segments.toBytes] using hbytes
            subst hfirst
            cases first <;> simp_all
        | cons segment others =>
            have hne : bs ≠ [] := by simp [← hbytes, Segments.toBytes]
            simpa [Segments.last_cons, hne] using ih

/-! ## Names of no entry -/

/-- A name that no entry has of its own: it is empty, a dot, or two dots. -/
def IsDots (name : List UInt8) : Prop := name = [] ∨ name = [dot] ∨ name = [dot, dot]

end Sidecar.Path
