import Mathlib.Data.List.Induction
import Sidecar.Bytes

/-!
# Sidecar.Proofs.Text.Lines

The lines of a text as who reads it line by line sees them, and where a word can stand in
a text that is put together from parts: a sign that the word does not have keeps it on one
side (`infix_append_cons_iff`), and a part without the word's last sign has no end of it
(`infix_of_infix_append`).
-/

namespace Sidecar.Text

/-! ## Lines -/

/-- The lines of a text, without the line feeds that end them. What follows the last line
feed is no line. -/
def lines (text : List Char) : List (List Char) := (text.splitOn '\n').dropLast

@[simp] theorem lines_nil : lines [] = [] := rfl

/-- A line feed ends the lines before it, whatever follows. -/
theorem lines_append_cons (front back : List Char) :
    lines (front ++ '\n' :: back) = front.splitOn '\n' ++ lines back := by
  simp [lines, List.splitOn_append_cons_self, List.dropLast_append_of_ne_nil]

/-- A line at the front is the first one. -/
theorem lines_append_cons_of_not_mem {line : List Char} (h : '\n' ∉ line) (back : List Char) :
    lines (line ++ '\n' :: back) = line :: lines back := by
  rw [lines_append_cons, List.splitOn_eq_singleton h, List.singleton_append]

example : lines "a: ok\n\nb".toList = ["a: ok".toList, []] := by decide

/-- Whether a text is made of whole lines. -/
def EndsLine (text : List Char) : Prop := text = [] ∨ ∃ front, text = front ++ ['\n']

/-- Whole lines are the same whatever is put behind them. -/
theorem lines_append {front : List Char} (h : EndsLine front) (back : List Char) :
    lines (front ++ back) = lines front ++ lines back := by
  obtain rfl | ⟨text, rfl⟩ := h
  · simp
  · simp [lines_append_cons]

/-- The lines of texts that each end with their last line are those of one after the other. -/
theorem lines_flatMap {α : Type} {text : α → List Char} {xs : List α}
    (h : ∀ x ∈ xs, EndsLine (text x)) : lines (xs.flatMap text) = xs.flatMap fun x => lines (text x) := by
  induction xs with
  | nil => rfl
  | cons x xs ih =>
      rw [List.forall_mem_cons] at h
      rw [List.flatMap_cons, lines_append h.1, ih h.2, List.flatMap_cons]

/-- Of pieces with line feeds between them, each but the last has one behind it. -/
theorem infix_intercalate {piece : List Char} {pieces : List (List Char)}
    (h : piece ∈ pieces.dropLast) : piece ++ ['\n'] <:+: ['\n'].intercalate pieces := by
  induction pieces with
  | nil => simp at h
  | cons first rest ih =>
      cases rest with
      | nil => simp at h
      | cons second rest =>
          rw [List.dropLast_cons_cons, List.mem_cons] at h
          rw [List.intercalate_cons_cons]
          obtain rfl | h := h
          · exact List.infix_append_left
          · exact List.infix_append_of_infix_right (ih h)

/-- A line stands in its text with a line feed behind it. -/
theorem infix_of_mem_lines {line text : List Char} (h : line ∈ lines text) :
    line ++ ['\n'] <:+: text := by
  have hinfix := infix_intercalate h
  rwa [List.intercalate_splitOn] at hinfix

/-! ## Words in texts -/

variable {α : Type} {c : α} {word front back : List α}

/-- A word stands on one side of a sign that it does not have. -/
theorem infix_append_cons_iff (h : c ∉ word) :
    word <:+: front ++ c :: back ↔ word <:+: front ∨ word <:+: back := by
  constructor
  · intro hword
    obtain hfront | hback | ⟨left, right, rfl, hleft, hright⟩ := List.infix_append_iff.mp hword
    · exact Or.inl hfront
    · obtain hprefix | hback := List.infix_cons_iff.mp hback
      · cases word with
        | nil => exact Or.inl (List.nil_infix)
        | cons d word => simp_all [List.cons_prefix_cons]
      · exact Or.inr hback
    · cases right with
      | nil => exact Or.inl (by simpa using hleft.isInfix)
      | cons d right => simp_all [List.cons_prefix_cons]
  · rintro (hfront | hback)
    · exact List.infix_append_of_infix_left hfront
    · exact List.infix_append_of_infix_right (List.infix_cons hback)

/-- A word without the character that a front ends with stands in the front or in what follows,
never across. -/
theorem infix_append_of_getLast? (hfront : front.getLast? = some c) (h : c ∉ word) :
    word <:+: front ++ back ↔ word <:+: front ∨ word <:+: back := by
  obtain ⟨text, rfl⟩ := List.getLast?_eq_some_iff.mp hfront
  have hend : word <:+: text ++ [c] ↔ word <:+: text := by
    rw [infix_append_cons_iff h, List.infix_nil, or_iff_left_iff_imp]
    rintro rfl
    exact List.nil_infix
  rw [hend, List.append_assoc, List.singleton_append, infix_append_cons_iff h]

/-- A word does not reach into a text that does not have its last sign. -/
theorem infix_of_infix_append (hlast : word.getLast? = some c) (hback : c ∉ back)
    (h : word <:+: front ++ back) : word <:+: front := by
  obtain hfront | hword | ⟨left, right, rfl, hleft, hright⟩ := List.infix_append_iff.mp h
  · exact hfront
  · exact absurd (hword.subset (List.mem_of_getLast? hlast)) hback
  · cases right using List.reverseRecOn with
    | nil => simpa using hleft.isInfix
    | append_singleton right d =>
        rw [← List.append_assoc, List.getLast?_concat, Option.some.injEq] at hlast
        have hmem : c ∈ back := hright.subset (by simp [hlast])
        exact absurd hmem hback

end Sidecar.Text
