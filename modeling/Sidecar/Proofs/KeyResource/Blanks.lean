import Sidecar.Proofs.KeyResource
import Sidecar.Proofs.Verifier

/-!
# Sidecar.Proofs.KeyResource.Blanks

Blanks around a key's text. They are no part of what is read (`trim_append`), be the
text a key or not; but they are part of the resource, so they count where its size is
looked at. A check under a resource with blanks around it is that under the resource
itself as long as both fit (`blanks_have_no_part`).
-/

namespace Sidecar

/-! ## Trimmed texts -/

namespace Text

/-- The numbers of the characters with the Unicode property White_Space. -/
def whiteSpace : List Nat :=
  [0x09, 0x0A, 0x0B, 0x0C, 0x0D, 0x20, 0x85, 0xA0, 0x1680, 0x2000, 0x2001, 0x2002, 0x2003, 0x2004,
    0x2005, 0x2006, 0x2007, 0x2008, 0x2009, 0x200A, 0x2028, 0x2029, 0x202F, 0x205F, 0x3000]

theorem isBlank_iff {c : Char} : isBlank c = true ↔ c.toNat ∈ whiteSpace := by
  simp [isBlank, whiteSpace]
  omega

/-- A text of blanks alone. -/
def AllBlank (text : List Char) : Prop := ∀ c ∈ text, c.toNat ∈ whiteSpace

variable {before after : List Char}

/-- Blanks in front of a text are dropped with those that it begins with. -/
theorem AllBlank.dropWhile_append (h : AllBlank before) (text : List Char) :
    (before ++ text).dropWhile isBlank = text.dropWhile isBlank :=
  List.dropWhile_append_of_pos fun c hc => isBlank_iff.mpr (h c hc)

theorem AllBlank.reverse (h : AllBlank after) : AllBlank after.reverse :=
  fun c hc => h c (List.mem_reverse.mp hc)

theorem trimEnd_append (text : List Char) (h : AllBlank after) :
    trimEnd (text ++ after) = trimEnd text := by
  rw [trimEnd, List.reverse_append, h.reverse.dropWhile_append, trimEnd]

/-- Blanks that are added on either side are dropped, from the front alone if the text is blank
itself. -/
theorem trim_append (hbefore : AllBlank before) (text : List Char) (hafter : AllBlank after) :
    trim (before ++ text ++ after) = trim text := by
  rw [trim, trim, List.append_assoc, hbefore.dropWhile_append, List.dropWhile_append]
  split
  · next hempty =>
      have hafter := hafter.dropWhile_append []
      simp only [List.append_nil, List.dropWhile_nil] at hafter
      rw [hafter, List.isEmpty_iff.mp hempty]
  · exact trimEnd_append _ hafter

end Text

/-! ## Resources -/

namespace KeyResource

open Text

variable {r : KeyResource} {before text after : List Char}

/-- A resource with texts before and after it. -/
def between (before : List Char) (r : KeyResource) (after : List Char) : KeyResource :=
  ⟨Utf8.encode before ++ r.bytes ++ Utf8.encode after⟩

theorem size_between (before : List Char) (r : KeyResource) (after : List Char) :
    (between before r after).size =
      (Utf8.encode before).length + r.size + (Utf8.encode after).length := by
  simp [size, between, Nat.add_assoc]

/-- The text between blanks is still UTF-8, with the blanks in it. -/
theorem decode_between (htext : Utf8.decode r.bytes = .ok text) :
    Utf8.decode (between before r after).bytes = .ok (before ++ text ++ after) := by
  rw [Utf8.decode_eq_ok_iff] at htext ⊢
  simp [between, htext]

/-- **Blanks have no part in the key**, nor in the reason why there is none. -/
theorem materialize_between (hne : r.bytes ≠ []) (htext : Utf8.decode r.bytes = .ok text)
    (hbefore : AllBlank before) (hafter : AllBlank after) :
    (between before r after).materialize = r.materialize := by
  have hne' : (between before r after).bytes ≠ [] := by simp [between, hne]
  rw [materialize_of_decode hne' (decode_between htext), materialize_of_decode hne htext,
    trim_append hbefore text hafter]

/-- **Blanks around a key**: what the bytes of a text spell, or the failure to read them,
is the same with blanks around the text. Only its size is another, and with that a
check either is the check under the text alone, or fails for that size before it
looks at a file. -/
theorem blanks_have_no_part (hne : r.bytes ≠ []) (htext : Utf8.decode r.bytes = .ok text)
    (hbefore : ∀ c ∈ before, c.toNat ∈ whiteSpace) (hafter : ∀ c ∈ after, c.toNat ∈ whiteSpace) :
    let padded := between before r after
    padded.materialize = r.materialize ∧
    padded.size = (Utf8.encode before).length + r.size + (Utf8.encode after).length ∧
    (padded.size ≤ 800 → padded.checkSize = .ok () ∧
      ∀ opener path, check opener padded path = check opener r path) ∧
    (800 < padded.size → padded.checkSize = .error (.keyTooLarge padded.size) ∧
      ∀ opener path, check opener padded path = ⟨[], .error (.keyTooLarge padded.size)⟩) := by
  intro padded
  have hsize : padded.size = (Utf8.encode before).length + r.size + (Utf8.encode after).length :=
    size_between before r after
  have hkey : padded.materialize = r.materialize := materialize_between hne htext hbefore hafter
  refine ⟨hkey, hsize, ?_, ?_⟩
  · intro hle
    have hchecked : padded.checkSize = .ok () := checkSize_eq_ok_iff.mpr hle
    have hchecked' : r.checkSize = .ok () :=
      checkSize_eq_ok_iff.mpr (Nat.le_trans (by omega) hle)
    refine ⟨hchecked, fun opener path => check_congr_key ?_ opener path⟩
    rw [usableKey, usableKey, hchecked, hchecked', hkey]
  · intro hlt
    have hrefused : padded.checkSize = .error (.keyTooLarge padded.size) := if_pos hlt
    refine ⟨hrefused, fun opener path => check_of_usableKey ?_ opener path⟩
    rw [usableKey, hrefused, error_bind]

/-- An ideographic space before the text of the largest key, which fills its bounds, and
a next line after it. -/
theorem blanks_have_no_part_largest :
    let padded := between ['\u3000'] (ofText largestKey.toInfoText) ['\u0085']
    padded.materialize = .ok largestKey ∧
      ∀ opener path, check opener padded path = ⟨[], .error (.keyTooLarge 805)⟩ := by
  intro padded
  have hsize : padded.size = 805 := by decide +kernel
  have hpadded := @blanks_have_no_part (ofText largestKey.toInfoText) ['\u3000'] _ ['\u0085']
    (by decide +kernel) (Utf8.decode_eq_ok_iff.mpr rfl)
    (List.forall_mem_singleton.mpr (by decide)) (List.forall_mem_singleton.mpr (by decide))
  refine ⟨hpadded.1.trans materialize_largestKey, fun opener path => ?_⟩
  rw [(hpadded.2.2.2 (by rw [hsize]; decide)).2 opener path, hsize]

/-- A resource without a text is told from one with blanks alone. -/
example : (KeyResource.mk []).materialize ≠ (between [] ⟨[]⟩ [' ']).materialize := by
  decide +kernel

end KeyResource

end Sidecar
