import Mathlib.Data.List.DropRight
import Sidecar.Proofs.Text.Utf16
import Sidecar.Proofs.Verifier

/-!
# Sidecar.Proofs.WidePath

Paths that come as UTF-16 units: a text's wide form, with any number of
terminators, stands for the path of its UTF-8 form, and units that are no text's
wide form stand for no path at all. A verification of a wide path is
the one of that path, or an outcome that no file and no key has a part in
(`verifyWide_agrees`).
-/

namespace Sidecar

open Text

/-! ## Terminators -/

namespace Path

theorem dropTerminators_eq (units : List UInt16) :
    dropTerminators units = units.rdropWhile (· == 0) := rfl

/-- Where no terminator stands at the end, none is dropped. -/
theorem dropTerminators_of_getLast? {units : List UInt16} (h : units.getLast? ≠ some 0) :
    dropTerminators units = units := by
  rw [dropTerminators_eq, List.rdropWhile_eq_self_iff]
  intro hne hzero
  rw [List.getLast?_eq_some_getLast hne, beq_iff_eq.mp hzero] at h
  exact h rfl

theorem getLast?_dropTerminators (units : List UInt16) :
    (dropTerminators units).getLast? ≠ some 0 := by
  intro hzero
  have hne : units.rdropWhile (· == 0) ≠ [] := by
    intro hnil
    simp [dropTerminators_eq, hnil] at hzero
  have hlast := List.rdropWhile_last_not _ _ hne
  rw [dropTerminators_eq, List.getLast?_eq_some_getLast hne, Option.some.injEq] at hzero
  exact hlast (beq_iff_eq.mpr hzero)

/-- Terminators that are added are dropped. -/
theorem dropTerminators_append_replicate (units : List UInt16) (k : Nat) :
    dropTerminators (units ++ List.replicate k 0) = dropTerminators units := by
  induction k with
  | zero => rw [List.replicate_zero, List.append_nil]
  | succ k ih =>
      rw [List.replicate_succ', ← List.append_assoc, dropTerminators_eq,
        List.rdropWhile_concat_pos _ _ _ rfl, ← dropTerminators_eq, ih]

/-- Nothing but terminators is dropped. -/
theorem exists_eq_dropTerminators_append (units : List UInt16) :
    ∃ k, units = dropTerminators units ++ List.replicate k 0 := by
  induction units using List.reverseRecOn with
  | nil => exact ⟨0, rfl⟩
  | append_singleton units u ih =>
      by_cases hzero : u = 0
      · obtain ⟨k, hk⟩ := ih
        have hdrop : dropTerminators (units ++ [u]) = dropTerminators units := by
          rw [hzero]
          exact dropTerminators_append_replicate units 1
        refine ⟨k + 1, ?_⟩
        rw [hdrop, List.replicate_succ', ← List.append_assoc, ← hk, hzero]
      · have hdrop : dropTerminators (units ++ [u]) = units ++ [u] :=
          dropTerminators_of_getLast? (by simpa using hzero)
        exact ⟨0, by simp [hdrop]⟩

/-- Units are equal without their terminators if they differ in the number of those only. -/
theorem dropTerminators_eq_iff {units units' : List UInt16} :
    dropTerminators units = dropTerminators units' ↔
      ∃ front k k',
        units = front ++ List.replicate k 0 ∧ units' = front ++ List.replicate k' 0 := by
  constructor
  · intro h
    obtain ⟨k, hk⟩ := exists_eq_dropTerminators_append units
    obtain ⟨k', hk'⟩ := exists_eq_dropTerminators_append units'
    exact ⟨dropTerminators units, k, k', hk, h ▸ hk'⟩
  · intro ⟨front, k, k', h, h'⟩
    rw [h, h', dropTerminators_append_replicate, dropTerminators_append_replicate]

/-- Zeros with another unit behind them are no terminators. -/
theorem dropTerminators_append {after : List UInt16} (h : ∃ u ∈ after, u ≠ 0)
    (before : List UInt16) :
    dropTerminators (before ++ after) = before ++ dropTerminators after := by
  have hne : ¬ (after.reverse.dropWhile (· == 0)).isEmpty := by
    simpa [List.isEmpty_iff, List.dropWhile_eq_nil_iff] using h
  rw [dropTerminators, List.reverse_append, List.dropWhile_append, if_neg hne,
    List.reverse_append, List.reverse_reverse, dropTerminators]

/-- A wide form ends in a zero unit only where the text ends in that character. -/
theorem getLast?_encode_ne_zero {text : List Char} (h : text.getLast? ≠ some '\x00') :
    (Utf16.encode text).getLast? ≠ some 0 := by
  cases text using List.reverseRecOn with
  | nil => simp
  | append_singleton text c =>
      rw [Utf16.encode_append, Utf16.encode_cons, Utf16.encode_nil, List.append_nil]
      obtain ⟨u, -, hform, rfl⟩ | ⟨high, low, -, hlow, hform, -⟩ := Utf16.encodeChar_cases c
      · rw [hform, List.getLast?_concat]
        intro hzero
        rw [Option.some.inj hzero] at h
        exact h List.getLast?_concat
      · rw [hform, List.append_cons, List.getLast?_concat]
        intro hzero
        rw [Option.some.inj hzero] at hlow
        exact absurd hlow (by decide)

/-! ## Wide paths -/

/-- A wide path is that of the text whose form stands before the terminators. -/
theorem ofWide_eq_ok_iff {units : List UInt16} {p : Path} :
    ofWide units = .ok p ↔ ∃ text, Utf16.encode text = dropTerminators units ∧ p = ofText text := by
  rw [ofWide]
  simp only [← Utf16.decode?_eq_some_iff]
  cases Utf16.decode? (dropTerminators units) with
  | none => simp
  | some text => simp [eq_comm]

/-- A wide path is rejected exactly if its text is ill formed. -/
theorem ofWide_eq_error_iff {units : List UInt16} {fault : PathFault} :
    ofWide units = .error fault ↔
      ¬ Utf16.WellFormed (dropTerminators units) ∧ fault = .loneSurrogate := by
  rw [ofWide, ← Utf16.decode?_eq_none_iff]
  cases Utf16.decode? (dropTerminators units) with
  | none => simp [eq_comm]
  | some text => simp

theorem ofWide_of_not_wellFormed {units : List UInt16}
    (h : ¬ Utf16.WellFormed (dropTerminators units)) : ofWide units = .error .loneSurrogate :=
  ofWide_eq_error_iff.mpr ⟨h, rfl⟩

theorem exists_ofWide_iff {units : List UInt16} :
    (∃ p, ofWide units = .ok p) ↔ Utf16.WellFormed (dropTerminators units) := by
  rw [exists_eq_ok_iff]
  simp [ofWide_eq_error_iff]

/-- **Round trip**: a text is accepted as its UTF-8 form, whatever the number of terminators. -/
theorem ofWide_encode {text : List Char} (h : text.getLast? ≠ some '\x00') (k : Nat) :
    ofWide (Utf16.encode text ++ List.replicate k 0) = .ok ⟨Utf8.encode text⟩ := by
  rw [ofWide_eq_ok_iff, dropTerminators_append_replicate,
    dropTerminators_of_getLast? (getLast?_encode_ne_zero h)]
  exact ⟨text, rfl, rfl⟩

/-- Wide paths are one path if they differ in their terminators only. -/
theorem bytes_eq_iff_of_ofWide {units units' : List UInt16} {p p' : Path}
    (h : ofWide units = .ok p) (h' : ofWide units' = .ok p') :
    p.bytes = p'.bytes ↔
      ∃ front k k',
        units = front ++ List.replicate k 0 ∧ units' = front ++ List.replicate k' 0 := by
  obtain ⟨text, htext, rfl⟩ := ofWide_eq_ok_iff.mp h
  obtain ⟨text', htext', rfl⟩ := ofWide_eq_ok_iff.mp h'
  rw [← dropTerminators_eq_iff, ← htext, ← htext', ofText, ofText, Utf8.encode_inj,
    Utf16.encode_inj]

/-- A zero unit that is no terminator is a NUL in the path, between the paths of what
stands before it, to its last zero, and of what stands after it. -/
theorem bytes_of_ofWide_append_zero {before after : List UInt16} {p : Path}
    (h : ofWide (before ++ 0 :: after) = .ok p) (hafter : ∃ u ∈ after, u ≠ 0) :
    ∃ front back, Utf16.encode front = before ∧ Utf16.encode back = dropTerminators after ∧
      p.bytes = Utf8.encode front ++ 0 :: Utf8.encode back := by
  obtain ⟨text, htext, rfl⟩ := ofWide_eq_ok_iff.mp h
  rw [List.append_cons, dropTerminators_append hafter, ← List.append_cons] at htext
  have hwhole : Utf16.IsWhole 0 := Or.inl (by decide)
  obtain ⟨front, back, rfl, hfront, hback⟩ := Utf16.exists_of_encode_eq_append_cons hwhole htext
  refine ⟨front, back, hfront, hback, ?_⟩
  rw [ofText, Utf8.encode_append, Utf8.encode_cons]
  rfl

/-- No accepted path ends in a zero byte. -/
theorem getLast?_bytes_ne_zero {units : List UInt16} {p : Path} (h : ofWide units = .ok p) :
    p.bytes.getLast? ≠ some 0 := by
  obtain ⟨text, htext, rfl⟩ := ofWide_eq_ok_iff.mp h
  apply Utf8.getLast?_encode_ne_zero
  intro hzero
  obtain ⟨front, rfl⟩ := List.getLast?_eq_some_iff.mp hzero
  have hlast := getLast?_dropTerminators units
  rw [← htext, Utf16.encode_append] at hlast
  exact hlast List.getLast?_concat

/-- **Wide paths are exact**: units stand for a path exactly if they are well formed
without the zeros at their end, and then for the UTF-8 form of the one text whose wide form
they are; else there is an invalid path. So wide paths are one path only if
they differ in the number of zeros at their end, every other zero is a NUL where it
stood, and no path ends in a NUL. -/
theorem ofWide_exact (units : List UInt16) :
    ((∃ p, ofWide units = .ok p) ↔ Utf16.WellFormed (units.rdropWhile (· == 0))) ∧
    (∀ p, ofWide units = .ok p ↔ ∃ text,
      Utf16.encode text = units.rdropWhile (· == 0) ∧ p.bytes = Utf8.encode text) ∧
    (¬ Utf16.WellFormed (units.rdropWhile (· == 0)) →
      ∃ fault reason, ofWide units = .error fault ∧ fault.failure = .invalidPath reason) ∧
    (∀ units' p p', ofWide units = .ok p → ofWide units' = .ok p' →
      (p.bytes = p'.bytes ↔ ∃ front k k',
        units = front ++ List.replicate k 0 ∧ units' = front ++ List.replicate k' 0)) ∧
    (∀ before after p, units = before ++ 0 :: after → (∃ u ∈ after, u ≠ 0) →
      ofWide units = .ok p →
        ∃ front back, Utf16.encode front = before ∧
          Utf16.encode back = after.rdropWhile (· == 0) ∧
          p.bytes = Utf8.encode front ++ 0 :: Utf8.encode back) ∧
    ∀ p, ofWide units = .ok p → p.bytes.getLast? ≠ some 0 := by
  refine ⟨exists_ofWide_iff, ?_, ?_, ?_, ?_, fun p => getLast?_bytes_ne_zero⟩
  · intro p
    have hbytes (text : List Char) : p = ofText text ↔ p.bytes = Utf8.encode text := by
      cases p
      simp [ofText]
    simp only [ofWide_eq_ok_iff, hbytes, dropTerminators_eq]
  · intro hill
    exact ⟨_, _, ofWide_of_not_wellFormed hill, rfl⟩
  · intro units' p p'
    exact bytes_eq_iff_of_ofWide
  · intro before after p hunits hafter hp
    rw [hunits] at hp
    exact bytes_of_ofWide_append_zero hp hafter

theorem ofWide_exact_zeros :
    ofWide [0, 0x61, 0, 0xD83D, 0xDE00, 0, 0] = .ok ⟨[0, 0x61, 0, 0xF0, 0x9F, 0x98, 0x80]⟩ ∧
      ∃ front back, Utf16.encode front = [0, 0x61] ∧ Utf16.encode back = [0xD83D, 0xDE00] ∧
        [0, 0x61, 0, 0xF0, 0x9F, 0x98, 0x80] = Utf8.encode front ++ 0 :: Utf8.encode back :=
  ⟨rfl, (ofWide_exact _).2.2.2.2.1 [0, 0x61] [0xD83D, 0xDE00, 0, 0] _ rfl (by decide) rfl⟩

end Path

/-! ## Verifications of wide paths -/

/-- What is accepted is verified as the path that it spells. -/
theorem verifyWide_of_ok {units : List UInt16} {path : Path} (h : Path.ofWide units = .ok path)
    (opener : Opener) (key : KeyResource) :
    verifyWide opener key units = verify opener key path := by
  rw [verifyWide, h]

/-- What is rejected fails before the key or the files are looked at. -/
theorem verifyWide_of_error {units : List UInt16} {fault : PathFault}
    (h : Path.ofWide units = .error fault) (opener : Opener) (key : KeyResource) :
    verifyWide opener key units = ([.wideRejected fault.failure], ⟨some fault.failure⟩) := by
  rw [verifyWide, h]

/-- **Wide and narrow paths agree**: the wide form of a text that does not end in a
NUL, with any number of terminators after it, is verified with the outcome and
the events of the text's own path. Units that are not well formed without their
terminators are rejected as a path, with one warning that is marked with no class
of failure, the same for every key and all files. -/
theorem verifyWide_agrees :
    (∀ (opener : Opener) (key : KeyResource) (text : List Char) (k : Nat),
      text.getLast? ≠ some '\x00' →
        verifyWide opener key (Utf16.encode text ++ List.replicate k 0) =
          verify opener key ⟨Utf8.encode text⟩) ∧
    ∀ units : List UInt16, ¬ Utf16.WellFormed (units.rdropWhile (· == 0)) →
      ∃ event failure, failure.kind = .invalidPath ∧ event.level = .warn ∧ event.kind? = none ∧
        ∀ (opener : Opener) (key : KeyResource),
          verifyWide opener key units = ([event], ⟨some failure⟩) := by
  constructor
  · intro opener key text k h
    exact verifyWide_of_ok (Path.ofWide_encode h k) opener key
  · intro units h
    exact ⟨_, _, rfl, rfl, rfl, verifyWide_of_error (Path.ofWide_of_not_wellFormed h)⟩

end Sidecar
