import Sidecar.Proofs.Text.Utf8
import Sidecar.Text.Utf16

/-!
# Sidecar.Proofs.Text.Utf16

Strict reading of UTF-16 undoes writing and accepts nothing else
(`decode?_eq_some_iff`), and what it accepts is given by the grammar of unit
sequences without any reading (`wellFormed_iff_exists_encode`).

Both readings of a sequence go by what stands at its front: one unit that is no
surrogate (`decode?_cons_unit`), or a pair (`decode?_cons_pair`).
-/

namespace Sidecar.Text.Utf16

/-! ## Units and their characters -/

/-- A unit that is a character by itself. -/
def IsWhole (u : UInt16) : Prop := u.toNat < 0xD800 ∨ 0xDFFF < u.toNat

theorem isHigh_iff {u : UInt16} : isHigh u = true ↔ 0xD800 ≤ u.toNat ∧ u.toNat ≤ 0xDBFF := by
  simp [isHigh, UInt16.le_iff_toNat_le]

theorem isLow_iff {u : UInt16} : isLow u = true ↔ 0xDC00 ≤ u.toNat ∧ u.toNat ≤ 0xDFFF := by
  simp [isLow, UInt16.le_iff_toNat_le]

/-- A unit is whole if it is no part of a pair. -/
theorem isWhole_iff {u : UInt16} : IsWhole u ↔ isHigh u = false ∧ isLow u = false := by
  rw [← Bool.not_eq_true, ← Bool.not_eq_true, isHigh_iff, isLow_iff, IsWhole]
  omega

theorem toNat_ofNat_of_isWhole {u : UInt16} (h : IsWhole u) :
    (Char.ofNat u.toNat).toNat = u.toNat := by
  have hlt : u.toNat < 0x10000 := u.toNat_lt
  apply Utf8.toNat_ofNat_of_isValidChar
  unfold IsWhole at h
  unfold Nat.isValidChar
  omega

/-- A pair's number, counted from the first character that needs one. -/
theorem toNat_pair {high low : UInt16} (hhigh : isHigh high = true) (hlow : isLow low = true) :
    (pair high low).toNat =
      0x10000 + (high.toNat - 0xD800) * 0x400 + (low.toNat - 0xDC00) := by
  rw [isHigh_iff] at hhigh
  rw [isLow_iff] at hlow
  apply Utf8.toNat_ofNat_of_isValidChar
  unfold Nat.isValidChar
  omega

/-- The character of a whole unit is written as that unit. -/
theorem encodeChar_ofNat {u : UInt16} (h : IsWhole u) : encodeChar (Char.ofNat u.toNat) = [u] := by
  have hlt : u.toNat < 0x10000 := u.toNat_lt
  rw [encodeChar, toNat_ofNat_of_isWhole h, if_pos hlt, UInt16.ofNat_toNat]

theorem encodeChar_pair {high low : UInt16} (hhigh : isHigh high = true)
    (hlow : isLow low = true) : encodeChar (pair high low) = [high, low] := by
  have hnumber := toNat_pair hhigh hlow
  rw [isHigh_iff] at hhigh
  rw [isLow_iff] at hlow
  rw [encodeChar, hnumber, if_neg (by omega)]
  simp only [List.cons.injEq, and_true, ← UInt16.toNat_inj, UInt16.toNat_ofNat']
  omega

/-- A character's form is one whole unit or a pair, which stands for it. -/
theorem encodeChar_cases (c : Char) :
    (∃ u, IsWhole u ∧ encodeChar c = [u] ∧ Char.ofNat u.toNat = c) ∨
      ∃ high low, isHigh high = true ∧ isLow low = true ∧ encodeChar c = [high, low] ∧
        pair high low = c := by
  have hvalid : c.toNat.isValidChar := c.valid
  unfold Nat.isValidChar at hvalid
  by_cases hlt : c.toNat < 0x10000
  · have hnumber : (UInt16.ofNat c.toNat).toNat = c.toNat := by
      rw [UInt16.toNat_ofNat']
      omega
    refine Or.inl ⟨UInt16.ofNat c.toNat, ?_, if_pos hlt, ?_⟩
    · rw [IsWhole, hnumber]
      omega
    · rw [hnumber, Char.ofNat_toNat]
  · have hhigh : isHigh (UInt16.ofNat (0xD800 + (c.toNat - 0x10000) / 0x400)) = true := by
      rw [isHigh_iff, UInt16.toNat_ofNat']
      omega
    have hlow : isLow (UInt16.ofNat (0xDC00 + (c.toNat - 0x10000) % 0x400)) = true := by
      rw [isLow_iff, UInt16.toNat_ofNat']
      omega
    refine Or.inr ⟨_, _, hhigh, hlow, if_neg hlt, ?_⟩
    apply Char.toNat_inj.mp
    rw [toNat_pair hhigh hlow, UInt16.toNat_ofNat', UInt16.toNat_ofNat']
    omega

/-- A whole unit is the form of its character and no part of a pair. -/
theorem encodeChar_eq_of_mem {c : Char} {u : UInt16} (hu : IsWhole u) (h : u ∈ encodeChar c) :
    encodeChar c = [u] ∧ Char.ofNat u.toNat = c := by
  obtain ⟨v, -, hform, hc⟩ | ⟨high, low, hhigh, hlow, hform, -⟩ := encodeChar_cases c
  · obtain rfl : u = v := by simpa [hform] using h
    exact ⟨hform, hc⟩
  · obtain ⟨hnotHigh, hnotLow⟩ := isWhole_iff.mp hu
    obtain rfl | rfl : u = high ∨ u = low := by simpa [hform] using h
    · simp [hnotHigh] at hhigh
    · simp [hnotLow] at hlow

/-! ## The front of a sequence -/

/-- A whole unit at the front is read as its character. -/
theorem decode?_cons_unit {u : UInt16} (h : IsWhole u) (us : List UInt16) :
    decode? (u :: us) = (decode? us).map (Char.ofNat u.toNat :: ·) := by
  obtain ⟨hhigh, hlow⟩ := isWhole_iff.mp h
  cases us with
  | nil => simp [decode?, hhigh, hlow]
  | cons v us => simp [decode?, hhigh, hlow]

/-- A pair at the front is read as its character. -/
theorem decode?_cons_pair {high low : UInt16} (hhigh : isHigh high = true)
    (hlow : isLow low = true) (us : List UInt16) :
    decode? (high :: low :: us) = (decode? us).map (pair high low :: ·) := by
  simp [decode?, hhigh, hlow]

/-- A whole unit in a sequence is the character at the front, or stands behind it. -/
theorem encodeChar_append_eq {c : Char} {rest before after : List UInt16} {u : UInt16}
    (hu : IsWhole u) (h : encodeChar c ++ rest = before ++ u :: after) :
    (before = [] ∧ Char.ofNat u.toNat = c ∧ rest = after) ∨
      ∃ before', before = encodeChar c ++ before' ∧ rest = before' ++ u :: after := by
  obtain ⟨before', hbefore, hrest⟩ | ⟨part, hform, hafter⟩ := List.append_eq_append_iff.mp h
  · exact Or.inr ⟨before', hbefore, hrest⟩
  · cases part with
    | nil => exact Or.inr ⟨[], by simp [hform], by simp [hafter]⟩
    | cons v part =>
        obtain ⟨rfl, rfl⟩ := List.cons.inj hafter
        obtain ⟨hsingle, hc⟩ := encodeChar_eq_of_mem hu (by simp [hform] : u ∈ encodeChar c)
        rw [hsingle] at hform
        obtain ⟨rfl, rfl⟩ : before = [] ∧ part = [] := by
          simpa [List.singleton_eq_append_iff] using hform
        exact Or.inl ⟨rfl, hc, rfl⟩

/-! ## Whole sequences -/

@[simp] theorem encode_nil : encode [] = [] := rfl

@[simp] theorem encode_cons (c : Char) (text : List Char) :
    encode (c :: text) = encodeChar c ++ encode text := rfl

@[simp] theorem encode_append (front back : List Char) :
    encode (front ++ back) = encode front ++ encode back := List.flatMap_append

/-- **Round trip**: a text is read back from its units. -/
theorem decode?_encode (text : List Char) : decode? (encode text) = some text := by
  induction text with
  | nil => rfl
  | cons c text ih =>
      rw [encode_cons]
      obtain ⟨u, hu, hform, rfl⟩ | ⟨high, low, hhigh, hlow, hform, rfl⟩ := encodeChar_cases c
      · rw [hform, List.singleton_append, decode?_cons_unit hu, ih, Option.map_some]
      · rw [hform, List.cons_append, List.singleton_append, decode?_cons_pair hhigh hlow, ih,
          Option.map_some]

/-- What is read from units is written as the same units. -/
theorem encode_of_decode? {units : List UInt16} {text : List Char}
    (h : decode? units = some text) : encode text = units := by
  fun_induction decode? units generalizing text with
  | case1 =>
      cases h
      rfl
  | case2 => cases h
  | case3 u hsurrogate =>
      cases h
      have hu : IsWhole u := isWhole_iff.mpr (by simpa using hsurrogate)
      simp [encodeChar_ofNat hu]
  | case4 u v us hhigh hlow ih =>
      obtain ⟨text, htext, rfl⟩ := Option.map_eq_some_iff.mp h
      rw [encode_cons, ih htext, encodeChar_pair hhigh hlow]
      rfl
  | case5 => cases h
  | case6 => cases h
  | case7 u v us hhigh hlow ih =>
      obtain ⟨text, htext, rfl⟩ := Option.map_eq_some_iff.mp h
      have hu : IsWhole u :=
        isWhole_iff.mpr ⟨Bool.eq_false_iff.mpr hhigh, Bool.eq_false_iff.mpr hlow⟩
      rw [encode_cons, ih htext, encodeChar_ofNat hu]
      rfl

/-- **Strict reading**: a unit sequence is read as a text exactly if it is its form. -/
theorem decode?_eq_some_iff {units : List UInt16} {text : List Char} :
    decode? units = some text ↔ encode text = units := by
  constructor
  · exact encode_of_decode?
  · intro h
    rw [← h, decode?_encode]

/-- A form is that of one text. -/
theorem encode_inj {text text' : List Char} : encode text = encode text' ↔ text = text' := by
  rw [← decode?_eq_some_iff, decode?_encode, Option.some.injEq, eq_comm]

/-- A whole unit is no part of a pair, so at each one a text's form is cut into the forms
of what stands before and after it. -/
theorem exists_of_encode_eq_append_cons {text : List Char} {before after : List UInt16}
    {u : UInt16} (hu : IsWhole u) (h : encode text = before ++ u :: after) :
    ∃ front back, text = front ++ Char.ofNat u.toNat :: back ∧ encode front = before ∧
      encode back = after := by
  induction text generalizing before with
  | nil => simp at h
  | cons c text ih =>
      rw [encode_cons] at h
      obtain ⟨rfl, rfl, hafter⟩ | ⟨before', rfl, hrest⟩ := encodeChar_append_eq hu h
      · exact ⟨[], text, rfl, rfl, hafter⟩
      · obtain ⟨front, back, rfl, hfront, hback⟩ := ih hrest
        exact ⟨c :: front, back, rfl, by rw [encode_cons, hfront], hback⟩

/-! ## The grammar -/

/-- Well-formed unit sequences: whole units, and pairs of a high surrogate and a low one. -/
inductive WellFormed : List UInt16 → Prop where
  | nil : WellFormed []
  | unit {u : UInt16} {us : List UInt16} (hunit : u.toNat < 0xD800 ∨ 0xDFFF < u.toNat)
      (h : WellFormed us) : WellFormed (u :: us)
  | pair {high low : UInt16} {us : List UInt16}
      (hhigh : 0xD800 ≤ high.toNat ∧ high.toNat ≤ 0xDBFF)
      (hlow : 0xDC00 ≤ low.toNat ∧ low.toNat ≤ 0xDFFF) (h : WellFormed us) :
      WellFormed (high :: low :: us)

/-- What is written is well formed. -/
theorem wellFormed_encode (text : List Char) : WellFormed (encode text) := by
  induction text with
  | nil => exact .nil
  | cons c text ih =>
      rw [encode_cons]
      obtain ⟨u, hu, hform, -⟩ | ⟨high, low, hhigh, hlow, hform, -⟩ := encodeChar_cases c
      · rw [hform]
        exact .unit hu ih
      · rw [hform]
        exact .pair (isHigh_iff.mp hhigh) (isLow_iff.mp hlow) ih

/-- The well-formed sequences are the forms of texts. -/
theorem wellFormed_iff_exists_encode {units : List UInt16} :
    WellFormed units ↔ ∃ text, encode text = units := by
  constructor
  · intro h
    induction h with
    | nil => exact ⟨[], rfl⟩
    | @unit u us hunit h ih =>
        obtain ⟨text, htext⟩ := ih
        refine ⟨Char.ofNat u.toNat :: text, ?_⟩
        rw [encode_cons, encodeChar_ofNat hunit, htext]
        rfl
    | @pair high low us hhigh hlow h ih =>
        obtain ⟨text, htext⟩ := ih
        refine ⟨Utf16.pair high low :: text, ?_⟩
        rw [encode_cons, encodeChar_pair (isHigh_iff.mpr hhigh) (isLow_iff.mpr hlow), htext]
        rfl
  · intro ⟨text, htext⟩
    rw [← htext]
    exact wellFormed_encode text

/-- Reading refuses what is not well formed, and nothing else. -/
theorem decode?_eq_none_iff {units : List UInt16} : decode? units = none ↔ ¬ WellFormed units := by
  rw [wellFormed_iff_exists_encode, not_exists, Option.eq_none_iff_forall_ne_some]
  simp only [ne_eq, decode?_eq_some_iff]

end Sidecar.Text.Utf16
