import Sidecar.Text.Base64

/-!
# Sidecar.Proofs.Text.Base64

Reading base64 undoes writing it (`decode?_encode`), and the written form has
four characters for each group of three bytes, whole or not (`length_encode`).
-/

namespace Sidecar.Text.Base64

/-! ## Digits -/

/-- Each digit is read as the number that it is written for. -/
theorem value?_digit : ∀ {n : Nat}, n < 64 → value? (digit n) = some n := by decide

theorem digit_ne_pad {n : Nat} (h : n < 64) : digit n ≠ '=' := by
  intro heq
  have hvalue := value?_digit h
  rw [heq] at hvalue
  cases hvalue

/-- Every written character is a digit or a sign of padding. -/
theorem value?_isSome_of_mem_encode {bs : List UInt8} {c : Char} (h : c ∈ encode bs) :
    (value? c).isSome = true ∨ c = '=' := by
  have hdigit {n : Nat} (hn : n < 64) : (value? (digit n)).isSome = true := by
    rw [value?_digit hn]
    rfl
  fun_induction encode bs with
  | case1 => cases h
  | case2 a =>
      have ha := a.toNat_lt
      simp only [List.mem_cons, List.not_mem_nil, or_false] at h
      rcases h with rfl | rfl | rfl | rfl
      · exact Or.inl (hdigit (by omega))
      · exact Or.inl (hdigit (by omega))
      · exact Or.inr rfl
      · exact Or.inr rfl
  | case3 a b =>
      have ha := a.toNat_lt
      have hb := b.toNat_lt
      simp only [List.mem_cons, List.not_mem_nil, or_false] at h
      rcases h with rfl | rfl | rfl | rfl
      · exact Or.inl (hdigit (by omega))
      · exact Or.inl (hdigit (by omega))
      · exact Or.inl (hdigit (by omega))
      · exact Or.inr rfl
  | case4 a b c bs ih =>
      have ha := a.toNat_lt
      have hb := b.toNat_lt
      have hc := c.toNat_lt
      simp only [List.mem_cons] at h
      rcases h with rfl | rfl | rfl | rfl | h
      · exact Or.inl (hdigit (by omega))
      · exact Or.inl (hdigit (by omega))
      · exact Or.inl (hdigit (by omega))
      · exact Or.inl (hdigit (by omega))
      · exact ih h

/-- Every three bytes, and what is left of them, make four characters. -/
theorem length_encode (bs : List UInt8) : (encode bs).length = 4 * ((bs.length + 2) / 3) := by
  fun_induction encode bs with
  | case1 => rfl
  | case2 | case3 => simp
  | case4 a b c bs ih =>
      simp only [List.length_cons, ih]
      omega

theorem encode_ne_nil {bs : List UInt8} (h : bs ≠ []) : encode bs ≠ [] := by
  have hlength := length_encode bs
  have hpos := List.length_pos_iff.mpr h
  rw [← List.length_pos_iff]
  omega

/-- A digit is an ASCII character. -/
theorem toNat_lt_of_value? {c : Char} (h : (value? c).isSome = true) : c.toNat < 0x80 := by
  simp only [value?, Char.le_def, UInt32.le_iff_toNat_le] at h
  split at h
  · next hupper => exact Nat.lt_of_le_of_lt hupper.2 (by decide)
  split at h
  · next hlower => exact Nat.lt_of_le_of_lt hlower.2 (by decide)
  split at h
  · next hdigit => exact Nat.lt_of_le_of_lt hdigit.2 (by decide)
  split at h
  · next hplus => rw [hplus]; decide
  split at h
  · next hslash => rw [hslash]; decide
  · cases h

/-- Base64 text is ASCII. -/
theorem toNat_lt_of_mem_encode {bs : List UInt8} {c : Char} (h : c ∈ encode bs) :
    c.toNat < 0x80 := by
  rcases value?_isSome_of_mem_encode h with hdigit | rfl
  · exact toNat_lt_of_value? hdigit
  · decide

/-! ## Round trip -/

/-- A full group is read back. -/
theorem decodeThree?_digits (a b c : UInt8) :
    decodeThree? (digit (a.toNat / 4)) (digit (a.toNat % 4 * 16 + b.toNat / 16))
      (digit (b.toNat % 16 * 4 + c.toNat / 64)) (digit (c.toNat % 64)) = some [a, b, c] := by
  have ha := a.toNat_lt
  have hb := b.toNat_lt
  have hc := c.toNat_lt
  rw [decodeThree?, value?_digit (by omega), value?_digit (by omega), value?_digit (by omega),
    value?_digit (by omega)]
  simp only [Option.bind_eq_bind, Option.bind_some, Option.pure_def, Option.some.injEq,
    List.cons.injEq, and_true, ← UInt8.toNat_inj, UInt8.toNat_ofNat']
  omega

theorem decodeOne?_digits (a : UInt8) :
    decodeOne? (digit (a.toNat / 4)) (digit (a.toNat % 4 * 16)) = some [a] := by
  have ha := a.toNat_lt
  rw [decodeOne?, value?_digit (by omega), value?_digit (by omega)]
  simp only [Option.bind_eq_bind, Option.bind_some]
  rw [if_pos (by omega)]
  simp only [Option.pure_def, Option.some.injEq, List.cons.injEq, and_true, ← UInt8.toNat_inj,
    UInt8.toNat_ofNat']
  omega

theorem decodeTwo?_digits (a b : UInt8) :
    decodeTwo? (digit (a.toNat / 4)) (digit (a.toNat % 4 * 16 + b.toNat / 16))
      (digit (b.toNat % 16 * 4)) = some [a, b] := by
  have ha := a.toNat_lt
  have hb := b.toNat_lt
  rw [decodeTwo?, value?_digit (by omega), value?_digit (by omega), value?_digit (by omega)]
  simp only [Option.bind_eq_bind, Option.bind_some]
  rw [if_pos (by omega)]
  simp only [Option.pure_def, Option.some.injEq, List.cons.injEq, and_true, ← UInt8.toNat_inj,
    UInt8.toNat_ofNat']
  omega

/-- **Round trip**: bytes are read back from their text. A full group does not look like a padded
one, so the end of the text is found where it is. -/
theorem decode?_encode (bs : List UInt8) : decode? (encode bs) = some bs := by
  fun_induction encode bs with
  | case1 => rfl
  | case2 a => exact decodeOne?_digits a
  | case3 a b =>
      have hb := b.toNat_lt
      have hpad : digit (b.toNat % 16 * 4) ≠ '=' := digit_ne_pad (by omega)
      rw [decode?]
      · exact decodeTwo?_digits a b
      · exact hpad
  | case4 a b c bs ih =>
      have hc := c.toNat_lt
      have hpad : digit (c.toNat % 64) ≠ '=' := digit_ne_pad (by omega)
      rw [decode?, decodeThree?_digits, ih]
      · rfl
      · intro _ h
        exact absurd h hpad
      · intro h
        exact absurd h hpad

end Sidecar.Text.Base64
