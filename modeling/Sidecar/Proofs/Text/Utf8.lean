import Mathlib.Data.List.Basic
import Mathlib.Data.List.Induction
import Sidecar.Proofs.Outcome
import Sidecar.Text.Utf8

/-!
# Sidecar.Proofs.Text.Utf8

Strict reading of UTF-8 undoes writing and accepts nothing else
(`decode_eq_ok_iff`). Both directions repeat what holds of the character at the
front (`encodeChar_of_front`, `front_of_encodeChar`).
-/

namespace Sidecar.Text.Utf8

/-! ## Characters and their bytes -/

/-- A number that is no surrogate and small enough is that of its character. -/
theorem toNat_ofNat_of_isValidChar {n : Nat} (h : n.isValidChar) : (Char.ofNat n).toNat = n := by
  rw [Char.ofNat, dif_pos h]
  rfl

/-- A byte that is not the first one of its character. -/
def IsTail (x : UInt8) : Prop := 0x80 ≤ x.toNat ∧ x.toNat ≤ 0xBF

/-- The number that a first byte, counted from `base`, and the tails after it spell. -/
def number (base : Nat) (a : UInt8) (tails : List UInt8) : Nat :=
  tails.foldl (fun n x => n * 64 + (x.toNat - 0x80)) (a.toNat - base)

theorem number_two (a x : UInt8) :
    number 0xC0 a [x] = (a.toNat - 0xC0) * 64 + (x.toNat - 0x80) := rfl

theorem number_three (a x y : UInt8) :
    number 0xE0 a [x, y] =
      ((a.toNat - 0xE0) * 64 + (x.toNat - 0x80)) * 64 + (y.toNat - 0x80) := rfl

theorem number_four (a x y z : UInt8) :
    number 0xF0 a [x, y, z] =
      (((a.toNat - 0xF0) * 64 + (x.toNat - 0x80)) * 64 + (y.toNat - 0x80)) * 64 +
        (z.toNat - 0x80) := rfl

/-- A character of one byte has it as its form. -/
theorem encodeChar_one {a : UInt8} (ha : a.toNat < 0x80) :
    String.utf8EncodeChar (Char.ofNat a.toNat) = [a] := by
  have hval : (Char.ofNat a.toNat).val.toNat = a.toNat :=
    toNat_ofNat_of_isValidChar (Or.inl (by omega))
  rw [String.utf8EncodeChar, hval, if_pos (by omega), UInt8.ofNat_toNat]

theorem encodeChar_two {a x : UInt8} (ha : 0xC2 ≤ a.toNat ∧ a.toNat < 0xE0) (hx : IsTail x) :
    String.utf8EncodeChar (Char.ofNat (number 0xC0 a [x])) = [a, x] := by
  have hnumber := number_two a x
  obtain ⟨hx, hx'⟩ := hx
  have hval : (Char.ofNat (number 0xC0 a [x])).val.toNat = number 0xC0 a [x] :=
    toNat_ofNat_of_isValidChar (Or.inl (by omega))
  rw [String.utf8EncodeChar, hval, if_neg (by omega), if_pos (by omega)]
  simp only [List.cons.injEq, and_true, ← UInt8.toNat_inj, UInt8.toNat_ofNat']
  omega

/-- The form of a character that three bytes spell, unless a shorter form or no character has the
number. -/
theorem encodeChar_three {a x y : UInt8} (ha : 0xE0 ≤ a.toNat ∧ a.toNat < 0xF0)
    (hx : IsTail x) (hy : IsTail y) (hlow : 0x800 ≤ number 0xE0 a [x, y])
    (hvalid : (number 0xE0 a [x, y]).isValidChar) :
    String.utf8EncodeChar (Char.ofNat (number 0xE0 a [x, y])) = [a, x, y] := by
  have hnumber := number_three a x y
  obtain ⟨hx, hx'⟩ := hx
  obtain ⟨hy, hy'⟩ := hy
  have hval : (Char.ofNat (number 0xE0 a [x, y])).val.toNat = number 0xE0 a [x, y] :=
    toNat_ofNat_of_isValidChar hvalid
  rw [String.utf8EncodeChar, hval, if_neg (by omega), if_neg (by omega), if_pos (by omega)]
  simp only [List.cons.injEq, and_true, ← UInt8.toNat_inj, UInt8.toNat_ofNat']
  omega

theorem encodeChar_four {a x y z : UInt8} (ha : 0xF0 ≤ a.toNat ∧ a.toNat < 0xF5)
    (hx : IsTail x) (hy : IsTail y) (hz : IsTail z) (hlow : 0x10000 ≤ number 0xF0 a [x, y, z])
    (hhigh : number 0xF0 a [x, y, z] < 0x110000) :
    String.utf8EncodeChar (Char.ofNat (number 0xF0 a [x, y, z])) = [a, x, y, z] := by
  have hnumber := number_four a x y z
  obtain ⟨hx, hx'⟩ := hx
  obtain ⟨hy, hy'⟩ := hy
  obtain ⟨hz, hz'⟩ := hz
  have hval : (Char.ofNat (number 0xF0 a [x, y, z])).val.toNat = number 0xF0 a [x, y, z] :=
    toNat_ofNat_of_isValidChar (Or.inr ⟨by omega, hhigh⟩)
  rw [String.utf8EncodeChar, hval, if_neg (by omega), if_neg (by omega), if_neg (by omega)]
  simp only [List.cons.injEq, and_true, ← UInt8.toNat_inj, UInt8.toNat_ofNat']
  omega

/-! ## One character -/

/-- One more byte of a character: the first of them has a range of its own, those after it are any
tails. -/
theorem continuation_succ_eq_char_iff {value width count w : Nat} {low high : UInt8}
    {bs : List UInt8} {c : Char} :
    continuation value width low high (count + 1) bs = .char c w ↔
      ∃ x xs, bs = x :: xs ∧ low ≤ x ∧ x ≤ high ∧
        continuation (value * 64 + (x.toNat - 0x80)) (width + 1) 0x80 0xBF count xs =
          .char c w := by
  cases bs with
  | nil => simp [continuation]
  | cons x xs =>
      rw [continuation]
      constructor
      · intro h
        split at h
        · next hx => exact ⟨x, xs, rfl, hx.1, hx.2, h⟩
        · cases h
      · rintro ⟨_, _, hbs, hlow, hhigh, h⟩
        cases hbs
        rw [if_pos ⟨hlow, hhigh⟩]
        exact h

theorem continuation_zero_eq_char_iff {value width w : Nat} {low high : UInt8}
    {bs : List UInt8} {c : Char} :
    continuation value width low high 0 bs = .char c w ↔ c = Char.ofNat value ∧ w = width := by
  rw [continuation, Front.char.injEq, @eq_comm _ c, @eq_comm _ w]

/-- An ASCII byte is a character by itself. -/
theorem front_one {a : UInt8} (ha : a.toNat < 0x80) (bs : List UInt8) :
    front a bs = .char (Char.ofNat a.toNat) 1 := by
  rw [front, if_pos (UInt8.lt_iff_toNat_lt.mpr ha)]

/-- Neither a tail nor a byte that could only begin an overlong form or too large a number begins
a character. -/
theorem front_invalid {a : UInt8} (ha : 0x80 ≤ a.toNat ∧ a.toNat < 0xC2 ∨ 0xF5 ≤ a.toNat)
    (bs : List UInt8) : front a bs = .invalid 1 := by
  unfold front
  simp only [UInt8.lt_iff_toNat_lt, UInt8.reduceToNat, ← UInt8.toNat_inj]
  rcases ha with ha | ha
  · rw [if_neg (by omega), if_pos (by omega)]
  · rw [if_neg (by omega), if_neg (by omega), if_neg (by omega), if_neg (by omega),
      if_neg (by omega), if_neg (by omega), if_neg (by omega), if_neg (by omega),
      if_neg (by omega)]

theorem front_two_eq_char_iff {a : UInt8} {bs : List UInt8} {c : Char} {w : Nat}
    (ha : 0xC2 ≤ a.toNat ∧ a.toNat < 0xE0) :
    front a bs = .char c w ↔
      ∃ x rest, bs = x :: rest ∧ IsTail x ∧ c = Char.ofNat (number 0xC0 a [x]) ∧ w = 2 := by
  rw [front]
  simp only [UInt8.lt_iff_toNat_lt, UInt8.reduceToNat]
  rw [if_neg (by omega), if_neg (by omega), if_pos (by omega)]
  simp only [continuation_succ_eq_char_iff, continuation_zero_eq_char_iff,
    UInt8.le_iff_toNat_le, UInt8.reduceToNat, IsTail, number, List.foldl_cons, List.foldl_nil,
    and_assoc, Nat.reduceAdd]

/-- The range of the second byte stands for that of the character's number. -/
theorem continuation_two_eq_char_iff {a low high : UInt8} {value w : Nat} {bs : List UInt8}
    {c : Char} (hvalue : value = a.toNat - 0xE0)
    (hrange : ∀ x y : UInt8, low.toNat ≤ x.toNat ∧ x.toNat ≤ high.toNat ∧ IsTail y ↔
      IsTail x ∧ IsTail y ∧ 0x800 ≤ number 0xE0 a [x, y] ∧ (number 0xE0 a [x, y]).isValidChar) :
    continuation value 1 low high 2 bs = .char c w ↔
      ∃ x y rest, bs = x :: y :: rest ∧
        (IsTail x ∧ IsTail y ∧ 0x800 ≤ number 0xE0 a [x, y] ∧
          (number 0xE0 a [x, y]).isValidChar) ∧
        c = Char.ofNat (number 0xE0 a [x, y]) ∧ w = 3 := by
  simp only [← hrange, continuation_succ_eq_char_iff, continuation_zero_eq_char_iff,
    UInt8.le_iff_toNat_le, UInt8.reduceToNat, hvalue]
  constructor
  · rintro ⟨x, _, rfl, hx, hx', y, rest, rfl, hy, hy', hc, hw⟩
    exact ⟨x, y, rest, rfl, ⟨hx, hx', hy, hy'⟩, hc, hw⟩
  · rintro ⟨x, y, rest, rfl, ⟨hx, hx', hy, hy'⟩, hc, hw⟩
    exact ⟨x, _, rfl, hx, hx', y, rest, rfl, hy, hy', hc, hw⟩

/-- Characters of three bytes. The ranges of the second byte rule out overlong forms after E0 and
surrogates after ED. -/
theorem front_three_eq_char_iff {a : UInt8} {bs : List UInt8} {c : Char} {w : Nat}
    (ha : 0xE0 ≤ a.toNat ∧ a.toNat < 0xF0) :
    front a bs = .char c w ↔
      ∃ x y rest, bs = x :: y :: rest ∧
        (IsTail x ∧ IsTail y ∧ 0x800 ≤ number 0xE0 a [x, y] ∧
          (number 0xE0 a [x, y]).isValidChar) ∧
        c = Char.ofNat (number 0xE0 a [x, y]) ∧ w = 3 := by
  unfold front
  simp only [UInt8.lt_iff_toNat_lt, UInt8.reduceToNat, ← UInt8.toNat_inj]
  rw [if_neg (by omega), if_neg (by omega), if_neg (by omega)]
  by_cases hfirst : a.toNat = 0xE0
  · rw [if_pos hfirst]
    apply continuation_two_eq_char_iff (by omega)
    intro x y
    simp only [number_three, IsTail, Nat.isValidChar, UInt8.reduceToNat]
    omega
  rw [if_neg hfirst]
  by_cases hlast : a.toNat = 0xED
  · rw [if_pos hlast]
    apply continuation_two_eq_char_iff (by omega)
    intro x y
    simp only [number_three, IsTail, Nat.isValidChar, UInt8.reduceToNat]
    omega
  · rw [if_neg hlast, if_pos ha.2]
    apply continuation_two_eq_char_iff rfl
    intro x y
    simp only [number_three, IsTail, Nat.isValidChar, UInt8.reduceToNat]
    omega

/-- The range of the second byte stands for the number's with one more tail as well. -/
theorem continuation_three_eq_char_iff {a low high : UInt8} {value w : Nat} {bs : List UInt8}
    {c : Char} (hvalue : value = a.toNat - 0xF0)
    (hrange : ∀ x y z : UInt8, low.toNat ≤ x.toNat ∧ x.toNat ≤ high.toNat ∧ IsTail y ∧ IsTail z ↔
      IsTail x ∧ IsTail y ∧ IsTail z ∧ 0x10000 ≤ number 0xF0 a [x, y, z] ∧
        number 0xF0 a [x, y, z] < 0x110000) :
    continuation value 1 low high 3 bs = .char c w ↔
      ∃ x y z rest, bs = x :: y :: z :: rest ∧
        (IsTail x ∧ IsTail y ∧ IsTail z ∧ 0x10000 ≤ number 0xF0 a [x, y, z] ∧
          number 0xF0 a [x, y, z] < 0x110000) ∧
        c = Char.ofNat (number 0xF0 a [x, y, z]) ∧ w = 4 := by
  simp only [← hrange, continuation_succ_eq_char_iff, continuation_zero_eq_char_iff,
    UInt8.le_iff_toNat_le, UInt8.reduceToNat, hvalue]
  constructor
  · rintro ⟨x, _, rfl, hx, hx', y, _, rfl, hy, hy', z, rest, rfl, hz, hz', hc, hw⟩
    exact ⟨x, y, z, rest, rfl, ⟨hx, hx', ⟨hy, hy'⟩, hz, hz'⟩, hc, hw⟩
  · rintro ⟨x, y, z, rest, rfl, ⟨hx, hx', ⟨hy, hy'⟩, hz, hz'⟩, hc, hw⟩
    exact ⟨x, _, rfl, hx, hx', y, _, rfl, hy, hy', z, rest, rfl, hz, hz', hc, hw⟩

/-- Characters of four bytes. The ranges of the second byte rule out overlong forms after F0 and
numbers above the last after F4. -/
theorem front_four_eq_char_iff {a : UInt8} {bs : List UInt8} {c : Char} {w : Nat}
    (ha : 0xF0 ≤ a.toNat ∧ a.toNat < 0xF5) :
    front a bs = .char c w ↔
      ∃ x y z rest, bs = x :: y :: z :: rest ∧
        (IsTail x ∧ IsTail y ∧ IsTail z ∧ 0x10000 ≤ number 0xF0 a [x, y, z] ∧
          number 0xF0 a [x, y, z] < 0x110000) ∧
        c = Char.ofNat (number 0xF0 a [x, y, z]) ∧ w = 4 := by
  unfold front
  simp only [UInt8.lt_iff_toNat_lt, UInt8.reduceToNat, ← UInt8.toNat_inj]
  rw [if_neg (by omega), if_neg (by omega), if_neg (by omega), if_neg (by omega),
    if_neg (by omega), if_neg (by omega)]
  by_cases hfirst : a.toNat = 0xF0
  · rw [if_pos hfirst]
    apply continuation_three_eq_char_iff (by omega)
    intro x y z
    simp only [number_four, IsTail, UInt8.reduceToNat]
    omega
  rw [if_neg hfirst]
  by_cases hlast : a.toNat = 0xF4
  · rw [if_neg (by omega), if_pos hlast]
    apply continuation_three_eq_char_iff (by omega)
    intro x y z
    simp only [number_four, IsTail, UInt8.reduceToNat]
    omega
  · rw [if_pos (by omega)]
    apply continuation_three_eq_char_iff rfl
    intro x y z
    simp only [number_four, IsTail, UInt8.reduceToNat]
    omega

/-- What is read as a character stands at the front in its form. -/
theorem encodeChar_of_front {b : UInt8} {bs : List UInt8} {c : Char} {w : Nat}
    (h : front b bs = .char c w) :
    ∃ rest, b :: bs = String.utf8EncodeChar c ++ rest ∧
      w = (String.utf8EncodeChar c).length := by
  by_cases hone : b.toNat < 0x80
  · rw [front_one hone] at h
    cases h
    rw [encodeChar_one hone]
    exact ⟨bs, rfl, rfl⟩
  by_cases hinvalid : b.toNat < 0xC2 ∨ 0xF5 ≤ b.toNat
  · rw [front_invalid (by omega)] at h
    cases h
  by_cases htwo : b.toNat < 0xE0
  · obtain ⟨x, rest, rfl, hx, hc, hw⟩ := (front_two_eq_char_iff (by omega)).mp h
    rw [hc, encodeChar_two (by omega) hx]
    exact ⟨rest, rfl, hw⟩
  by_cases hthree : b.toNat < 0xF0
  · obtain ⟨x, y, rest, rfl, ⟨hx, hy, hlow, hvalid⟩, hc, hw⟩ :=
      (front_three_eq_char_iff (by omega)).mp h
    rw [hc, encodeChar_three (by omega) hx hy hlow hvalid]
    exact ⟨rest, rfl, hw⟩
  · obtain ⟨x, y, z, rest, rfl, ⟨hx, hy, hz, hlow, hhigh⟩, hc, hw⟩ :=
      (front_four_eq_char_iff (by omega)).mp h
    rw [hc, encodeChar_four (by omega) hx hy hz hlow hhigh]
    exact ⟨rest, rfl, hw⟩

/-- What follows a character that is read is what its form leaves. -/
theorem eq_append_drop_of_front {b : UInt8} {bs : List UInt8} {c : Char} {w : Nat}
    (h : front b bs = .char c w) : b :: bs = String.utf8EncodeChar c ++ bs.drop (w - 1) := by
  obtain ⟨rest, hbs, hwidth⟩ := encodeChar_of_front h
  have hdrop : (b :: bs).drop w = rest := by rw [hbs, hwidth, List.drop_left]
  have hpos : w ≠ 0 := by
    rw [hwidth, String.length_utf8EncodeChar]
    exact Nat.ne_of_gt c.utf8Size_pos
  obtain ⟨n, rfl⟩ := Nat.exists_eq_succ_of_ne_zero hpos
  rw [hbs, ← hdrop]
  rfl

/-- A character is read from its form, whatever follows. -/
theorem front_of_encodeChar {b : UInt8} {bs rest : List UInt8} {c : Char}
    (h : b :: bs = String.utf8EncodeChar c ++ rest) :
    front b bs = .char c (String.utf8EncodeChar c).length := by
  have hchar : Char.ofNat c.val.toNat = c := Char.ofNat_toNat c
  have hvalid : c.val.toNat.isValidChar := c.valid
  have hform : String.utf8EncodeChar c = _ := String.utf8EncodeChar.eq_1 c
  by_cases hone : c.val.toNat ≤ 0x7F
  · rw [if_pos hone] at hform
    rw [hform] at h ⊢
    obtain ⟨rfl, rfl⟩ := List.cons.inj h
    have hb : (UInt8.ofNat c.val.toNat).toNat = c.val.toNat := by
      rw [UInt8.toNat_ofNat']
      omega
    rw [front_one (by omega), hb, hchar]
    rfl
  by_cases htwo : c.val.toNat ≤ 0x7FF
  · rw [if_neg hone, if_pos htwo] at hform
    rw [hform] at h ⊢
    obtain ⟨rfl, rfl⟩ := List.cons.inj h
    have hnumber : number 0xC0 (UInt8.ofNat (c.val.toNat / 64 % 32 + 192))
        [UInt8.ofNat (c.val.toNat % 64 + 128)] = c.val.toNat := by
      rw [number_two]
      simp only [UInt8.toNat_ofNat']
      omega
    rw [front_two_eq_char_iff (by rw [UInt8.toNat_ofNat']; omega)]
    refine ⟨_, rest, rfl, ?_, by rw [hnumber, hchar], rfl⟩
    simp only [IsTail, UInt8.toNat_ofNat']
    omega
  by_cases hthree : c.val.toNat ≤ 0xFFFF
  · rw [if_neg hone, if_neg htwo, if_pos hthree] at hform
    rw [hform] at h ⊢
    obtain ⟨rfl, rfl⟩ := List.cons.inj h
    have hnumber : number 0xE0 (UInt8.ofNat (c.val.toNat / 4096 % 16 + 224))
        [UInt8.ofNat (c.val.toNat / 64 % 64 + 128), UInt8.ofNat (c.val.toNat % 64 + 128)] =
          c.val.toNat := by
      rw [number_three]
      simp only [UInt8.toNat_ofNat']
      omega
    rw [front_three_eq_char_iff (by rw [UInt8.toNat_ofNat']; omega)]
    refine ⟨_, _, rest, rfl, ?_, by rw [hnumber, hchar], rfl⟩
    rw [hnumber]
    refine ⟨?_, ?_, by omega, hvalid⟩
    all_goals
      simp only [IsTail, UInt8.toNat_ofNat']
      omega
  · rw [if_neg hone, if_neg htwo, if_neg hthree] at hform
    rw [hform] at h ⊢
    obtain ⟨rfl, rfl⟩ := List.cons.inj h
    have hlt : c.val.toNat < 0x110000 := by
      unfold Nat.isValidChar at hvalid
      omega
    have hnumber : number 0xF0 (UInt8.ofNat (c.val.toNat / 262144 % 8 + 240))
        [UInt8.ofNat (c.val.toNat / 4096 % 64 + 128), UInt8.ofNat (c.val.toNat / 64 % 64 + 128),
          UInt8.ofNat (c.val.toNat % 64 + 128)] = c.val.toNat := by
      rw [number_four]
      simp only [UInt8.toNat_ofNat']
      omega
    rw [front_four_eq_char_iff (by rw [UInt8.toNat_ofNat']; omega)]
    refine ⟨_, _, _, rest, rfl, ?_, by rw [hnumber, hchar], rfl⟩
    rw [hnumber]
    refine ⟨?_, ?_, ?_, by omega, hlt⟩
    all_goals
      simp only [IsTail, UInt8.toNat_ofNat']
      omega

/-! ## Whole texts -/

@[simp] theorem encode_nil : encode [] = [] := rfl

@[simp] theorem encode_cons (c : Char) (text : List Char) :
    encode (c :: text) = String.utf8EncodeChar c ++ encode text := rfl

@[simp] theorem encode_append (front back : List Char) :
    encode (front ++ back) = encode front ++ encode back := List.flatMap_append

/-- A text is read from its form, wherever the count begins. -/
theorem decodeFrom_encode (index : Nat) (text : List Char) :
    decodeFrom index (encode text) = .ok text := by
  induction text generalizing index with
  | nil => rw [encode_nil, decodeFrom]
  | cons c text ih =>
      have hpos : String.utf8EncodeChar c ≠ [] := by simp
      obtain ⟨b, bs, hencode⟩ := List.exists_cons_of_ne_nil hpos
      have h : encode (c :: text) = b :: (bs ++ encode text) := by
        rw [encode_cons, hencode, List.cons_append]
      have hfront : front b (bs ++ encode text) = .char c (bs.length + 1) := by
        have hform : b :: (bs ++ encode text) = String.utf8EncodeChar c ++ encode text := by
          rw [hencode, List.cons_append]
        rw [front_of_encodeChar hform, hencode, List.length_cons]
      rw [h, decodeFrom, hfront]
      dsimp only
      rw [Nat.add_sub_cancel, List.drop_left, ih]
      rfl

/-- Nothing else is read as that text. -/
theorem encode_of_decodeFrom {index : Nat} {bs : List UInt8} {text : List Char}
    (h : decodeFrom index bs = .ok text) : bs = encode text := by
  fun_induction decodeFrom index bs generalizing text with
  | case1 => cases h; rfl
  | case2 index b bs c width hfront ih =>
      rw [map_eq_ok_iff] at h
      obtain ⟨text, htext, rfl⟩ := h
      rw [eq_append_drop_of_front hfront, ih htext, encode_cons]
  | case3 => cases h
  | case4 => cases h

/-- **Strict reading**: a byte sequence is read as a text exactly if it is its form. -/
theorem decode_eq_ok_iff {bs : List UInt8} {text : List Char} :
    decode bs = .ok text ↔ bs = encode text := by
  constructor
  · exact encode_of_decodeFrom
  · rintro rfl
    exact decodeFrom_encode 0 text

/-- A form is that of one text. -/
theorem encode_inj {text text' : List Char} : encode text = encode text' ↔ text = text' := by
  rw [← decode_eq_ok_iff, decode_eq_ok_iff.mpr rfl, Except.ok.injEq]

/-- A text of ASCII characters has a byte for each. -/
theorem length_encode_of_ascii {text : List Char} (h : ∀ c ∈ text, c.toNat < 0x80) :
    (encode text).length = text.length := by
  induction text with
  | nil => rfl
  | cons c text ih =>
      obtain ⟨hc, htext⟩ := List.forall_mem_cons.mp h
      have hval : c.val.toNat ≤ 0x7F := Nat.le_of_lt_succ hc
      have hform : (String.utf8EncodeChar c).length = 1 := by
        rw [String.utf8EncodeChar, if_pos hval, List.length_singleton]
      rw [encode_cons, List.length_append, hform, ih htext, List.length_cons, Nat.add_comm]

/-- A character's form ends in a zero byte only if the character is zero. -/
theorem getLast?_encodeChar_ne_zero {c : Char} (h : c ≠ '\x00') :
    (String.utf8EncodeChar c).getLast? ≠ some 0 := by
  have hpos : c.val.toNat ≠ 0 := by
    intro hzero
    exact h (Char.ext (UInt32.toNat_inj.mp hzero))
  rw [String.utf8EncodeChar]
  split_ifs
  all_goals
    simp only [List.getLast?_cons_cons, List.getLast?_singleton, ne_eq, Option.some.injEq,
      ← UInt8.toNat_inj, UInt8.toNat_ofNat', UInt8.toNat_zero]
    omega

/-- A form ends in a zero byte only if the text ends in that character. -/
theorem getLast?_encode_ne_zero {text : List Char} (h : text.getLast? ≠ some '\x00') :
    (encode text).getLast? ≠ some 0 := by
  cases text using List.reverseRecOn with
  | nil => simp
  | append_singleton text c =>
      rw [List.getLast?_concat, ne_eq, Option.some.injEq] at h
      rw [encode_append, List.getLast?_append_of_ne_nil _ (by simp), encode_cons, encode_nil,
        List.append_nil]
      exact getLast?_encodeChar_ne_zero h

/-! ## Texts for display -/

/-- Well-formed bytes are shown as the text that they are. -/
theorem decodeLossy_of_decodeFrom {index : Nat} {bs : List UInt8} {text : List Char}
    (h : decodeFrom index bs = .ok text) : decodeLossy bs = text := by
  fun_induction decodeFrom index bs generalizing text with
  | case1 =>
      cases h
      rw [decodeLossy]
  | case2 index b bs c width hfront ih =>
      obtain ⟨rest, hrest, rfl⟩ := map_eq_ok_iff.mp h
      rw [decodeLossy, hfront]
      dsimp only
      rw [ih hrest]
  | case3 => cases h
  | case4 => cases h

theorem decodeLossy_encode (text : List Char) : decodeLossy (encode text) = text :=
  decodeLossy_of_decodeFrom (decodeFrom_encode 0 text)

/-- What a displayed text begins with, the bytes begin with, as long as no ill-formed part
is among it. -/
theorem encode_isPrefix_of_decodeLossy {word : List Char} {bs : List UInt8}
    (hmark : '\uFFFD' ∉ word) (h : word <+: decodeLossy bs) : encode word <+: bs := by
  fun_induction decodeLossy bs generalizing word with
  | case1 => simp_all
  | case2 b bs c width hfront ih =>
      cases word with
      | nil => exact List.nil_prefix
      | cons d word =>
          obtain ⟨rfl, hrest⟩ := List.cons_prefix_cons.mp h
          rw [List.mem_cons, not_or] at hmark
          rw [eq_append_drop_of_front hfront, encode_cons, List.prefix_append_right_inj]
          exact ih hmark.2 hrest
  | case3 | case4 =>
      cases word with
      | nil => exact List.nil_prefix
      | cons d word =>
          obtain ⟨rfl, -⟩ := List.cons_prefix_cons.mp h
          exact absurd List.mem_cons_self hmark

/-- The end of a displayed text displays the end of the bytes. -/
theorem exists_suffix_of_decodeLossy {text : List Char} {bs : List UInt8}
    (h : text <:+ decodeLossy bs) : ∃ rest, rest <:+ bs ∧ text = decodeLossy rest := by
  by_cases hwhole : text = decodeLossy bs
  · exact ⟨bs, List.suffix_rfl, hwhole⟩
  induction bs using decodeLossy.induct with
  | case1 => simp_all [decodeLossy]
  | case2 b bs c width hfront ih | case3 b bs width hfront ih =>
      rw [decodeLossy, hfront] at h hwhole
      have hrest := (List.suffix_cons_iff.mp h).resolve_left hwhole
      have hsuffix := (List.drop_suffix (width - 1) bs).trans (List.suffix_cons b bs)
      by_cases hnext : text = decodeLossy (bs.drop (width - 1))
      · exact ⟨_, hsuffix, hnext⟩
      · obtain ⟨rest, hbs, htext⟩ := ih hrest hnext
        exact ⟨rest, hbs.trans hsuffix, htext⟩
  | case4 b bs hfront =>
      rw [decodeLossy, hfront] at h hwhole
      have hnil := (List.suffix_cons_iff.mp h).resolve_left hwhole
      exact ⟨[], List.nil_suffix, by simpa [decodeLossy] using hnil⟩

/-- What stands in a displayed text stands in the bytes. -/
theorem encode_infix_of_decodeLossy {word : List Char} {bs : List UInt8}
    (hmark : '\uFFFD' ∉ word) (h : word <:+: decodeLossy bs) : encode word <:+: bs := by
  obtain ⟨text, hword, htext⟩ := List.infix_iff_prefix_suffix.mp h
  obtain ⟨rest, hrest, rfl⟩ := exists_suffix_of_decodeLossy htext
  exact (encode_isPrefix_of_decodeLossy hmark hword).isInfix.trans hrest.isInfix

end Sidecar.Text.Utf8
