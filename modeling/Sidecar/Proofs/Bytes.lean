import Mathlib.Tactic.Ring
import Sidecar.Bytes

/-!
# Sidecar.Proofs.Bytes

Big-endian numbers of a fixed width: `natOfBytes` and `bytesOfNat` are inverse
to each other, as long as the number fits its width.

* `bytesOfNat_natOfBytes` — bytes are those of their number;
* `natOfBytes_bytesOfNat` — a number is kept up to its width;
* `byteLength_eq_iff` — the length of a number, by the powers around it;
* `spellsHex_hex` — hexadecimal text spells its bytes.
-/

namespace Sidecar

/-! ## Digits -/

/-- The bytes after a value that has been read. -/
theorem foldl_natOfBytes (bs : List UInt8) (value : Nat) :
    bs.foldl (fun value b => value * 256 + b.toNat) value =
      value * 256 ^ bs.length + natOfBytes bs := by
  induction bs generalizing value with
  | nil => simp [natOfBytes]
  | cons b bs ih =>
      have hb : natOfBytes (b :: bs) = b.toNat * 256 ^ bs.length + natOfBytes bs := by
        rw [natOfBytes, List.foldl_cons, ih, Nat.zero_mul, Nat.zero_add]
      rw [List.foldl_cons, ih, hb, List.length_cons, Nat.pow_succ, Nat.add_mul, Nat.mul_assoc,
        Nat.mul_comm 256, Nat.add_assoc]

@[simp] theorem natOfBytes_nil : natOfBytes [] = 0 := rfl

/-- The first byte has the most weight. -/
theorem natOfBytes_cons (b : UInt8) (bs : List UInt8) :
    natOfBytes (b :: bs) = b.toNat * 256 ^ bs.length + natOfBytes bs := by
  rw [natOfBytes, List.foldl_cons, foldl_natOfBytes]
  simp

theorem bytesOfNat_succ (width n : Nat) :
    bytesOfNat (width + 1) n = UInt8.ofNat (n / 256 ^ width) :: bytesOfNat width n := by
  rw [bytesOfNat, Nat.shiftRight_eq_div_pow, Nat.pow_mul]

/-! ## Numbers of a width -/

/-- The number of some bytes fits their width. -/
theorem natOfBytes_lt (bs : List UInt8) : natOfBytes bs < 256 ^ bs.length := by
  induction bs with
  | nil => simp
  | cons b bs ih =>
      have hb : b.toNat + 1 ≤ 256 := b.toNat_lt
      have hstep : (b.toNat + 1) * 256 ^ bs.length ≤ 256 * 256 ^ bs.length :=
        Nat.mul_le_mul_right _ hb
      rw [natOfBytes_cons, List.length_cons, Nat.pow_succ, Nat.mul_comm (256 ^ bs.length)]
      rw [Nat.succ_mul] at hstep
      omega

/-- A zero byte at the front changes nothing. -/
theorem natOfBytes_zero_cons (bs : List UInt8) : natOfBytes (0 :: bs) = natOfBytes bs := by
  rw [natOfBytes_cons, UInt8.toNat_zero, Nat.zero_mul, Nat.zero_add]

/-- Digits above the width change nothing. The induction takes any digits there, since to the
bytes that follow it the first byte is one more of them. -/
theorem bytesOfNat_add_natOfBytes (high : Nat) (bs : List UInt8) :
    bytesOfNat bs.length (high * 256 ^ bs.length + natOfBytes bs) = bs := by
  induction bs generalizing high with
  | nil => rfl
  | cons b bs ih =>
      have hdigits : high * 256 ^ (b :: bs).length + natOfBytes (b :: bs) =
          (high * 256 + b.toNat) * 256 ^ bs.length + natOfBytes bs := by
        rw [natOfBytes_cons, List.length_cons]
        ring
      have hpos : 0 < 256 ^ bs.length := Nat.pow_pos (by decide)
      have hfirst : ((high * 256 + b.toNat) * 256 ^ bs.length + natOfBytes bs) / 256 ^ bs.length =
          high * 256 + b.toNat := by
        rw [Nat.mul_comm, Nat.mul_add_div hpos, Nat.div_eq_of_lt (natOfBytes_lt bs), Nat.add_zero]
      rw [hdigits, List.length_cons, bytesOfNat_succ, ih, hfirst]
      congr 1
      rw [← UInt8.toNat_inj, UInt8.toNat_ofNat']
      have hb := b.toNat_lt
      omega

/-- Bytes are those of their number. -/
theorem bytesOfNat_natOfBytes (bs : List UInt8) :
    bytesOfNat bs.length (natOfBytes bs) = bs := by
  have h := bytesOfNat_add_natOfBytes 0 bs
  rwa [Nat.zero_mul, Nat.zero_add] at h

/-- A number is kept up to its width. -/
theorem natOfBytes_bytesOfNat (width n : Nat) :
    natOfBytes (bytesOfNat width n) = n % 256 ^ width := by
  induction width with
  | zero => simp [bytesOfNat, Nat.mod_one]
  | succ width ih =>
      have hfirst : (UInt8.ofNat (n / 256 ^ width)).toNat = n / 256 ^ width % 256 := by
        rw [UInt8.toNat_ofNat']
      rw [bytesOfNat_succ, natOfBytes_cons, length_bytesOfNat, ih, hfirst, Nat.pow_succ, Nat.mod_mul,
        Nat.mul_comm (256 ^ width), Nat.add_comm]

/-- Byte sequences of one length with the same number are the same. -/
theorem eq_of_natOfBytes_eq {xs ys : List UInt8} (hlength : xs.length = ys.length)
    (h : natOfBytes xs = natOfBytes ys) : xs = ys := by
  rw [← bytesOfNat_natOfBytes xs, ← bytesOfNat_natOfBytes ys, hlength, h]

/-- Numbers that fit a width and have the same bytes are the same. -/
theorem eq_of_bytesOfNat_eq {width m n : Nat} (hm : m < 256 ^ width) (hn : n < 256 ^ width)
    (h : bytesOfNat width m = bytesOfNat width n) : m = n := by
  have hnumber := congrArg natOfBytes h
  rwa [natOfBytes_bytesOfNat, natOfBytes_bytesOfNat, Nat.mod_eq_of_lt hm,
    Nat.mod_eq_of_lt hn] at hnumber

/-! ## Lengths of numbers -/

/-- A number has `width` bytes if it lies between the powers of 256 that bound this length. -/
theorem byteLength_eq_iff {width n : Nat} (hwidth : 0 < width) :
    byteLength n = width ↔ 256 ^ (width - 1) ≤ n ∧ n < 256 ^ width := by
  have hpow : ∀ k, 256 ^ k = 2 ^ (8 * k) := fun k => by rw [Nat.pow_mul]
  rw [hpow, hpow]
  by_cases hn : n = 0
  · have hpos : 0 < 2 ^ (8 * (width - 1)) := Nat.two_pow_pos _
    rw [byteLength, if_pos hn]
    omega
  · rw [byteLength, if_neg hn, ← Nat.le_log2 hn, ← Nat.log2_lt hn]
    omega

theorem byteLength_le_iff {width n : Nat} : byteLength n ≤ width ↔ n < 256 ^ width := by
  have hpow : 256 ^ width = 2 ^ (8 * width) := by rw [Nat.pow_mul]
  rw [hpow]
  by_cases hn : n = 0
  · have hpos : 0 < 2 ^ (8 * width) := Nat.two_pow_pos _
    rw [byteLength, if_pos hn]
    omega
  · rw [byteLength, if_neg hn, ← Nat.log2_lt hn]
    omega

/-- A number takes as many bytes as its bits fill. -/
theorem byteLength_eq_bitLength (n : Nat) : byteLength n = (bitLength n + 7) / 8 := by
  unfold byteLength bitLength
  split <;> omega

/-- No digit of a number lies above its length. -/
theorem natOfBytes_bytesOfNat_byteLength (n : Nat) :
    natOfBytes (bytesOfNat (byteLength n) n) = n := by
  by_cases hn : n = 0
  · rw [hn]
    rfl
  · have hpos : 0 < byteLength n := by
      rw [byteLength, if_neg hn]
      omega
    rw [natOfBytes_bytesOfNat, Nat.mod_eq_of_lt ((byteLength_eq_iff hpos).mp rfl).2]

/-- The number of digits is at most `m` if the number is below the `m`-th power. -/
theorem bitLength_le_iff {m n : Nat} : bitLength n ≤ m ↔ n < 2 ^ m := by
  by_cases hn : n = 0
  · have hpos : 0 < 2 ^ m := Nat.two_pow_pos m
    rw [bitLength, if_pos hn, hn]
    omega
  · rw [bitLength, if_neg hn, ← Nat.log2_lt hn]
    omega

/-- Compared with a multiple of its last power, a number is decided by its first byte. -/
theorem natOfBytes_cons_lt_iff {b : UInt8} {bs : List UInt8} {m : Nat} :
    natOfBytes (b :: bs) < m * 256 ^ bs.length ↔ b.toNat < m := by
  have hlt := natOfBytes_lt bs
  rw [natOfBytes_cons]
  constructor
  · intro h
    by_contra hle
    have hmul : m * 256 ^ bs.length ≤ b.toNat * 256 ^ bs.length :=
      Nat.mul_le_mul_right _ (Nat.le_of_not_lt hle)
    omega
  · intro h
    have hmul : (b.toNat + 1) * 256 ^ bs.length ≤ m * 256 ^ bs.length := Nat.mul_le_mul_right _ h
    rw [Nat.succ_mul] at hmul
    omega

/-- A number of some bytes fits without the first bit if the first byte does. -/
theorem bitLength_natOfBytes_cons_le_iff {b : UInt8} {bs : List UInt8} :
    bitLength (natOfBytes (b :: bs)) ≤ 8 * bs.length + 7 ↔ b < 0x80 := by
  have hpow : 2 ^ (8 * bs.length + 7) = 0x80 * 256 ^ bs.length := by
    rw [Nat.pow_add, Nat.pow_mul, Nat.mul_comm]
  rw [bitLength_le_iff, hpow, natOfBytes_cons_lt_iff, UInt8.lt_iff_toNat_lt]
  rfl

/-- Bytes that leave the first bit clear and could not be fewer are the ones of their number. -/
theorem natOfBytes_bytesOfNat_integerLength (n : Nat) :
    natOfBytes (bytesOfNat (bitLength n / 8 + 1) n) = n := by
  have hlt : n < 256 ^ (bitLength n / 8 + 1) := by
    have hpow : 256 ^ (bitLength n / 8 + 1) = 2 ^ (8 * (bitLength n / 8 + 1)) := by
      rw [Nat.pow_mul]
    rw [hpow, ← bitLength_le_iff]
    omega
  rw [natOfBytes_bytesOfNat, Nat.mod_eq_of_lt hlt]

/-! ## Hexadecimal text -/

/-- The lower-case digits to base sixteen, in order. -/
def hexDigits : List Char := "0123456789abcdef".toList

/-- Whether characters spell bytes: for each the digit that counts sixteens, and the
one that counts ones. -/
inductive SpellsHex : List UInt8 → List Char → Prop
  | nil : SpellsHex [] []
  | cons {b : UInt8} {bs : List UInt8} {i j : Nat} {high low : Char} {digits : List Char}
      (hhigh : hexDigits[i]? = some high) (hlow : hexDigits[j]? = some low)
      (hb : b.toNat = 16 * i + j) (h : SpellsHex bs digits) :
      SpellsHex (b :: bs) (high :: low :: digits)

theorem hexDigits_getElem? : ∀ n < 16, hexDigits[n]? = some (hexDigit n) := by decide

/-- Two digits a byte. -/
theorem SpellsHex.length_eq {bs : List UInt8} {digits : List Char} (h : SpellsHex bs digits) :
    digits.length = 2 * bs.length := by
  induction h with
  | nil => rfl
  | cons _ _ _ _ ih => simp [ih]; omega

theorem SpellsHex.subset {bs : List UInt8} {digits : List Char} (h : SpellsHex bs digits) :
    digits ⊆ hexDigits := by
  induction h with
  | nil => exact List.nil_subset _
  | cons hhigh hlow _ _ ih =>
      exact List.cons_subset.mpr ⟨List.mem_of_getElem? hhigh,
        List.cons_subset.mpr ⟨List.mem_of_getElem? hlow, ih⟩⟩

/-- Hexadecimal text spells its bytes. -/
theorem spellsHex_hex (bs : List UInt8) : SpellsHex bs (hex bs).toList := by
  rw [hex, String.toList_ofList]
  induction bs with
  | nil => exact .nil
  | cons b bs ih =>
      have hlt := b.toNat_lt
      exact .cons (hexDigits_getElem? (b.toNat / 16) (by omega))
        (hexDigits_getElem? (b.toNat % 16) (by omega)) (by omega) ih

end Sidecar
