import Sidecar.KeyResource
import Sidecar.Proofs.PublicKey
import Sidecar.Proofs.PublicKey.Document
import Sidecar.Proofs.Text.Utf8

/-!
# Sidecar.Proofs.KeyResource

Which bytes are taken for which key (`materialize_eq_ok_iff`): those of a text
that, without the blanks around it, is PEM of the key's canonical document.
-/

namespace Sidecar.KeyResource

open Text

variable {r : KeyResource} {key : PublicKey}

/-! ## Size -/

theorem checkSize_eq_ok_iff {u : Unit} : r.checkSize = .ok u ↔ r.size ≤ maxSize := by
  rw [checkSize]
  split <;> simp <;> omega

/-- A key can be used if its text is not too long and spells one of the supported size. -/
theorem usableKey_eq_ok_iff :
    r.usableKey = .ok key ↔ r.size ≤ maxSize ∧ r.materialize = .ok key := by
  rw [usableKey, bind_eq_ok_iff]
  simp only [checkSize_eq_ok_iff, exists_const]

/-- A resource cannot be used if it is too large, or else if no key comes out of it. -/
theorem usableKey_eq_error_iff {failure : Failure} :
    r.usableKey = .error failure ↔
      maxSize < r.size ∧ failure = .keyTooLarge r.size ∨
        r.size ≤ maxSize ∧ r.materialize = .error failure := by
  rw [usableKey, checkSize]
  by_cases hsize : maxSize < r.size
  · simp [hsize, eq_comm]
  · simp [hsize, Nat.le_of_not_lt hsize]

/-! ## Parsing -/

/-- What the bytes have to be for a key. -/
def Spells (r : KeyResource) (key : PublicKey) : Prop :=
  r.bytes ≠ [] ∧ ∃ text, r.bytes = Utf8.encode text ∧ key.IsTextOf (trim text)

/-- **Reading**: a resource is read as the key that its one document spells, if the key is
admitted. -/
theorem parse_eq_ok_iff : r.parse = .ok key ↔ key.Admitted ∧ r.Spells key := by
  rw [parse, Spells]
  by_cases hempty : r.bytes = []
  · simp [hempty]
  rw [if_neg hempty]
  split
  · next fault hdecode =>
      constructor
      · nofun
      · rintro ⟨-, -, text, htext, -⟩
        rw [Utf8.decode_eq_ok_iff.mpr htext] at hdecode
        cases hdecode
  · next text hdecode =>
      rw [mapError_eq_ok_iff, PublicKey.ofText_eq_ok_iff]
      constructor
      · rintro ⟨hadmitted, htext⟩
        exact ⟨hadmitted, hempty, text, Utf8.decode_eq_ok_iff.mp hdecode, htext⟩
      · rintro ⟨hadmitted, -, text', hbytes, htext⟩
        rw [Utf8.decode_eq_ok_iff.mpr hbytes] at hdecode
        cases hdecode
        exact ⟨hadmitted, htext⟩

/-! ## Keys of the supported size -/

/-- A modulus of 4089 to 4096 bits has 512 bytes. -/
theorem size_eq_signatureLength_iff_bits :
    key.size = signatureLength ↔ 2 ^ 4088 ≤ key.modulus ∧ key.modulus < 2 ^ 4096 := by
  have hpow (width : Nat) : 256 ^ width = 2 ^ (8 * width) := by rw [Nat.pow_mul]
  have hlow : 8 * (signatureLength - 1) = 4088 := rfl
  have hhigh : 8 * signatureLength = 4096 := rfl
  rw [PublicKey.size_eq_signatureLength_iff, hpow, hpow, hlow, hhigh]

/-- A key is taken if it has the supported size. -/
theorem ite_size_eq_ok_iff {key' : PublicKey} {failure : Failure} :
    (if key'.size = signatureLength then .ok key' else .error failure : Except Failure PublicKey) =
        .ok key ↔ key' = key ∧ key.size = signatureLength := by
  split
  · next hsize =>
      rw [Except.ok.injEq, iff_self_and]
      rintro rfl
      exact hsize
  · next hsize =>
      simp only [reduceCtorEq, false_iff, not_and]
      rintro rfl
      exact hsize

/-- A key comes out of a resource that spells it and has a modulus of 512 bytes. -/
theorem materialize_eq_ok_iff :
    r.materialize = .ok key ↔ key.size = signatureLength ∧ key.Admitted ∧ r.Spells key := by
  rw [← parse_eq_ok_iff, materialize]
  cases r.parse with
  | error fault => simp
  | ok key' =>
      dsimp only
      rw [ite_size_eq_ok_iff, Except.ok.injEq, and_comm]

/-- What a reading of a key's text comes to: a key of the supported size, or a failure. -/
def ofReading : Except KeyFault PublicKey → Except Failure PublicKey
  | .error fault => .error (.keyUnreadable fault.message)
  | .ok key =>
      if key.size = signatureLength then .ok key
      else .error (.keySize (key.size * 8) (signatureLength * 8))

/-- A key that has been read passes if its modulus has 512 bytes. -/
theorem ofReading_eq_ok_iff {reading : Except KeyFault PublicKey} :
    ofReading reading = .ok key ↔ reading = .ok key ∧ key.size = signatureLength := by
  cases reading with
  | error fault => simp [ofReading]
  | ok key' => rw [ofReading, ite_size_eq_ok_iff, Except.ok.injEq]

/-- Of bytes that are a text, what is read is the text without the blanks around it. -/
theorem materialize_of_decode {text : List Char} (hne : r.bytes ≠ [])
    (htext : Utf8.decode r.bytes = .ok text) :
    r.materialize = ofReading (PublicKey.ofText (trim text)) := by
  rw [materialize, parse, if_neg hne, htext]
  dsimp only
  cases PublicKey.ofText (trim text) with
  | error fault => rfl
  | ok key => rfl

/-- The key that a text spells has the supported size. -/
theorem size_of_materialize (h : r.materialize = .ok key) : key.size = signatureLength :=
  (materialize_eq_ok_iff.mp h).1

/-- The size of the key is at fault exactly if a key has been read, of another size, which the
error tells in whole bytes. -/
theorem materialize_eq_keySize_iff {bits expected : Nat} :
    r.materialize = .error (.keySize bits expected) ↔
      expected = signatureLength * 8 ∧
        ∃ key, r.parse = .ok key ∧ key.size ≠ signatureLength ∧ bits = key.size * 8 := by
  rw [materialize]
  cases r.parse with
  | error fault => simp
  | ok key =>
      dsimp only
      split
      · next hsize => simp [hsize]
      · next hsize =>
          simp only [Except.error.injEq, Failure.keySize.injEq, Except.ok.injEq, exists_eq_left',
            hsize, not_false_eq_true, true_and, ne_eq]
          rw [and_comm, @eq_comm _ bits, @eq_comm _ expected]

/-- A resource without a key of the supported size is unreadable or has another size. -/
theorem materialize_cases (r : KeyResource) :
    (∃ key, r.materialize = .ok key) ∨
      (∃ reason, r.materialize = .error (.keyUnreadable reason)) ∨
      ∃ bits expected, r.materialize = .error (.keySize bits expected) := by
  rw [materialize]
  split
  · exact Or.inr (Or.inl ⟨_, rfl⟩)
  · split
    · exact Or.inl ⟨_, rfl⟩
    · exact Or.inr (Or.inr ⟨_, _, rfl⟩)

/-- **Canonical keys only**: the bytes that are taken for a key are PEM, between
blanks, of the key's canonical document, and the key's numbers are within their
bounds. All others are refused as unreadable or, if they spell a key of another
size, as that. -/
theorem materialize_canonical (r : KeyResource) :
    (∀ key : PublicKey, r.materialize = .ok key ↔
      (r.bytes ≠ [] ∧ ∃ text, r.bytes = Utf8.encode text ∧
        (Pem.decode (trim text) = .ok ⟨"PUBLIC KEY".toList, key.encodeInfo⟩ ∨
          Pem.decode (trim text) = .ok ⟨"RSA PUBLIC KEY".toList, key.encodeNumbers⟩)) ∧
      (key.modulus % 2 = 1 ∧ 2 ^ 4088 ≤ key.modulus ∧ key.modulus < 2 ^ 4096) ∧
      key.exponent % 2 = 1 ∧ 3 ≤ key.exponent ∧ key.exponent ≤ 2 ^ 33 - 1 ∧
        key.exponent < key.modulus) ∧
    ((∃ key, r.materialize = .ok key) ∨
      (∃ reason, r.materialize = .error (.keyUnreadable reason)) ∨
      ∃ bits expected, r.materialize = .error (.keySize bits expected)) ∧
    ∀ bits expected, r.materialize = .error (.keySize bits expected) ↔
      expected = 4096 ∧ ∃ key : PublicKey, r.Spells key ∧
        PublicKey.ofNumbers key.modulus key.exponent = .ok key ∧
        byteLength key.modulus ≠ 512 ∧ bits = 8 * ((bitLength key.modulus + 7) / 8) := by
  refine ⟨fun key => ?_, materialize_cases r, fun bits expected => ?_⟩
  · rw [materialize_eq_ok_iff, size_eq_signatureLength_iff_bits]
    constructor
    · rintro ⟨⟨hlow, hhigh⟩, ⟨hodd, -, hodd', hthree, hle, hlt⟩, hspells⟩
      exact ⟨hspells, ⟨hodd, hlow, hhigh⟩, hodd', hthree, hle, hlt⟩
    · rintro ⟨hspells, ⟨hodd, hlow, hhigh⟩, hodd', hthree, hle, hlt⟩
      exact ⟨⟨hlow, hhigh⟩, ⟨hodd, hhigh, hodd', hthree, hle, hlt⟩, hspells⟩
  · simp only [materialize_eq_keySize_iff, parse_eq_ok_iff, PublicKey.ofNumbers_eq_ok_iff,
      true_and]
    have hbits (key : PublicKey) : key.size * 8 = 8 * ((bitLength key.modulus + 7) / 8) := by
      rw [PublicKey.size, byteLength_eq_bitLength, Nat.mul_comm]
    constructor
    · rintro ⟨hexpected, key, ⟨hadmitted, hspells⟩, hsize, hkey⟩
      exact ⟨hexpected, key, hspells, hadmitted, hsize, hkey.trans (hbits key)⟩
    · rintro ⟨hexpected, key, hspells, hadmitted, hsize, hkey⟩
      exact ⟨hexpected, key, ⟨hadmitted, hspells⟩, hsize, hkey.trans (hbits key).symm⟩

/-! ## Canonical texts -/

def ofText (text : List Char) : KeyResource := ⟨Utf8.encode text⟩

section

variable {pem : Pem}

/-- The size of a canonical text, by its label and its payload. -/
theorem size_ofText_encode (hlabel : Pem.isLabel false pem.label = true) :
    (ofText pem.encode).size =
      2 * pem.label.length + (4 * ((pem.payload.length + 2) / 3) +
        (4 * ((pem.payload.length + 2) / 3) + 63) / 64) + 32 := by
  rw [size, ofText, Utf8.length_encode_of_ascii (Pem.toNat_lt_of_mem_encode hlabel),
    Pem.length_encode, Pem.length_wrap, Base64.length_encode]

/-- A canonical text that is PEM of a key's document, once trimmed, spells the key. -/
theorem spells_ofText_encode (hlabel : Pem.isLabel false pem.label = true)
    (h : key.IsTextOf pem.trimmed) : (ofText pem.encode).Spells key := by
  have hpos : 0 < (ofText pem.encode).size := by
    rw [size_ofText_encode hlabel]
    omega
  refine ⟨List.length_pos_iff.mp hpos, pem.encode, rfl, ?_⟩
  rw [Pem.trim_encode]
  exact h

end

/-- The canonical SPKI text of a key spells it. -/
theorem spells_toInfoText : (ofText key.toInfoText).Spells key := by
  have hdocument : key.encodeInfo ≠ [] := by
    rw [PublicKey.encodeInfo_eq, Der.encodeValue]
    exact List.cons_ne_nil _ _
  have hdash : '-' ∉ PublicKey.infoLabel.toList := by decide
  exact spells_ofText_encode rfl (Or.inl (Pem.decode_trimmed rfl hdash hdocument))

theorem spells_toNumbersText : (ofText key.toNumbersText).Spells key := by
  have hdocument : key.encodeNumbers ≠ [] := by
    rw [PublicKey.encodeNumbers_eq, Der.encodeValue]
    exact List.cons_ne_nil _ _
  have hdash : '-' ∉ PublicKey.numbersLabel.toList := by decide
  exact spells_ofText_encode rfl (Or.inr (Pem.decode_trimmed rfl hdash hdocument))

/-- The canonical SPKI text of an admitted key is within the maximum. -/
theorem size_toInfoText_le (h : key.Admitted) : (ofText key.toInfoText).size ≤ maxSize := by
  have hdocument := PublicKey.length_encodeInfo_le h
  have hlabel : PublicKey.infoLabel.toList.length = 10 := rfl
  have hmax : maxSize = 800 := rfl
  rw [PublicKey.toInfoText, size_ofText_encode rfl]
  dsimp only
  omega

theorem size_toNumbersText_le (h : key.Admitted) :
    (ofText key.toNumbersText).size ≤ maxSize := by
  have hdocument := PublicKey.length_encodeNumbers_le h
  have hlabel : PublicKey.numbersLabel.toList.length = 14 := rfl
  have hmax : maxSize = 800 := rfl
  rw [PublicKey.toNumbersText, size_ofText_encode rfl]
  dsimp only
  omega

/-- **Both encodings**: the canonical texts of a key of 4089 to 4096 bits are
small enough, and what is read from them is that key. -/
theorem materialize_canonical_text (hodd : key.modulus % 2 = 1) (hlow : 2 ^ 4088 ≤ key.modulus)
    (hhigh : key.modulus < 2 ^ 4096) (hodd' : key.exponent % 2 = 1) (hthree : 3 ≤ key.exponent)
    (hle : key.exponent ≤ 2 ^ 33 - 1) :
    ((ofText key.toInfoText).size ≤ 800 ∧ (ofText key.toInfoText).checkSize = .ok () ∧
      (ofText key.toInfoText).materialize = .ok key) ∧
    (ofText key.toNumbersText).size ≤ 800 ∧ (ofText key.toNumbersText).checkSize = .ok () ∧
      (ofText key.toNumbersText).materialize = .ok key := by
  have hadmitted : key.Admitted := ⟨hodd, hhigh, hodd', hthree, hle, by omega⟩
  have hsize := size_eq_signatureLength_iff_bits.mpr ⟨hlow, hhigh⟩
  have hinfo := size_toInfoText_le hadmitted
  have hnumbers := size_toNumbersText_le hadmitted
  exact ⟨⟨hinfo, checkSize_eq_ok_iff.mpr hinfo,
      materialize_eq_ok_iff.mpr ⟨hsize, hadmitted, spells_toInfoText⟩⟩,
    hnumbers, checkSize_eq_ok_iff.mpr hnumbers,
      materialize_eq_ok_iff.mpr ⟨hsize, hadmitted, spells_toNumbersText⟩⟩

/-- The key whose numbers are the largest. -/
def largestKey : PublicKey := ⟨2 ^ 4096 - 1, 2 ^ 33 - 1⟩

theorem admitted_largestKey : largestKey.Admitted := by
  have hmodulus : largestKey.modulus = 2 ^ 4096 - 1 := rfl
  have hexponent : largestKey.exponent = 2 ^ 33 - 1 := rfl
  constructor <;> omega

theorem materialize_largestKey : (ofText largestKey.toInfoText).materialize = .ok largestKey := by
  have hmodulus : largestKey.modulus = 2 ^ 4096 - 1 := rfl
  have hsize := size_eq_signatureLength_iff_bits.mpr
    (by omega : 2 ^ 4088 ≤ largestKey.modulus ∧ largestKey.modulus < 2 ^ 4096)
  exact materialize_eq_ok_iff.mpr ⟨hsize, admitted_largestKey, spells_toInfoText⟩

/-- The largest key takes up all the bytes that a text may have. -/
theorem materialize_canonical_text_largest :
    (ofText largestKey.toInfoText).size = maxSize ∧
      (ofText largestKey.toInfoText).materialize = .ok largestKey ∧
      (ofText largestKey.toNumbersText).materialize = .ok largestKey := by
  have hmodulus : largestKey.modulus = 2 ^ 4096 - 1 := rfl
  have hexponent : largestKey.exponent = 2 ^ 33 - 1 := rfl
  have htexts := @materialize_canonical_text largestKey (by omega) (by omega) (by omega) (by omega)
    (by omega) (by omega)
  have hdocument : largestKey.encodeInfo.length = 552 := by decide +kernel
  refine ⟨?_, htexts.1.2.2, htexts.2.2.2⟩
  rw [PublicKey.toInfoText, size_ofText_encode rfl, hdocument]
  rfl

end Sidecar.KeyResource
