import Sidecar.Proofs.Der.Value
import Sidecar.Proofs.Pem
import Sidecar.PublicKey.Document

/-!
# Sidecar.Proofs.PublicKey.Document

A document is read as a key exactly if it is that key's canonical document and
the key's numbers are admitted (`decodeNumbers_eq_ok_iff`, `decodeInfo_eq_ok_iff`).
So neither encoding has a second form of any key, at any level of nesting. A text
is read as a key exactly if it is PEM of such a document under the label of its
encoding (`ofText_eq_ok_iff`).
-/

namespace Sidecar.PublicKey

open Der Window

/-! ## Numbers -/

/-- Both numbers are odd, the exponent lies between its bounds and below the
modulus, and the modulus is not too long. -/
structure Admitted (key : PublicKey) : Prop where
  odd_modulus : key.modulus % 2 = 1
  modulus_lt : key.modulus < 2 ^ 4096
  odd_exponent : key.exponent % 2 = 1
  three_le_exponent : 3 ≤ key.exponent
  exponent_le : key.exponent ≤ 2 ^ 33 - 1
  exponent_lt_modulus : key.exponent < key.modulus

/-- The bounds on a key are checked where its numbers are joined, and nowhere else. -/
theorem ofNumbers_eq_ok_iff {modulus exponent : Nat} {key : PublicKey} :
    ofNumbers modulus exponent = .ok key ↔ key = ⟨modulus, exponent⟩ ∧ key.Admitted := by
  have hbits : ¬ maxModulusBits < bitLength modulus ↔ modulus < 2 ^ 4096 := by
    rw [Nat.not_lt, maxModulusBits, bitLength_le_iff]
  have hsize : UInt64.size = 2 ^ 64 := rfl
  have hmax : maxExponent = 2 ^ 33 - 1 := rfl
  simp only [ofNumbers, ite_error_eq_ok_iff, hbits, hsize, hmax, Except.ok.injEq]
  constructor
  · rintro ⟨hlt, -, hmodulus, hodd, hsmall, hlarge, rfl⟩
    refine ⟨rfl, ?_, hlt, ?_, ?_, ?_, ?_⟩
    all_goals
      dsimp only
      omega
  · rintro ⟨rfl, hodd, hlt, hodd', hsmall, hlarge, hless⟩
    dsimp only at hodd hlt hodd' hsmall hlarge hless
    exact ⟨hlt, by omega, by omega, by omega, by omega, by omega, rfl⟩

/-! ## Lengths -/

/-- The contents of every key's algorithm. -/
def algorithmContents : List UInt8 := encodeIdentifier rsaIdentifier ++ encodeNull

theorem encodeNumbers_eq (key : PublicKey) :
    key.encodeNumbers =
      encodeValue .sequence (encodeInteger key.modulus ++ encodeInteger key.exponent) := by
  simp only [encodeNumbers, encodeSequence, List.flatten_cons, List.flatten_nil, List.append_nil]

theorem encodeInfo_eq (key : PublicKey) :
    key.encodeInfo =
      encodeValue .sequence
        (encodeValue .sequence algorithmContents ++
          encodeValue .bitString (0 :: key.encodeNumbers)) := by
  simp only [encodeInfo, encodeSequence, encodeBitString, algorithmContents, List.flatten_cons,
    List.flatten_nil, List.append_nil]

section

variable {key : PublicKey}

theorem Admitted.bitLength_modulus_le (h : key.Admitted) : bitLength key.modulus ≤ 4096 :=
  bitLength_le_iff.mpr h.modulus_lt

theorem Admitted.bitLength_exponent_le (h : key.Admitted) : bitLength key.exponent ≤ 33 := by
  have hle := h.exponent_le
  exact bitLength_le_iff.mpr (by omega)

/-- The contents of the PKCS #1 document stay within a two-byte length. -/
theorem length_numbersContents_le (h : key.Admitted) :
    (encodeInteger key.modulus ++ encodeInteger key.exponent).length ≤ 524 := by
  have hmodulus : (encodeInteger key.modulus).length ≤ 517 := by
    have hbits := h.bitLength_modulus_le
    exact length_encodeValue_le _ (by rw [length_bytesOfNat]; omega) (by decide)
  have hexponent : (encodeInteger key.exponent).length ≤ 7 := by
    have hbits := h.bitLength_exponent_le
    rw [encodeInteger, length_encodeValue_of_lt] <;> rw [length_bytesOfNat] <;> omega
  rw [List.length_append]
  omega

theorem length_encodeNumbers_le (h : key.Admitted) : key.encodeNumbers.length ≤ 528 := by
  have hcontents := length_numbersContents_le h
  rw [encodeNumbers_eq]
  exact length_encodeValue_le _ (by omega) (by decide)

/-- The contents of the SPKI document stay within a two-byte length. -/
theorem length_infoContents_le (h : key.Admitted) :
    (encodeValue .sequence algorithmContents ++
      encodeValue .bitString (0 :: key.encodeNumbers)).length ≤ 548 := by
  have hnumbers := length_encodeNumbers_le h
  have halgorithm : (encodeValue .sequence algorithmContents).length = 15 := rfl
  have hstring : (encodeValue .bitString (0 :: key.encodeNumbers)).length ≤ 533 :=
    length_encodeValue_le _ (by rw [List.length_cons]; omega) (by decide)
  rw [List.length_append]
  omega

theorem length_encodeInfo_le (h : key.Admitted) : key.encodeInfo.length ≤ 552 := by
  have hcontents := length_infoContents_le h
  rw [encodeInfo_eq]
  exact length_encodeValue_le _ (by omega) (by decide)

/-! ## PKCS #1 -/

/-- The contents of a PKCS #1 document are two integers and nothing else, in their only
encoding. -/
theorem readsWhole_readNumbers :
    ReadsWhole readNumbers fun numbers contents =>
      bitLength numbers.1 / 8 + 1 ≤ maxLength ∧ bitLength numbers.2 / 8 + 1 ≤ maxLength ∧
        contents = encodeInteger numbers.1 ++ encodeInteger numbers.2 := by
  rintro start contents ⟨n, e⟩
  simp only [readNumbers, bind_eq_ok_iff, Prod.exists, field_eq_ok_iff, readInteger_eq_ok_iff,
    pure_eq_ok, Except.ok.injEq, Prod.mk.injEq]
  constructor
  · rintro ⟨_, ⟨_, w₁, ⟨hn, hw⟩, _, w₂, ⟨he, hw₁⟩, ⟨rfl, rfl⟩, rfl⟩, hend⟩
    exact ⟨hn, he,
      exists_advances_whole_iff.mp ⟨w₂, advances_append_iff.mpr ⟨w₁, hw, hw₁⟩, hend⟩⟩
  · rintro ⟨hn, he, hcontents⟩
    obtain ⟨w₂, hw, hend⟩ : ∃ w₂, (⟨start, start, contents⟩ : Window).Advances _ w₂ ∧ _ :=
      exists_advances_whole_iff.mpr hcontents
    obtain ⟨w₁, hw, hw₁⟩ := advances_append_iff.mp hw
    exact ⟨w₂, ⟨n, w₁, ⟨hn, hw⟩, e, w₂, ⟨he, hw₁⟩, ⟨rfl, rfl⟩, rfl⟩, hend⟩

/-- **PKCS #1**: a document is read as a key exactly if it is that key's
canonical document. -/
theorem decodeNumbers_eq_ok_iff {bs : List UInt8} :
    decodeNumbers bs = .ok key ↔ key.Admitted ∧ bs = key.encodeNumbers := by
  have hdecode : decodeNumbers bs = .ok key ↔
      ∃ n e, readDocument bs readNumbers = .ok (n, e) ∧ ofNumbers n e = .ok key := by
    rw [decodeNumbers]
    split
    · next h =>
      simp [h]
    · next h =>
      simp [h, mapError_eq_ok_iff]
  simp only [hdecode, readDocument_eq_ok_iff readsWhole_readNumbers, ofNumbers_eq_ok_iff,
    encodeNumbers_eq]
  constructor
  · rintro ⟨n, e, ⟨_, ⟨-, -, rfl⟩, -, rfl⟩, rfl, hadmitted⟩
    exact ⟨hadmitted, rfl⟩
  · rintro ⟨hadmitted, rfl⟩
    have hmodulus := hadmitted.bitLength_modulus_le
    have hexponent := hadmitted.bitLength_exponent_le
    have hcontents := length_numbersContents_le hadmitted
    have hmax : maxLength = 0xFFFFFFF := rfl
    exact ⟨key.modulus, key.exponent, ⟨_, ⟨by omega, by omega, rfl⟩, by omega, rfl⟩, rfl,
      hadmitted⟩

/-! ## SubjectPublicKeyInfo -/

/-- The contents of an algorithm: its identifier, and its parameters if it has any. -/
def IsAlgorithmContents (algorithm : List UInt8 × Option (Tag × List UInt8))
    (contents : List UInt8) : Prop :=
  algorithm.1.length ≤ maxIdentifierLength ∧ isIdentifier algorithm.1 = true ∧
    match algorithm.2 with
    | none => contents = encodeIdentifier algorithm.1
    | some (tag, parameters) =>
        Tag.ofByte tag.byte = .ok tag ∧ parameters.length ≤ maxLength ∧
          contents = encodeIdentifier algorithm.1 ++ encodeValue tag parameters

/-- An algorithm identifier is read off the front of a window exactly where a sequence with its
contents stands there. -/
theorem readAlgorithm_eq_ok_iff {w w' : Window}
    {algorithm : List UInt8 × Option (Tag × List UInt8)} :
    readAlgorithm w = .ok (algorithm, w') ↔
      ∃ contents, IsAlgorithmContents algorithm contents ∧ contents.length ≤ maxLength ∧
        w.Advances (encodeValue .sequence contents) w' := by
  apply readSequence_eq_ok_iff
  rintro start contents ⟨identifier, parameters⟩
  simp only [bind_eq_ok_iff, Prod.exists, field_eq_ok_iff, readIdentifier_eq_ok_iff, pure_eq_ok,
    Except.ok.injEq, Prod.mk.injEq, IsAlgorithmContents]
  constructor
  · rintro ⟨_, ⟨_, w₁, ⟨hlength, hid, hw⟩, parameters, w₂, hoptional, ⟨rfl, rfl⟩, rfl⟩, hend⟩
    refine ⟨hlength, hid, ?_⟩
    cases parameters with
    | none =>
        obtain ⟨hrest, rfl⟩ := readOptional_eq_ok_none_iff.mp hoptional
        exact exists_advances_whole_iff.mp ⟨w₂, hw, hrest⟩
    | some value =>
        obtain ⟨htag, hmax, hw₁⟩ := readOptional_eq_ok_some_iff.mp hoptional
        exact ⟨htag, hmax,
          exists_advances_whole_iff.mp ⟨w₂, advances_append_iff.mpr ⟨w₁, hw, hw₁⟩, hend⟩⟩
  · rintro ⟨hlength, hid, hparameters⟩
    cases parameters with
    | none =>
        obtain ⟨w₁, hw, hend⟩ := exists_advances_whole_iff.mpr hparameters
        exact ⟨w₁, ⟨identifier, w₁, ⟨hlength, hid, hw⟩, none, w₁,
          readOptional_eq_ok_none_iff.mpr ⟨hend, rfl⟩, ⟨rfl, rfl⟩, rfl⟩, hend⟩
    | some value =>
        obtain ⟨htag, hmax, hcontents⟩ := hparameters
        obtain ⟨w₂, hw, hend⟩ := exists_advances_whole_iff.mpr hcontents
        obtain ⟨w₁, hw, hw₁⟩ := advances_append_iff.mp hw
        exact ⟨w₂, ⟨identifier, w₁, ⟨hlength, hid, hw⟩, some value, w₂,
          readOptional_eq_ok_some_iff.mpr ⟨htag, hmax, hw₁⟩, ⟨rfl, rfl⟩, rfl⟩, hend⟩

/-- The contents of an SPKI document are an algorithm identifier and a bit string, and nothing
else. -/
theorem readsWhole_readInfo :
    ReadsWhole readInfo fun info contents =>
      ∃ algorithm, IsAlgorithmContents (info.algorithm, info.parameters) algorithm ∧
        algorithm.length ≤ maxLength ∧ info.key.length + 1 ≤ maxLength ∧
        ¬ (7 < info.unused ∨ info.unused ≠ 0 ∧ info.key = []) ∧
        contents = encodeValue .sequence algorithm ++
          encodeValue .bitString (info.unused :: info.key) := by
  rintro start contents ⟨identifier, parameters, unused, key⟩
  simp only [readInfo, bind_eq_ok_iff, Prod.exists, field_eq_ok_iff, readAlgorithm_eq_ok_iff,
    readBitString_eq_ok_iff, pure_eq_ok, Except.ok.injEq, Prod.mk.injEq, Info.mk.injEq]
  constructor
  · rintro ⟨_, ⟨_, _, w₁, ⟨algorithm, halgorithm, hmax, hw⟩, _, _, w₂, ⟨hvalid, hmax', hw₁⟩,
      ⟨rfl, rfl, rfl, rfl⟩, rfl⟩, hend⟩
    exact ⟨algorithm, halgorithm, hmax, hmax', hvalid,
      exists_advances_whole_iff.mp ⟨w₂, advances_append_iff.mpr ⟨w₁, hw, hw₁⟩, hend⟩⟩
  · rintro ⟨algorithm, halgorithm, hmax, hmax', hvalid, hcontents⟩
    obtain ⟨w₂, hw, hend⟩ := exists_advances_whole_iff.mpr hcontents
    obtain ⟨w₁, hw, hw₁⟩ := advances_append_iff.mp hw
    exact ⟨w₂, ⟨identifier, parameters, w₁, ⟨algorithm, halgorithm, hmax, hw⟩, unused, key, w₂,
      ⟨hvalid, hmax', hw₁⟩, ⟨rfl, rfl, rfl, rfl⟩, rfl⟩, hend⟩

/-- **SubjectPublicKeyInfo**: a document is read as a key exactly if it is that
key's canonical document. -/
theorem decodeInfo_eq_ok_iff {bs : List UInt8} :
    decodeInfo bs = .ok key ↔ key.Admitted ∧ bs = key.encodeInfo := by
  have hdecode : decodeInfo bs = .ok key ↔
      ∃ numbers, readDocument bs readInfo = .ok ⟨rsaIdentifier, some (.null, []), 0, numbers⟩ ∧
        decodeNumbers numbers = .ok key := by
    rw [decodeInfo]
    split
    · next h =>
      simp [h]
    · next info h =>
      obtain ⟨identifier, parameters, unused, numbers⟩ := info
      cases parameters with
      | none => simp [h, ite_error_eq_ok_iff]
      | some value =>
          simp only [h, ite_error_eq_ok_iff, Except.ok.injEq, Info.mk.injEq, Option.some.injEq]
          constructor
          · rintro ⟨hidentifier, hrest, hnumbers⟩
            simp only [ne_eq, not_or, not_not] at hidentifier hrest
            exact ⟨numbers, ⟨hidentifier, hrest.1, hrest.2, rfl⟩, hnumbers⟩
          · rintro ⟨_, ⟨rfl, rfl, rfl, rfl⟩, hnumbers⟩
            exact ⟨by simp, by simp, hnumbers⟩
  simp only [hdecode, readDocument_eq_ok_iff readsWhole_readInfo, decodeNumbers_eq_ok_iff,
    encodeInfo_eq]
  constructor
  · rintro ⟨numbers, ⟨_, ⟨_, ⟨-, -, -, -, rfl⟩, -, -, -, rfl⟩, -, rfl⟩, hadmitted, rfl⟩
    exact ⟨hadmitted, rfl⟩
  · rintro ⟨hadmitted, rfl⟩
    have hnumbers := length_encodeNumbers_le hadmitted
    have hcontents := length_infoContents_le hadmitted
    have hmax : maxLength = 0xFFFFFFF := rfl
    have halgorithm : IsAlgorithmContents (rsaIdentifier, some (.null, [])) algorithmContents :=
      ⟨by decide, by decide, rfl, by decide, rfl⟩
    exact ⟨key.encodeNumbers, ⟨_, ⟨algorithmContents, halgorithm, by decide, by omega, by simp,
      rfl⟩, by omega, rfl⟩, hadmitted, rfl⟩

/-! ## Texts -/

/-- A document of a label is a PEM text with that label whose payload is one DER value. -/
theorem documentOfText_eq_ok_iff {label : String} {text : List Char} {bs : List UInt8} :
    documentOfText label text = .ok bs ↔
      Pem.decode text = .ok ⟨label.toList, bs⟩ ∧ checkDocument bs = .ok () := by
  unfold documentOfText
  cases Pem.decode text with
  | error fault => simp
  | ok pem =>
      obtain ⟨name, payload⟩ := pem
      dsimp only
      constructor
      · intro h
        split at h
        · cases h
        · next hcheck =>
          split at h
          · next hname =>
            cases h
            rw [hname]
            exact ⟨rfl, hcheck⟩
          · cases h
      · rintro ⟨h, hcheck⟩
        cases h
        simp only [hcheck, if_true]

/-- The PKCS #1 document of an admitted key is one DER value. -/
theorem checkDocument_encodeNumbers (h : key.Admitted) :
    checkDocument key.encodeNumbers = .ok () := by
  have hcontents := length_numbersContents_le h
  have hmax : maxLength = 0xFFFFFFF := rfl
  exact checkDocument_eq_ok_iff.mpr ⟨_, by omega, encodeNumbers_eq key⟩

/-- The SPKI document of an admitted key is one DER value. -/
theorem checkDocument_encodeInfo (h : key.Admitted) : checkDocument key.encodeInfo = .ok () := by
  have hcontents := length_infoContents_le h
  have hmax : maxLength = 0xFFFFFFF := rfl
  exact checkDocument_eq_ok_iff.mpr ⟨_, by omega, encodeInfo_eq key⟩

/-- **SPKI texts**: the keys read from `PUBLIC KEY` texts are the admitted ones, each from its one
document. -/
theorem ofInfoText_eq_ok_iff {text : List Char} :
    ofInfoText text = .ok key ↔
      key.Admitted ∧ Pem.decode text = .ok ⟨infoLabel.toList, key.encodeInfo⟩ := by
  have hbind : ofInfoText text = documentOfText infoLabel text >>= decodeInfo := rfl
  simp only [hbind, bind_eq_ok_iff, documentOfText_eq_ok_iff, decodeInfo_eq_ok_iff]
  constructor
  · rintro ⟨_, ⟨hpem, -⟩, hadmitted, rfl⟩
    exact ⟨hadmitted, hpem⟩
  · rintro ⟨hadmitted, hpem⟩
    exact ⟨_, ⟨hpem, checkDocument_encodeInfo hadmitted⟩, hadmitted, rfl⟩

/-- **PKCS #1 texts**: the keys read from `RSA PUBLIC KEY` texts are the admitted ones, each from
its one document. -/
theorem ofNumbersText_eq_ok_iff {text : List Char} :
    ofNumbersText text = .ok key ↔
      key.Admitted ∧ Pem.decode text = .ok ⟨numbersLabel.toList, key.encodeNumbers⟩ := by
  have hbind : ofNumbersText text = documentOfText numbersLabel text >>= decodeNumbers := rfl
  simp only [hbind, bind_eq_ok_iff, documentOfText_eq_ok_iff, decodeNumbers_eq_ok_iff]
  constructor
  · rintro ⟨_, ⟨hpem, -⟩, hadmitted, rfl⟩
    exact ⟨hadmitted, hpem⟩
  · rintro ⟨hadmitted, hpem⟩
    exact ⟨_, ⟨hpem, checkDocument_encodeNumbers hadmitted⟩, hadmitted, rfl⟩

/-- What a text has to hold for a key: its document in one of the encodings,
under the label of that encoding. -/
def IsTextOf (key : PublicKey) (text : List Char) : Prop :=
  Pem.decode text = .ok ⟨infoLabel.toList, key.encodeInfo⟩ ∨
    Pem.decode text = .ok ⟨numbersLabel.toList, key.encodeNumbers⟩

/-- A text is read as a key exactly if it holds that key and the key is admitted; a document of
one encoding under the label of the other is none. -/
theorem ofText_eq_ok_iff {text : List Char} :
    ofText text = .ok key ↔ key.Admitted ∧ key.IsTextOf text := by
  rw [ofText]
  split
  · next key' hinfo =>
      obtain ⟨hadmitted, hpem⟩ := ofInfoText_eq_ok_iff.mp hinfo
      rw [← hinfo, ofInfoText_eq_ok_iff, IsTextOf, and_congr_right_iff]
      intro _
      have hlabel : infoLabel.toList ≠ numbersLabel.toList := by decide
      simp [hpem, hlabel]
  · next fault hinfo =>
      have hnone : ¬ (key.Admitted ∧ Pem.decode text = .ok ⟨infoLabel.toList, key.encodeInfo⟩) := by
        rw [← ofInfoText_eq_ok_iff, hinfo]
        nofun
      rw [mapError_eq_ok_iff, ofNumbersText_eq_ok_iff, IsTextOf, and_or_left, or_iff_right hnone]

end

/-- The text of a key with a modulus of 2048 bits. -/
example :
    let words :=
      [0xd733612875b50e8451f14dd7d3052f0df8a803b54c51f382f6872878847ae774,
        0xacfbd4af67e12930a937d37fba9377bb57f29746da485a5f0c60f115dbb7a51f,
        0x137d86c9d2ba0156c1f7d67baca173e295cb5728acc480736f91bf5ed2bef6be,
        0x65b3c77a7a9994fcccfea5603446e9bdafb0c63c0ae75bf5445c8b8dead81267,
        0x2a0c4cdaf01d5e5eea6f61932e0c0fccb5505f70e313908cd9fe1bb0003e355a,
        0x8fba2f93e26b08b30d85de741c7d8c0b2ca6e4d1b900061fac007451490aadaa,
        0x5c489b6522a98db590d5bfc93a4c6b4d051c5c72c39570d6dad7237fa459faa1,
        0xbb19f4f9e1b87e229a18282d38b4b61622339f3ca81937e4a7e222bfc54ac621]
    toInfoText ⟨words.foldl (fun n word => n * 2 ^ 256 + word) 0, 65537⟩ =
      ["-----BEGIN PUBLIC KEY-----\n",
        "MIIBIjANBgkqhkiG9w0BAQEFAAOCAQ8AMIIBCgKCAQEA1zNhKHW1DoRR8U3X0wUv\n",
        "DfioA7VMUfOC9ocoeIR653Ss+9SvZ+EpMKk303+6k3e7V/KXRtpIWl8MYPEV27el\n",
        "HxN9hsnSugFWwffWe6yhc+KVy1corMSAc2+Rv17Svva+ZbPHenqZlPzM/qVgNEbp\n",
        "va+wxjwK51v1RFyLjerYEmcqDEza8B1eXupvYZMuDA/MtVBfcOMTkIzZ/huwAD41\n",
        "Wo+6L5PiawizDYXedBx9jAsspuTRuQAGH6wAdFFJCq2qXEibZSKpjbWQ1b/JOkxr\n",
        "TQUcXHLDlXDW2tcjf6RZ+qG7GfT54bh+IpoYKC04tLYWIjOfPKgZN+Sn4iK/xUrG\n",
        "IQIDAQAB\n",
        "-----END PUBLIC KEY-----\n"].flatMap String.toList := by
  decide +kernel

end Sidecar.PublicKey
