import Sidecar.Der.Value
import Sidecar.Proofs.Bytes
import Sidecar.Proofs.Der.Window

/-!
# Sidecar.Proofs.Der.Value

The readers of DER values accept canonical encodings and nothing else. Each has
one lemma `…_eq_ok_iff` of the same shape: it succeeds with a value exactly if
the window begins with that value's encoding, the length of its contents being
a supported one. Both a reader's round trip and the uniqueness of what it
accepts are in that equivalence, and those of the readers of structures are put
together from those of their parts.
-/

namespace Sidecar.Der

/-! ## Lengths -/

theorem byteLength_le_four {n : Nat} (h : n ≤ maxLength) : byteLength n ≤ 4 := by
  unfold byteLength
  split
  · omega
  · next hn =>
    have hlog : n.log2 < 28 := (Nat.log2_lt hn).mpr (by rw [maxLength] at h; omega)
    omega

theorem length_encodeValue (tag : Tag) (contents : List UInt8) :
    (encodeValue tag contents).length =
      (encodeLength contents.length).length + contents.length + 1 := by
  rw [encodeValue, List.length_append, List.length_cons]
  omega

/-- A header in the short form has two bytes. -/
theorem length_encodeValue_of_lt (tag : Tag) {contents : List UInt8} (h : contents.length < 0x80) :
    (encodeValue tag contents).length = contents.length + 2 := by
  rw [length_encodeValue, encodeLength, if_pos h, List.length_singleton]
  omega

/-- A header before contents of a moderate length has four bytes at most. -/
theorem length_encodeValue_le (tag : Tag) {contents : List UInt8} {n : Nat}
    (h : contents.length + 4 ≤ n) (hn : n < 256 ^ 2) : (encodeValue tag contents).length ≤ n := by
  have hlength : (encodeLength contents.length).length ≤ 3 := by
    unfold encodeLength
    split
    · rw [List.length_singleton]
      omega
    · have hbytes : byteLength contents.length ≤ 2 := byteLength_le_iff.mpr (by omega)
      rw [List.length_cons, length_bytesOfNat]
      omega
  rw [length_encodeValue]
  omega

namespace Window

/-! ## Headers -/

/-- A tag is read where its byte stands, and only if that byte is one of a tag. -/
theorem readTag_eq_ok_iff {w w' : Window} {tag : Tag} :
    w.readTag = .ok (tag, w') ↔ Tag.ofByte tag.byte = .ok tag ∧ w.Advances [tag.byte] w' := by
  have hbyte : ∀ {byte : UInt8} {t : Tag}, Tag.ofByte byte = .ok t → byte = t.byte := by
    intro byte t h
    unfold Tag.ofByte at h
    split at h
    · cases h
    · split at h <;> cases h
      rfl
  simp only [readTag, bind_eq_ok_iff, Prod.exists, readByte_eq_ok_iff]
  constructor
  · rintro ⟨byte, w₁, hw, h⟩
    split at h
    · next t ht =>
      simp only [pure_eq_ok, Except.ok.injEq, Prod.mk.injEq] at h
      obtain ⟨rfl, rfl⟩ := h
      rw [← hbyte ht]
      exact ⟨ht, hw⟩
    · cases h
  · rintro ⟨htag, hw⟩
    refine ⟨tag.byte, w', hw, ?_⟩
    rw [htag]
    rfl

/-- The first byte of a length tells its form, and in the long form how many bytes follow. -/
theorem readLength_of_advances {w w' : Window} (tag : Tag) {n : Nat} (hmax : n ≤ maxLength)
    (hw : w.Advances (encodeLength n) w') : w.readLength tag = .ok (n, w') := by
  by_cases hshort : n < 0x80
  · rw [encodeLength, if_pos hshort] at hw
    have hnat : (UInt8.ofNat n).toNat = n :=
      UInt8.toNat_ofNat_of_lt' (by rw [UInt8.size]; omega)
    rw [readLength, readByte_eq_ok_iff.mpr hw, ok_bind]
    dsimp only
    rw [if_pos (by rw [UInt8.lt_iff_toNat_lt, hnat]; exact hshort), hnat]
    rfl
  · have hencode : encodeLength n =
        UInt8.ofNat (0x80 + byteLength n) :: bytesOfNat (byteLength n) n := by
      rw [encodeLength, if_neg hshort]
    have hlength := byteLength_le_four hmax
    have hpos : 0 < byteLength n := by
      rw [byteLength, if_neg (by omega)]
      omega
    have hnat : (UInt8.ofNat (0x80 + byteLength n)).toNat = 0x80 + byteLength n :=
      UInt8.toNat_ofNat_of_lt' (by rw [UInt8.size]; omega)
    rw [hencode] at hw
    obtain ⟨w₁, hbyte, hdigits⟩ := advances_cons_iff.mp hw
    have hread : w₁.readBytes (0x80 + byteLength n - 0x80) =
        .ok (bytesOfNat (byteLength n) n, w') :=
      readBytes_eq_ok_iff.mpr ⟨by rw [length_bytesOfNat]; omega, hdigits⟩
    rw [readLength, readByte_eq_ok_iff.mpr hbyte, ok_bind]
    dsimp only
    rw [if_neg, if_neg, if_neg, hnat, hread, ok_bind]
    · dsimp only
      rw [natOfBytes_bytesOfNat_byteLength, if_neg (by omega), if_pos hencode]
      rfl
    all_goals
      simp only [UInt8.lt_iff_toNat_lt, ← UInt8.toNat_inj, hnat, UInt8.reduceToNat]
      omega

/-- A length is read from its shortest encoding only, and up to the maximum. -/
theorem readLength_eq_ok_iff {w w' : Window} {tag : Tag} {n : Nat} :
    w.readLength tag = .ok (n, w') ↔ n ≤ maxLength ∧ w.Advances (encodeLength n) w' := by
  constructor
  · intro h
    simp only [readLength, bind_eq_ok_iff, Prod.exists, readByte_eq_ok_iff] at h
    obtain ⟨byte, w₁, hbyte, h⟩ := h
    split at h
    · next hshort =>
      cases h
      have hlt : byte.toNat < 0x80 := UInt8.lt_iff_toNat_lt.mp hshort
      have hencode : encodeLength byte.toNat = [byte] := by
        rw [encodeLength, if_pos hlt, UInt8.ofNat_toNat]
      rw [hencode]
      exact ⟨by rw [maxLength]; omega, hbyte⟩
    · split at h
      · cases h
      · split at h
        · cases h
        · simp only [bind_eq_ok_iff, Prod.exists, readBytes_eq_ok_iff] at h
          obtain ⟨digits, w₂, ⟨-, hdigits⟩, h⟩ := h
          split at h
          · cases h
          · split at h
            · next hmax hencode =>
              cases h
              rw [hencode]
              exact ⟨by omega, advances_cons_iff.mpr ⟨w₁, hbyte, hdigits⟩⟩
            · cases h
  · rintro ⟨hmax, hw⟩
    exact readLength_of_advances tag hmax hw

theorem readHeader_eq_ok_iff {w w' : Window} {tag : Tag} {n : Nat} :
    w.readHeader = .ok (tag, n, w') ↔
      Tag.ofByte tag.byte = .ok tag ∧ n ≤ maxLength ∧
        w.Advances (tag.byte :: encodeLength n) w' := by
  simp only [readHeader, bind_eq_ok_iff, Prod.exists, readTag_eq_ok_iff, readLength_eq_ok_iff,
    pure_eq_ok, Except.ok.injEq, Prod.mk.injEq]
  constructor
  · rintro ⟨_, w₁, ⟨htag, hw⟩, _, _, ⟨hmax, hw₁⟩, rfl, rfl, rfl⟩
    exact ⟨htag, hmax, advances_cons_iff.mpr ⟨w₁, hw, hw₁⟩⟩
  · rintro ⟨htag, hmax, h⟩
    obtain ⟨w₁, hw, hw₁⟩ := advances_cons_iff.mp h
    exact ⟨tag, w₁, ⟨htag, hw⟩, n, w', ⟨hmax, hw₁⟩, rfl, rfl, rfl⟩

/-- The header of a tag is read where that tag stands; looking at the tag before it is read
refuses nothing more. -/
theorem readHeaderOf_eq_ok_iff {w w' : Window} {tag : Tag} {n : Nat}
    (htag : Tag.ofByte tag.byte = .ok tag) :
    w.readHeaderOf tag = .ok (n, w') ↔
      n ≤ maxLength ∧ w.Advances (tag.byte :: encodeLength n) w' := by
  simp only [readHeaderOf, bind_eq_ok_iff, Prod.exists, readHeader_eq_ok_iff]
  constructor
  · rintro ⟨t, m, w₁, ⟨-, hmax, hw⟩, h⟩
    split at h
    · next ht =>
      cases h
      rw [← ht]
      exact ⟨hmax, hw⟩
    · cases h
  · rintro ⟨hmax, hw⟩
    refine ⟨tag, n, w', ⟨htag, hmax, hw⟩, ?_⟩
    rw [if_pos rfl]
    rfl

/-- A value is its header and then its contents. -/
theorem advances_encodeValue_iff {w w' : Window} {tag : Tag} {contents : List UInt8} :
    w.Advances (encodeValue tag contents) w' ↔
      ∃ w₁, w.Advances (tag.byte :: encodeLength contents.length) w₁ ∧ w₁.Advances contents w' := by
  rw [encodeValue, advances_append_iff]

/-! ## Values -/

/-- Bytes are the shortest that leave the sign bit clear if the first one does and
the second one, were it the first, would not. -/
theorem length_eq_integerLength_iff {b : UInt8} {bs : List UInt8} :
    (b :: bs).length = bitLength (natOfBytes (b :: bs)) / 8 + 1 ↔
      b < 0x80 ∧ ∀ b' ∈ bs.head?, ¬ (b = 0 ∧ b' < 0x80) := by
  have hupper : bitLength (natOfBytes (b :: bs)) ≤ 8 * bs.length + 7 ↔ b < 0x80 :=
    bitLength_natOfBytes_cons_le_iff
  rw [List.length_cons, ← hupper]
  cases bs with
  | nil =>
      simp only [List.length_nil, List.head?_nil, Option.not_mem_none, IsEmpty.forall_iff,
        implies_true, and_true]
      omega
  | cons b' bs =>
      have hlower : bitLength (natOfBytes (b :: b' :: bs)) ≤ 8 * bs.length + 7 ↔
          b = 0 ∧ b' < 0x80 := by
        by_cases hb : b = 0
        · rw [hb, natOfBytes_zero_cons, bitLength_natOfBytes_cons_le_iff]
          simp only [true_and]
        · have hpos : ¬ b.toNat < 1 := by
            rw [← UInt8.toNat_inj] at hb
            simp only [UInt8.toNat_zero] at hb
            omega
          have hle : ¬ bitLength (natOfBytes (b :: b' :: bs)) ≤ 8 * (bs.length + 1) := by
            rw [bitLength_le_iff, Nat.pow_mul, ← Nat.one_mul ((2 ^ 8) ^ _)]
            exact mt natOfBytes_cons_lt_iff.mp hpos
          simp only [hb, false_and, iff_false]
          omega
      simp only [List.length_cons, List.head?_cons, Option.mem_some_iff, forall_eq', ← hlower]
      omega

/-- What is read from the contents of an integer is their number, if they are the
shortest for it. -/
theorem readInteger_of_contents {w w₁ w₂ w' : Window} {contents : List UInt8} {n : Nat}
    (hheader : w.readHeaderOf .integer = .ok (contents.length, w₁))
    (hcontents : w₁.Advances contents w₂) :
    w.readInteger = .ok (n, w') ↔
      n = natOfBytes contents ∧ w' = w₂ ∧
        contents.length = bitLength (natOfBytes contents) / 8 + 1 := by
  rw [readInteger, hheader, ok_bind]
  dsimp only
  rw [read_eq_ok_iff.mpr ⟨rfl, hcontents⟩, ok_bind]
  cases contents with
  | nil => simp
  | cons b bs =>
      rw [length_eq_integerLength_iff]
      cases bs with
      | nil =>
          have hb : b.toNat = natOfBytes [b] := by simp [natOfBytes_cons]
          dsimp only
          rw [hb]
          split <;> simp [*, eq_comm]
      | cons b' bs =>
          simp only [List.head?_cons, Option.mem_some_iff, forall_eq']
          by_cases hredundant : b = 0 ∧ b' < 0x80
          · rw [if_pos hredundant]
            simp only [hredundant, reduceCtorEq, and_self, not_true_eq_false, and_false]
          · rw [if_neg hredundant]
            split <;> simp [*, eq_comm]

/-- **Integers**: a natural number is read from its one encoding, with a zero before a first bit
that is set and no other zeros in front. -/
theorem readInteger_eq_ok_iff {w w' : Window} {n : Nat} :
    w.readInteger = .ok (n, w') ↔
      bitLength n / 8 + 1 ≤ maxLength ∧ w.Advances (encodeInteger n) w' := by
  rw [encodeInteger, advances_encodeValue_iff, length_bytesOfNat]
  constructor
  · intro h
    have hread := h
    simp only [readInteger, bind_eq_ok_iff, Prod.exists, read_eq_ok_iff] at hread
    obtain ⟨_, w₁, hheader, contents, w₂, ⟨rfl, hcontents⟩, -⟩ := hread
    obtain ⟨rfl, rfl, hlength⟩ := (readInteger_of_contents hheader hcontents).mp h
    obtain ⟨hmax, hw⟩ := (readHeaderOf_eq_ok_iff rfl).mp hheader
    rw [← hlength, bytesOfNat_natOfBytes]
    exact ⟨hmax, w₁, hw, hcontents⟩
  · rintro ⟨hmax, w₁, hw, hcontents⟩
    have hheader : w.readHeaderOf .integer = .ok (bitLength n / 8 + 1, w₁) :=
      (readHeaderOf_eq_ok_iff rfl).mpr ⟨hmax, hw⟩
    rw [← length_bytesOfNat (bitLength n / 8 + 1) n] at hheader
    rw [readInteger_of_contents hheader hcontents, natOfBytes_bytesOfNat_integerLength,
      length_bytesOfNat]
    exact ⟨rfl, rfl, rfl⟩

/-- **Object identifiers**: the contents are of a limited length and in the form of an
identifier. -/
theorem readIdentifier_eq_ok_iff {w w' : Window} {contents : List UInt8} :
    w.readIdentifier = .ok (contents, w') ↔
      contents.length ≤ maxIdentifierLength ∧ isIdentifier contents = true ∧
        w.Advances (encodeIdentifier contents) w' := by
  have hheader {n : Nat} {w₁ : Window} :
      w.readHeaderOf .objectIdentifier = .ok (n, w₁) ↔ _ := readHeaderOf_eq_ok_iff rfl
  rw [encodeIdentifier, advances_encodeValue_iff]
  simp only [readIdentifier, bind_eq_ok_iff, Prod.exists, hheader]
  constructor
  · rintro ⟨n, w₁, ⟨-, hw⟩, h⟩
    split at h
    · cases h
    · next hshort =>
      simp only [bind_eq_ok_iff, Prod.exists, read_eq_ok_iff] at h
      obtain ⟨bytes, w₂, ⟨rfl, hbytes⟩, h⟩ := h
      split at h
      · next hid =>
        cases h
        exact ⟨by omega, hid, w₁, hw, hbytes⟩
      · cases h
  · rintro ⟨hshort, hid, w₁, hw, hbytes⟩
    refine ⟨contents.length, w₁, ⟨?_, hw⟩, ?_⟩
    · rw [maxIdentifierLength] at hshort
      rw [maxLength]
      omega
    · rw [if_neg (by omega), read_eq_ok_iff.mpr ⟨rfl, hbytes⟩, ok_bind]
      dsimp only
      rw [if_pos hid]
      rfl

/-- **Bit strings**: at most seven bits of the last byte are unused, and none where there is no
byte. -/
theorem readBitString_eq_ok_iff {w w' : Window} {unused : UInt8} {bytes : List UInt8} :
    w.readBitString = .ok ((unused, bytes), w') ↔
      ¬ (7 < unused ∨ unused ≠ 0 ∧ bytes = []) ∧ bytes.length + 1 ≤ maxLength ∧
        w.Advances (encodeValue .bitString (unused :: bytes)) w' := by
  have hheader {n : Nat} {w₁ : Window} :
      w.readHeaderOf .bitString = .ok (n, w₁) ↔ _ := readHeaderOf_eq_ok_iff rfl
  rw [advances_encodeValue_iff, List.length_cons]
  simp only [readBitString, bind_eq_ok_iff, Prod.exists, hheader]
  constructor
  · rintro ⟨n, w₁, ⟨hmax, hw⟩, h⟩
    split at h
    · cases h
    · next hpos =>
      simp only [bind_eq_ok_iff, Prod.exists, readByte_eq_ok_iff, read_eq_ok_iff] at h
      obtain ⟨u, w₂, hu, bs, w₃, ⟨hlength, hbs⟩, h⟩ := h
      split at h
      · cases h
      · next hvalid =>
        cases h
        have hn : n = bytes.length + 1 := by omega
        rw [hn] at hmax hw
        exact ⟨hvalid, hmax, w₁, hw, advances_cons_iff.mpr ⟨w₂, hu, hbs⟩⟩
  · rintro ⟨hvalid, hmax, w₁, hw, hcontents⟩
    obtain ⟨w₂, hu, hbs⟩ := advances_cons_iff.mp hcontents
    refine ⟨bytes.length + 1, w₁, ⟨hmax, hw⟩, ?_⟩
    rw [if_neg (Nat.succ_ne_zero _), readByte_eq_ok_iff.mpr hu, ok_bind]
    dsimp only
    rw [read_eq_ok_iff.mpr ⟨(Nat.add_sub_cancel _ _).symm, hbs⟩, ok_bind]
    dsimp only
    rw [if_neg hvalid]
    rfl

/-- An optional value is missing at the end of the window only. -/
theorem readOptional_eq_ok_none_iff {w w' : Window} :
    w.readOptional = .ok (none, w') ↔ w.rest = [] ∧ w' = w := by
  rw [readOptional]
  split
  · next hrest =>
    simp [hrest, eq_comm]
  · next hrest =>
    split <;> simp [hrest, bind_eq_ok_iff]

/-- An optional value is read whole, whatever its tag. The tag is looked at before it is read,
which refuses nothing more. -/
theorem readOptional_eq_ok_some_iff {w w' : Window} {tag : Tag} {contents : List UInt8} :
    w.readOptional = .ok (some (tag, contents), w') ↔
      Tag.ofByte tag.byte = .ok tag ∧ contents.length ≤ maxLength ∧
        w.Advances (encodeValue tag contents) w' := by
  have hpeek : ∀ b bs, w.rest = b :: bs → Tag.ofByte tag.byte = .ok tag →
      w.Advances (encodeValue tag contents) w' → Tag.ofByte b = .ok tag := by
    intro b bs hrest htag hw
    have h := hw.rest_eq
    rw [hrest, encodeValue, List.cons_append, List.cons_append] at h
    rw [(List.cons.inj h).1]
    exact htag
  rw [readOptional]
  split
  · next hrest =>
    simp only [Except.ok.injEq, Prod.mk.injEq, reduceCtorEq, false_and, false_iff, not_and]
    intro _ _ hw
    have h := hw.rest_eq
    rw [hrest] at h
    cases h
  · next b bs hrest =>
    split
    · next hbad =>
      simp only [reduceCtorEq, false_iff, not_and]
      intro htag _ hw
      rw [hpeek b bs hrest htag hw] at hbad
      cases hbad
    · simp only [bind_eq_ok_iff, Prod.exists, readHeader_eq_ok_iff, read_eq_ok_iff,
        advances_encodeValue_iff]
      constructor
      · rintro ⟨t, n, w₁, ⟨htag, hmax, hw⟩, bytes, w₂, ⟨rfl, hbytes⟩, h⟩
        cases h
        exact ⟨htag, hmax, w₁, hw, hbytes⟩
      · rintro ⟨htag, hmax, w₁, hw, hbytes⟩
        exact ⟨tag, _, w₁, ⟨htag, hmax, hw⟩, contents, w', ⟨rfl, hbytes⟩, rfl⟩

/-! ## Structures -/

/-- The reader takes the contents that `P` relates to a value, and no others,
wherever in a document they stand. -/
def ReadsWhole (read : Window → Except Fault (α × Window)) (P : α → List UInt8 → Prop) : Prop :=
  ∀ start contents value,
    (∃ inner, read ⟨start, start, contents⟩ = .ok (value, inner) ∧ inner.rest = []) ↔
      P value contents

/-- A window is left empty by the whole of its contents. -/
theorem exists_advances_whole_iff {start : Nat} {contents bs : List UInt8} :
    (∃ inner, (⟨start, start, contents⟩ : Window).Advances bs inner ∧ inner.rest = []) ↔
      contents = bs := by
  constructor
  · rintro ⟨inner, hw, hend⟩
    have h := hw.rest_eq
    rwa [hend, List.append_nil] at h
  · rintro rfl
    exact ⟨⟨start, start + contents.length, []⟩, ⟨rfl, rfl, (List.append_nil _).symm⟩, rfl⟩

/-- **Sequences**: the contents are read to their end by the reader of the fields. -/
theorem readSequence_eq_ok_iff {w w' : Window} {read : Window → Except Fault (α × Window)}
    {P : α → List UInt8 → Prop} (hread : ReadsWhole read P) {value : α} :
    w.readSequence read = .ok (value, w') ↔
      ∃ contents, P value contents ∧ contents.length ≤ maxLength ∧
        w.Advances (encodeValue .sequence contents) w' := by
  have hheader {n : Nat} {w₁ : Window} : w.readHeaderOf .sequence = .ok (n, w₁) ↔ _ :=
    readHeaderOf_eq_ok_iff rfl
  simp only [readSequence, bind_eq_ok_iff, Prod.exists, hheader, nested_eq_ok_iff,
    advances_encodeValue_iff]
  constructor
  · rintro ⟨_, w₁, ⟨hmax, hw⟩, contents, inner, rfl, hcontents, hvalue⟩
    exact ⟨contents, (hread _ _ _).mp ⟨inner, hvalue⟩, hmax, w₁, hw, hcontents⟩
  · rintro ⟨contents, hvalue, hmax, w₁, hw, hcontents⟩
    obtain ⟨inner, hvalue⟩ := (hread w₁.offset _ _).mpr hvalue
    exact ⟨_, w₁, ⟨hmax, hw⟩, contents, inner, rfl, hcontents, hvalue⟩

end Window

open Window

/-! ## Contents -/

/-- A header tells where its contents end, so a value has one contents. -/
theorem eq_of_encodeValue_eq {tag : Tag} {contents contents' : List UInt8}
    (hmax : contents.length ≤ maxLength) (hmax' : contents'.length ≤ maxLength)
    (h : encodeValue tag contents = encodeValue tag contents') : contents = contents' := by
  rw [encodeValue, encodeValue, List.cons_append, List.cons_append] at h
  have hbytes := (List.cons.inj h).2
  have hadvances (bs : List UInt8) : (ofBytes (encodeLength bs.length ++ bs)).Advances
      (encodeLength bs.length) ⟨0, 0 + (encodeLength bs.length).length, bs⟩ := ⟨rfl, rfl, rfl⟩
  have hread := readLength_of_advances tag hmax (hadvances contents)
  have hread' := readLength_of_advances tag hmax' (hadvances contents')
  rw [hbytes, hread', Except.ok.injEq, Prod.mk.injEq, Window.mk.injEq] at hread
  exact hread.2.2.2.symm

/-! ## Documents -/

/-- **Documents**: all the bytes are one sequence, whose contents the fields make up. -/
theorem readDocument_eq_ok_iff {bs : List UInt8} {read : Window → Except Fault (α × Window)}
    {P : α → List UInt8 → Prop} (hread : ReadsWhole read P) {value : α} :
    readDocument bs read = .ok value ↔
      ∃ contents, P value contents ∧ contents.length ≤ maxLength ∧
        bs = encodeValue .sequence contents := by
  simp only [readDocument, bind_eq_ok_iff, Prod.exists, readSequence_eq_ok_iff hread,
    finish_eq_ok_iff, pure_eq_ok, Except.ok.injEq]
  constructor
  · rintro ⟨_, w, ⟨contents, hvalue, hmax, hw⟩, -, hend, rfl⟩
    exact ⟨contents, hvalue, hmax, exists_advances_whole_iff.mp ⟨w, hw, hend⟩⟩
  · rintro ⟨contents, hvalue, hmax, h⟩
    obtain ⟨w, hw, hend⟩ : ∃ w, (ofBytes bs).Advances (encodeValue .sequence contents) w ∧
        w.rest = [] := exists_advances_whole_iff.mpr h
    exact ⟨value, w, ⟨contents, hvalue, hmax, hw⟩, (), hend, rfl⟩

/-- A document is one sequence, whatever the sequence holds. -/
theorem checkDocument_eq_ok_iff {bs : List UInt8} :
    checkDocument bs = .ok () ↔
      ∃ contents, contents.length ≤ maxLength ∧ bs = encodeValue .sequence contents := by
  have hheader {w w₁ : Window} {n : Nat} : w.readHeaderOf .sequence = .ok (n, w₁) ↔ _ :=
    readHeaderOf_eq_ok_iff rfl
  simp only [checkDocument, bind_eq_ok_iff, Prod.exists, hheader, read_eq_ok_iff,
    finish_eq_ok_iff]
  constructor
  · rintro ⟨n, body, ⟨hmax, hbody⟩, bytes, w, ⟨hlength, hw⟩, hend⟩
    have hbytes : bs = bytes := exists_advances_whole_iff.mp ⟨w, hw, hend⟩
    have hrest : bs = (Tag.sequence.byte :: encodeLength n) ++ body.rest := hbody.rest_eq
    have hn : body.rest.length = n := by
      have htotal := congrArg List.length hrest
      rw [List.length_append] at htotal
      rw [← hbytes, hbody.offset_eq] at hlength
      simp only [ofBytes] at hlength
      omega
    refine ⟨body.rest, by rw [hn]; exact hmax, ?_⟩
    rw [encodeValue, hn]
    exact hrest
  · rintro ⟨contents, hmax, h⟩
    obtain ⟨w, hw, hend⟩ : ∃ w, (ofBytes bs).Advances (encodeValue .sequence contents) w ∧
        w.rest = [] := exists_advances_whole_iff.mpr h
    obtain ⟨body, hbody, -⟩ := advances_encodeValue_iff.mp hw
    refine ⟨contents.length, body, ⟨hmax, hbody⟩, _, w, ⟨?_, hw⟩, hend⟩
    rw [hbody.offset_eq, encodeValue, List.length_append, ofBytes, Nat.zero_add]

end Sidecar.Der
