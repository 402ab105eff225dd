import Sidecar.Proofs.KeyResource

/-!
# Sidecar.Proofs.KeyResource.Encodings

The two encodings of a key exclude each other, twice over: a PEM text has one label
(`ofInfoText_ofNumbersText`), and no document is one of both encodings
(`decodeInfo_decodeNumbers`). So it does not matter which of them is tried first but for
the fault of a text that is in neither, which is that of the first reading
(`encodings_unambiguous`).
-/

namespace Sidecar

namespace PublicKey

open Der

variable {key key' : PublicKey} {text : List Char}

/-! ## Documents -/

/-- Behind its header one document begins with a sequence, the other with a number. -/
theorem encodeInfo_ne_encodeNumbers (h : key.Admitted) (h' : key'.Admitted) :
    key.encodeInfo ≠ key'.encodeNumbers := by
  intro heq
  have hlength := length_infoContents_le h
  have hlength' := length_numbersContents_le h'
  have hmax : maxLength = 0xFFFFFFF := rfl
  rw [encodeInfo_eq, encodeNumbers_eq key'] at heq
  have hcontents := eq_of_encodeValue_eq (by omega) (by omega) heq
  have hfirst : Tag.sequence.byte = Tag.integer.byte := (List.cons.inj hcontents).1
  exact absurd hfirst (by decide)

/-- No document is read in both encodings. -/
theorem decodeInfo_decodeNumbers {bs : List UInt8} (h : decodeInfo bs = .ok key) :
    decodeNumbers bs ≠ .ok key' := by
  intro h'
  obtain ⟨hadmitted, rfl⟩ := decodeInfo_eq_ok_iff.mp h
  obtain ⟨hadmitted', heq⟩ := decodeNumbers_eq_ok_iff.mp h'
  exact encodeInfo_ne_encodeNumbers hadmitted hadmitted' heq

/-! ## Texts -/

/-- A text in the first encoding is a PEM with its label, around its document. -/
theorem of_ofInfoText {pem : Pem} (hpem : Pem.decode text = .ok pem)
    (h : ofInfoText text = .ok key) :
    pem.label = infoLabel.toList ∧ decodeInfo pem.payload = .ok key := by
  obtain ⟨hadmitted, htext⟩ := ofInfoText_eq_ok_iff.mp h
  rw [hpem, Except.ok.injEq] at htext
  rw [htext]
  exact ⟨rfl, decodeInfo_eq_ok_iff.mpr ⟨hadmitted, rfl⟩⟩

/-- So is one in the second. -/
theorem of_ofNumbersText {pem : Pem} (hpem : Pem.decode text = .ok pem)
    (h : ofNumbersText text = .ok key) :
    pem.label = numbersLabel.toList ∧ decodeNumbers pem.payload = .ok key := by
  obtain ⟨hadmitted, htext⟩ := ofNumbersText_eq_ok_iff.mp h
  rw [hpem, Except.ok.injEq] at htext
  rw [htext]
  exact ⟨rfl, decodeNumbers_eq_ok_iff.mpr ⟨hadmitted, rfl⟩⟩

theorem infoLabel_ne_numbersLabel : infoLabel.toList ≠ numbersLabel.toList := by decide

/-- No text is read in both encodings. -/
theorem ofInfoText_ofNumbersText (h : ofInfoText text = .ok key) :
    ofNumbersText text ≠ .ok key' := by
  intro h'
  have hpem := (ofInfoText_eq_ok_iff.mp h).2
  exact infoLabel_ne_numbersLabel (of_ofNumbersText hpem h').1

/-- A PEM whose payload is a key's document, under the label of the other encoding. -/
def Crossed (pem : Pem) : Prop :=
  (pem.label = infoLabel.toList ∧ ∃ key, decodeNumbers pem.payload = .ok key) ∨
    (pem.label = numbersLabel.toList ∧ ∃ key, decodeInfo pem.payload = .ok key)

/-- A document under the label of the other encoding is read in neither. -/
theorem exists_faults_of_crossed {pem : Pem} (hpem : Pem.decode text = .ok pem)
    (h : Crossed pem) :
    (∃ fault, ofInfoText text = .error fault) ∧ ∃ fault, ofNumbersText text = .error fault := by
  constructor
  · by_contra hfault
    obtain ⟨key, hkey⟩ := exists_eq_ok_iff.mpr hfault
    obtain ⟨hinfo, hdocument⟩ := of_ofInfoText hpem hkey
    obtain ⟨-, key', hdocument'⟩ | ⟨hnumbers, -⟩ := h
    · exact decodeInfo_decodeNumbers hdocument hdocument'
    · exact infoLabel_ne_numbersLabel (hinfo.symm.trans hnumbers)
  · by_contra hfault
    obtain ⟨key, hkey⟩ := exists_eq_ok_iff.mpr hfault
    obtain ⟨hnumbers, hdocument⟩ := of_ofNumbersText hpem hkey
    obtain ⟨hinfo, -⟩ | ⟨-, key', hdocument'⟩ := h
    · exact infoLabel_ne_numbersLabel (hinfo.symm.trans hnumbers)
    · exact decodeInfo_decodeNumbers hdocument' hdocument

/-! ## Two readings, one after the other -/

/-- Tries a reading and then another; if both fail, the fault is that of the first. -/
def readEither (first second : List Char → Except KeyFault PublicKey) (text : List Char) :
    Except KeyFault PublicKey :=
  match first text with
  | .ok key => .ok key
  | .error fault => (second text).mapError fun _ => fault

/-- The readers of the two encodings are tried in the order SPKI, PKCS #1. -/
theorem ofText_eq_readEither : ofText = readEither ofInfoText ofNumbersText := rfl

section

variable {first second : List Char → Except KeyFault PublicKey}

/-- What the first reader takes is not shown to the second. -/
theorem readEither_of_ok (h : first text = .ok key) : readEither first second text = .ok key := by
  rw [readEither, h]

/-- What it refuses is up to the second; the error stays that of the first. -/
theorem readEither_of_error {fault : KeyFault} (h : first text = .error fault) :
    readEither first second text = (second text).mapError fun _ => fault := by
  rw [readEither, h]

/-- Readings that exclude each other can be tried in either order, if one of them
succeeds. -/
theorem readEither_comm
    (hexclude : ∀ key key', first text = .ok key → second text ≠ .ok key')
    (h : ∃ key, first text = .ok key ∨ second text = .ok key) :
    readEither first second text = readEither second first text := by
  obtain ⟨key, hfirst | hsecond⟩ := h
  · cases hsecond : second text with
    | ok key' => exact absurd hsecond (hexclude key key' hfirst)
    | error fault => rw [readEither_of_ok hfirst, readEither_of_error hsecond, hfirst, mapError_ok]
  · cases hfirst : first text with
    | ok key' => exact absurd hsecond (hexclude key' key hfirst)
    | error fault => rw [readEither_of_error hfirst, readEither_of_ok hsecond, hsecond, mapError_ok]

theorem exists_of_readEither (h : readEither first second text = .ok key) :
    first text = .ok key ∨ second text = .ok key := by
  rw [readEither] at h
  split at h
  · next hfirst => exact Or.inl (hfirst.trans h)
  · exact Or.inr (mapError_eq_ok_iff.mp h)

end

end PublicKey

namespace KeyResource

open Text PublicKey

variable {r : KeyResource} {text : List Char}

/-! ## Resources -/

/-- The key that the bytes spell where texts are read by `read`, if its signatures have
the supported length. -/
def materializeBy (read : List Char → Except KeyFault PublicKey) (r : KeyResource) :
    Except Failure PublicKey :=
  if r.bytes = [] then .error (.keyUnreadable Fault.empty.message)
  else
    match Utf8.decode r.bytes with
    | .error fault => .error (.keyUnreadable (Fault.encoding fault).message)
    | .ok text => ofReading (read (trim text))

/-- A resource that is UTF-8 text is left to the reader, without the blanks around it. -/
theorem materializeBy_of_decode {read : List Char → Except KeyFault PublicKey}
    (hne : r.bytes ≠ []) (htext : Utf8.decode r.bytes = .ok text) :
    r.materializeBy read = ofReading (read (trim text)) := by
  rw [materializeBy, if_neg hne, htext]

theorem materialize_eq_materializeBy (r : KeyResource) :
    r.materialize = r.materializeBy PublicKey.ofText := by
  by_cases hempty : r.bytes = []
  · rw [materialize, parse, materializeBy, if_pos hempty, if_pos hempty]
  · cases hdecode : Utf8.decode r.bytes with
    | error fault =>
        rw [materialize, parse, materializeBy, if_neg hempty, if_neg hempty, hdecode]
    | ok text =>
        rw [materialize_of_decode hempty hdecode, materializeBy_of_decode hempty hdecode]

/-- A text with a key in either encoding is taken the same in both orders. -/
theorem materializeBy_comm (hne : r.bytes ≠ []) (htext : Utf8.decode r.bytes = .ok text)
    (h : ∃ key, ofInfoText (trim text) = .ok key ∨ ofNumbersText (trim text) = .ok key) :
    r.materializeBy (readEither ofNumbersText ofInfoText) = r.materialize := by
  rw [materialize_of_decode hne htext, materializeBy_of_decode hne htext, ofText_eq_readEither,
    readEither_comm (fun _ _ => ofInfoText_ofNumbersText) h]

/-- **Two encodings, one reading**: a key's text is in one encoding at most, whatever
stands before the PEM or else in it, and in neither if it holds a document under the
label of the other encoding. So the same texts are taken for the same keys if the
encodings are tried in the other order. A text in neither is unreadable for the reason
that the SubjectPublicKeyInfo reading gives, and one in the second is never unreadable. -/
theorem encodings_unambiguous (hne : r.bytes ≠ []) (htext : Utf8.decode r.bytes = .ok text) :
    let trimmed := trim text
    let swapped := r.materializeBy (readEither ofNumbersText ofInfoText)
    r.materialize = r.materializeBy (readEither ofInfoText ofNumbersText) ∧
    (∀ key key', ¬ (ofInfoText trimmed = .ok key ∧ ofNumbersText trimmed = .ok key')) ∧
    (∀ pem, Pem.decode trimmed = .ok pem → Crossed pem →
      (∃ fault, ofInfoText trimmed = .error fault) ∧
        ∃ fault, ofNumbersText trimmed = .error fault) ∧
    (∀ key, swapped = .ok key ↔ r.materialize = .ok key) ∧
    ((∃ key, ofInfoText trimmed = .ok key ∨ ofNumbersText trimmed = .ok key) →
      swapped = r.materialize) ∧
    (∀ fault fault', ofInfoText trimmed = .error fault → ofNumbersText trimmed = .error fault' →
      r.materialize = .error (.keyUnreadable fault.message) ∧
        swapped = .error (.keyUnreadable fault'.message)) ∧
    ∀ fault key, ofInfoText trimmed = .error fault → ofNumbersText trimmed = .ok key →
      (r.materialize =
        if key.size = 512 then .ok key else .error (.keySize (key.size * 8) 4096)) ∧
      ∀ reason, r.materialize ≠ .error (.keyUnreadable reason) := by
  intro trimmed swapped
  have hread : r.materialize = ofReading (readEither ofInfoText ofNumbersText trimmed) :=
    materialize_of_decode hne htext
  have hswapped : swapped = ofReading (readEither ofNumbersText ofInfoText trimmed) :=
    materializeBy_of_decode hne htext
  have hcomm : (∃ key, ofInfoText trimmed = .ok key ∨ ofNumbersText trimmed = .ok key) →
      swapped = r.materialize := materializeBy_comm hne htext
  refine ⟨r.materialize_eq_materializeBy, ?_, fun _ => exists_faults_of_crossed, ?_, hcomm, ?_, ?_⟩
  · intro key key' ⟨hinfo, hnumbers⟩
    exact ofInfoText_ofNumbersText hinfo hnumbers
  · intro key
    constructor
    · intro hkey
      have hreading := (ofReading_eq_ok_iff.mp (hswapped ▸ hkey)).1
      rw [← hcomm ⟨key, (exists_of_readEither hreading).symm⟩, hkey]
    · intro hkey
      have hreading := (ofReading_eq_ok_iff.mp (hread ▸ hkey)).1
      rw [hcomm ⟨key, exists_of_readEither hreading⟩, hkey]
  · intro fault fault' hinfo hnumbers
    rw [hread, hswapped, readEither_of_error hinfo, readEither_of_error hnumbers, hinfo, hnumbers]
    exact ⟨rfl, rfl⟩
  · intro fault key hinfo hnumbers
    have hkey : r.materialize =
        if key.size = 512 then .ok key else .error (.keySize (key.size * 8) 4096) := by
      rw [hread, readEither_of_error hinfo, hnumbers]
      rfl
    refine ⟨hkey, fun reason => ?_⟩
    rw [hkey]
    split <;> simp

/-- The largest key in its PKCS #1 encoding, behind a line that names it. -/
def named : List Char := "signing key\n".toList ++ largestKey.toNumbersText

theorem encodings_unambiguous_named :
    (ofText named).materialize = .ok largestKey ∧
      (ofText named).materializeBy (readEither ofNumbersText ofInfoText) = .ok largestKey := by
  have hkey : (ofText named).materialize = .ok largestKey := by decide +kernel
  have hnamed := @encodings_unambiguous (ofText named) named (by decide +kernel)
    (Utf8.decode_eq_ok_iff.mpr rfl)
  exact ⟨hkey, (hnamed.2.2.2.1 largestKey).mpr hkey⟩

end KeyResource

end Sidecar
