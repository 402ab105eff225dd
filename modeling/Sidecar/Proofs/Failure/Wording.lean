import Sidecar.Proofs.Bytes
import Sidecar.Proofs.IoFailure

/-!
# Sidecar.Proofs.Failure.Wording

What a message can hold beside a path. The texts of the program's own, and those of the
system that a tree of files can give, are `Inert`: they stand on one line, and what ends with
them does not end as the line of a passing file. So the message of a check is inert, or it is
two inert texts with a path between them, in brackets (`wording_message`).
-/

namespace Sidecar

/-! ## Inert texts -/

/-- Whether a text stands on one line and ends with another letter than the line of a
passing file. -/
def Inert (text : String) : Prop := '\n' ∉ text.toList ∧ text.toList.getLast? ≠ some 'k'

instance (text : String) : Decidable (Inert text) := inferInstanceAs (Decidable (_ ∧ _))

/-- Inert texts stay inert when they are joined. -/
theorem Inert.append {front back : String} (hfront : Inert front) (hback : Inert back) :
    Inert (front ++ back) := by
  constructor
  · simp [String.toList_append, hfront.1, hback.1]
  · rw [String.toList_append, List.getLast?_append]
    cases hlast : back.toList.getLast? with
    | none => simpa using hfront.2
    | some c => simpa [hlast] using hback.2

/-- A text without line feeds and without the letter `k` is inert. -/
theorem inert_of_forall {text : String} (h : ∀ c ∈ text.toList, c ≠ '\n' ∧ c ≠ 'k') :
    Inert text :=
  ⟨fun hmem => (h _ hmem).1 rfl, fun hlast => (h _ (List.mem_of_getLast? hlast)).2 rfl⟩

/-- Numerals are inert. -/
theorem inert_toString (n : Nat) : Inert (toString n) := by
  apply inert_of_forall
  intro c hc
  rw [Nat.toString_eq_ofList_toDigits, String.toList_ofList] at hc
  have hdigit := Nat.isDigit_of_mem_toDigits (by decide) (by decide) hc
  constructor
  · rintro rfl
    exact absurd hdigit (by decide)
  · rintro rfl
    exact absurd hdigit (by decide)

theorem Inert.append_number {front back : String} (hfront : Inert front) (n : Nat)
    (hback : Inert back) : Inert (front ++ toString n ++ back) :=
  (hfront.append (inert_toString n)).append hback

theorem inert_hex (bs : List UInt8) : Inert (hex bs) := by
  have hdigits : (hexDigits.all fun c => decide (c ≠ '\n' ∧ c ≠ 'k')) = true := rfl
  apply inert_of_forall
  intro c hc
  exact of_decide_eq_true (List.all_eq_true.mp hdigits c ((spellsHex_hex bs).subset hc))

/-! ## Faults of keys -/

/-- The names of tags are inert. -/
theorem Der.Tag.inert_name (t : Tag) : Inert t.name := by
  rw [name]
  split
  · next text h =>
      unfold universalName? at h
      split at h <;> cases h <;> decide
  · have hclass : Inert (className t.byte) := by
      rw [className]
      split_ifs <;> decide
    have hform : Inert (if t.byte &&& 0x20 = 0 then "primitive" else "constructed") := by
      split <;> decide
    exact ((Inert.append_number (hclass.append (by decide)) _ (by decide)).append hform).append
      (by decide)

/-- So is what went wrong in a DER document. -/
theorem Der.Cause.inert_message (c : Cause) : Inert c.message := by
  cases c with
  | incomplete expected actual =>
      exact (Inert.append_number (by decide) expected (by decide)).append (inert_toString actual)
  | trailing decoded remaining =>
      exact (Inert.append_number (by decide) decoded (by decide)).append_number remaining (by decide)
  | unknownTag byte => exact Inert.append (by decide) (inert_hex [byte])
  | unexpectedTag expected actual =>
      exact ((Inert.append (by decide) expected.inert_name).append (by decide)).append
        actual.inert_name
  | length tag | value tag => exact Inert.append (by decide) tag.inert_name
  | noncanonical tag => exact (Inert.append (by decide) tag.inert_name).append (by decide)
  | overflow | tagNumber | indefiniteLength | malformedIdentifier => decide

theorem Der.Fault.inert_message (f : Fault) : Inert f.message := by
  rw [message]
  split
  · exact (f.cause.inert_message.append (by decide)).append (inert_toString _)
  · exact f.cause.inert_message

/-! Only the label of another PEM text is a text that is not the reader's own, and the one
reader that gives it knows it. -/

/-- The text between the boundaries is read without regard to labels. -/
theorem Pem.decodeBody_ne_unexpectedLabel (text : List Char) (label : String) :
    decodeBody text ≠ .error (.unexpectedLabel label) := by
  rw [decodeBody]
  repeat' split
  all_goals simp

/-- Reading a PEM text expects no label: what reads it compares the label afterwards. -/
theorem Pem.decode_ne_unexpectedLabel (text : List Char) (label : String) :
    decode text ≠ .error (.unexpectedLabel label) := by
  have hbody := decodeBody_ne_unexpectedLabel
  rw [decode]
  repeat' split
  all_goals grind

/-- A PEM fault is inert if the label it quotes is. -/
theorem Pem.Fault.inert_message {f : Fault} (h : ∀ label, f = .unexpectedLabel label → Inert label) :
    Inert f.message := by
  cases f with
  | unexpectedLabel label => exact (Inert.append (by decide) (h label rfl)).append (by decide)
  | preamble | label | beginBoundary | endBoundary | base64Length | base64Encoding | headers =>
      decide

/-- A fault of a key is inert if the label it quotes is. -/
theorem KeyFault.inert_message {f : KeyFault}
    (h : ∀ label, f = .pem (.unexpectedLabel label) → Inert label) : Inert f.message := by
  cases f with
  | pem fault =>
      have hfault : Inert fault.message := fault.inert_message fun label hlabel =>
        h label (congrArg KeyFault.pem hlabel)
      exact Inert.append (by decide) hfault
  | der fault => exact Inert.append (by decide) fault.inert_message
  | algorithm | parametersMissing | malformed => decide

namespace PublicKey

/-- Reading a PKCS #1 document finds no PEM fault. -/
theorem decodeNumbers_ne_pem (bs : List UInt8) (fault : Pem.Fault) :
    decodeNumbers bs ≠ .error (.pem fault) := by
  rw [decodeNumbers]
  split
  · simp
  · next modulus exponent _ => cases ofNumbers modulus exponent <;> simp

theorem decodeInfo_ne_pem (bs : List UInt8) (fault : Pem.Fault) :
    decodeInfo bs ≠ .error (.pem fault) := by
  have hnumbers := decodeNumbers_ne_pem
  rw [decodeInfo]
  repeat' split
  all_goals simp_all

/-- The label that a fault quotes is the one that was asked for. -/
theorem eq_of_documentOfText {label label' : String} {text : List Char}
    (h : documentOfText label text = .error (.pem (.unexpectedLabel label'))) : label' = label := by
  have hdecode := Pem.decode_ne_unexpectedLabel text label'
  rw [documentOfText] at h
  repeat' split at h
  all_goals simp_all

/-- A text in neither encoding is told to be none of the first one's label. -/
theorem eq_of_ofText {label : String} {text : List Char}
    (h : ofText text = .error (.pem (.unexpectedLabel label))) : label = infoLabel := by
  have hinfo : ofInfoText text = .error (.pem (.unexpectedLabel label)) := by
    rw [ofText] at h
    split at h
    · cases h
    · next fault hfault =>
        cases hnumbers : ofNumbersText text <;> simp_all
  rw [ofInfoText] at hinfo
  cases hdocument : documentOfText infoLabel text with
  | error fault =>
      rw [hdocument] at hinfo
      cases hinfo
      exact eq_of_documentOfText hdocument
  | ok bs =>
      rw [hdocument] at hinfo
      exact absurd hinfo (decodeInfo_ne_pem bs _)

end PublicKey

theorem Text.Utf8.Fault.inert_message (f : Fault) : Inert f.message := by
  cases f with
  | invalid index width =>
      exact (Inert.append_number (by decide) width (by decide)).append (inert_toString index)
  | truncated index => exact Inert.append (by decide) (inert_toString index)

namespace KeyResource

/-- Whatever a key resource holds, what is wrong with it is told in one line. -/
theorem inert_of_parse {r : KeyResource} {fault : Fault} (h : r.parse = .error fault) :
    Inert fault.message := by
  rw [parse] at h
  split at h
  · cases h
    decide
  · split at h
    · next fault _ =>
        cases h
        exact Inert.append (by decide) fault.inert_message
    · next text _ =>
        cases hkey : PublicKey.ofText (Text.trim text) with
        | ok => simp [hkey] at h
        | error fault =>
            rw [hkey] at h
            cases h
            refine fault.inert_message fun label hlabel => ?_
            rw [hlabel] at hkey
            rw [PublicKey.eq_of_ofText hkey]
            decide

/-- Why a key cannot be used is told in one line. -/
theorem inert_of_usableKey {r : KeyResource} {failure : Failure}
    (h : r.usableKey = .error failure) : Inert failure.message := by
  obtain ⟨-, rfl⟩ | ⟨-, h⟩ := usableKey_eq_error_iff.mp h
  · exact .append_number (by decide) _ (by decide)
  · rw [materialize] at h
    split at h
    · next fault hparse =>
        cases h
        exact Inert.append (by decide) (inert_of_parse hparse)
    · next key _ =>
        split at h
        · cases h
        · cases h
          exact (Inert.append_number (by decide) _ (by decide)).append_number _ (by decide)

end KeyResource

/-! ## Failures of a tree -/

/-- The system's text for any error that a tree gives is inert. -/
theorem FileTree.inert_codeOrText {t : FileTree} {p : Path} {e : IoError}
    (h : t.opener p = .error e ∨
      ∃ reading, t.opener p = .ok (.unreadable reading) ∧ reading.error = e) :
    Inert e.codeOrText := by
  by_cases hnul : 0 ∈ p.bytes
  · rw [opener_eq_map, resolve_of_nul hnul] at h
    obtain h | ⟨reading, h, -⟩ := h <;> cases h
    decide
  · have hcodes : ∀ c ∈ [2, 20, 21, 36, 40], Inert (IoError.os c).codeOrText := by decide
    obtain ⟨c, hc, rfl⟩ := exists_osCode hnul h
    exact hcodes c hc

/-- How the failures of a check are worded: in an inert text, or in two with the path of
the file or of its signature between them, in brackets. -/
inductive Wording (path : Path) : String → Prop where
  | plain {text : String} (h : Inert text) : Wording path text
  | about {p : Path} (hp : p = path ∨ path.signaturePath = .ok p) {opening closing : String}
      (hopening : Inert opening) (hbracket : opening.toList.getLast? = some '(')
      (hclosing : Inert closing) (hne : closing ≠ "") :
      Wording path (opening ++ p.display ++ closing)

/-- A text of the system after the one that closes the brackets belongs to it. -/
theorem Wording.about_source {path p : Path} (hp : p = path ∨ path.signaturePath = .ok p)
    {opening middle code : String} (hopening : Inert opening)
    (hbracket : opening.toList.getLast? = some '(') (hmiddle : Inert middle) (hne : middle ≠ "")
    (hcode : Inert code) : Wording path (opening ++ p.display ++ middle ++ code) := by
  rw [String.append_assoc]
  exact .about hp hopening hbracket (hmiddle.append hcode) (by simp [hne])

/-- Every failure in a tree is worded so. -/
theorem wording_message {t : FileTree} {key : KeyResource} {path : Path} {failure : Failure}
    (h : (check t.opener key path).result = .error failure) : Wording path failure.message := by
  have hcourse := check_course t.opener key path
  generalize check t.opener key path = outcome at h hcourse
  cases hcourse with
  | key hkey =>
      cases h
      exact .plain (KeyResource.inert_of_usableKey hkey)
  | target hkey htarget =>
      cases h
      obtain ⟨e, rfl, hopen⟩ | ⟨reading, rfl, hopen⟩ := hashFile_eq_error_iff.mp htarget
      · exact .about_source (Or.inl rfl) (by decide) (by decide) (by decide) (by decide)
          (FileTree.inert_codeOrText (Or.inl hopen))
      · exact .about_source (Or.inl rfl) (by decide) (by decide) (by decide) (by decide)
          (FileTree.inert_codeOrText (Or.inr ⟨reading, hopen, rfl⟩))
  | path hkey hcontent hpath =>
      exact absurd (Path.signaturePath_eq_error_iff.mp hpath).1 (FileTree.fileName?_ne_none hcontent)
  | signature hkey hcontent hsidecar hsignature =>
      cases h
      obtain ⟨e, rfl, hopen⟩ | ⟨reading, rfl, hopen, -⟩ | ⟨content, -, -, rfl⟩ :=
        readSignature_eq_error_iff.mp hsignature
      · exact .about_source (Or.inr hsidecar) (by decide) (by decide) (by decide) (by decide)
          (FileTree.inert_codeOrText (Or.inl hopen))
      · exact .about_source (Or.inr hsidecar) (by decide) (by decide) (by decide) (by decide)
          (FileTree.inert_codeOrText (Or.inr ⟨reading, hopen, rfl⟩))
      · exact .plain ((Inert.append_number (by decide) _ (by decide)).append_number _ (by decide))
  | mismatch =>
      cases h
      exact .plain (by decide)
  | valid => cases h

end Sidecar
