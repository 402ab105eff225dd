import Mathlib.Data.List.Basic
import Sidecar.Pem
import Sidecar.Proofs.Text.Base64
import Sidecar.Text.Blank

/-!
# Sidecar.Proofs.Pem

A payload is read back from its canonical text (`decode_trimmed`). Only
the trimmed text is read: `decode` refuses a line end after the second boundary.
-/

namespace Sidecar.Pem

open Text

/-! ## Lines -/

/-- Whether a text holds no line end. -/
def OnOneLine (text : List Char) : Prop := '\n' ∉ text ∧ '\r' ∉ text

/-- A part of a line stands on one line. -/
theorem OnOneLine.take {text : List Char} (h : OnOneLine text) (n : Nat) :
    OnOneLine (text.take n) :=
  ⟨fun hmem => h.1 (List.mem_of_mem_take hmem), fun hmem => h.2 (List.mem_of_mem_take hmem)⟩

theorem OnOneLine.drop {text : List Char} (h : OnOneLine text) (n : Nat) :
    OnOneLine (text.drop n) :=
  ⟨fun hmem => h.1 (List.mem_of_mem_drop hmem), fun hmem => h.2 (List.mem_of_mem_drop hmem)⟩

/-- A text without line ends has none at its back to take away. -/
theorem beforeLineEnd?_of_onOneLine {text : List Char} (h : OnOneLine text) :
    beforeLineEnd? text = none := by
  unfold beforeLineEnd?
  split
  · next heq => exact absurd (List.mem_reverse.mp (heq ▸ List.mem_cons_self)) h.1
  · next heq => exact absurd (List.mem_reverse.mp (heq ▸ List.mem_cons_self)) h.1
  · next heq => exact absurd (List.mem_reverse.mp (heq ▸ List.mem_cons_self)) h.2
  · rfl

/-- A line feed at the back is taken away alone, unless a carriage return stands before it. -/
theorem beforeLineEnd?_append_lineFeed {text : List Char} (h : '\r' ∉ text) :
    beforeLineEnd? (text ++ ['\n']) = some text := by
  unfold beforeLineEnd?
  rw [List.reverse_append, List.reverse_singleton, List.singleton_append]
  split
  · next heq =>
      have hreverse := (List.cons.inj heq).2
      exact absurd (List.mem_reverse.mp (hreverse ▸ List.mem_cons_self)) h
  · next heq => rw [← (List.cons.inj heq).2, List.reverse_reverse]
  · next heq => cases (List.cons.inj heq).1
  · next hne _ => exact absurd rfl (hne _)

/-- A text no longer than a line is one line. -/
theorem wrap_of_length_le {text : List Char} (hne : text ≠ []) (h : text.length ≤ lineWidth) :
    wrap text = text ++ ['\n'] := by
  rw [wrap, if_neg hne, List.take_of_length_le h, List.drop_of_length_le h, wrap, if_pos rfl]

theorem lines?_of_length_le {text : List Char} (hne : text ≠ []) (h : OnOneLine text)
    (hlength : text.length ≤ lineWidth) : lines? text = some [text] := by
  rw [lines?, if_neg hne, List.drop_of_length_le hlength]
  simp [beforeLineEnd?_of_onOneLine h]

/-- A full line and its line feed are read off the front of a text. -/
theorem lines?_lineFeed {line : List Char} (hlength : line.length = lineWidth)
    (text : List Char) : lines? (line ++ '\n' :: text) = (lines? text).map (line :: ·) := by
  have hdrop : (line ++ '\n' :: text).drop lineWidth = '\n' :: text := List.drop_left' hlength
  have htake : (line ++ '\n' :: text).take lineWidth = line := List.take_left' hlength
  rw [lines?, if_neg (by simp), htake, hdrop]
  dsimp only
  split
  · next hnone => cases hnone
  · next hsome =>
      cases hsome
      rfl

/-- What `wrap` writes is the lines that `lines?` reads, and a line feed. A step of the induction
is a full line, a text of one line its base. -/
theorem exists_lines?_of_wrap {text : List Char} (hne : text ≠ []) (h : OnOneLine text) :
    ∃ body lines, wrap text = body ++ ['\n'] ∧ '\r' ∉ body ∧ lines? body = some lines ∧
      lines.flatten = text ∧ [] ∉ lines := by
  fun_induction wrap text with
  | case1 => exact absurd rfl hne
  | case2 text _ ih =>
    by_cases hlength : text.length ≤ lineWidth
    · have hwrap := wrap_of_length_le hne hlength
      rw [wrap, if_neg hne] at hwrap
      refine ⟨text, [text], hwrap, h.2, ?_, List.flatten_singleton, ?_⟩
      · exact lines?_of_length_le hne h hlength
      · rw [List.mem_singleton]
        exact hne.symm
    · have hrest : text.drop lineWidth ≠ [] := by
        rw [ne_eq, List.drop_eq_nil_iff]
        exact hlength
      obtain ⟨body, lines, hwrap, hbody, hlines, hflatten, hempty⟩ := ih hrest (h.drop _)
      have htake : (text.take lineWidth).length = lineWidth := by
        rw [List.length_take]
        omega
      refine ⟨text.take lineWidth ++ '\n' :: body, text.take lineWidth :: lines, ?_, ?_, ?_, ?_, ?_⟩
      · rw [hwrap, List.append_assoc, List.cons_append]
      · have hcr := (h.take lineWidth).2
        simp only [List.mem_append, List.mem_cons, not_or]
        exact ⟨hcr, by decide, hbody⟩
      · rw [lines?_lineFeed htake, hlines, Option.map_some]
      · rw [List.flatten_cons, hflatten, List.take_append_drop]
      · rw [List.mem_cons, not_or]
        refine ⟨fun hnil => ?_, hempty⟩
        rw [← hnil] at htake
        cases htake

/-! ## Payloads -/

theorem value?_eq_none_of_lineEnd : Base64.value? '\n' = none ∧ Base64.value? '\r' = none :=
  ⟨rfl, rfl⟩

/-- Base64 text holds no line ends of its own. -/
theorem onOneLine_encode (bs : List UInt8) : OnOneLine (Base64.encode bs) := by
  constructor
  · intro hmem
    simpa [value?_eq_none_of_lineEnd] using Base64.value?_isSome_of_mem_encode hmem
  · intro hmem
    simpa [value?_eq_none_of_lineEnd] using Base64.value?_isSome_of_mem_encode hmem

/-- A payload is read from the text between the boundaries if its lines hold the payload's digits
and none of them is empty. -/
theorem decodeBody_of_lines? {body : List Char} {lines : List (List Char)} {payload : List UInt8}
    (hne : payload ≠ []) (hlines : lines? body = some lines)
    (hflatten : lines.flatten = Base64.encode payload) (hempty : [] ∉ lines) :
    decodeBody body = .ok payload := by
  have hlast : ¬ (lines.getLast? = some [] ∧ (Base64.encode payload).getLast? = some '=') :=
    fun h => hempty (List.mem_of_getLast? h.1)
  rw [decodeBody, hlines]
  dsimp only
  rw [hflatten, if_neg (Base64.encode_ne_nil hne), if_neg hlast, Base64.decode?_encode]

/-! ## Whole texts -/

/-- The label of a boundary is read up to its first dash. -/
theorem splitLabel?_append {label : List Char} (hlabel : isLabel false label = true)
    (hdash : '-' ∉ label) (text : List Char) :
    splitLabel? (label ++ dashes ++ '\n' :: text) = some (label, text) := by
  have hkeep : ∀ c ∈ label, (c != '-') = true := by
    intro c hc
    rw [bne_iff_ne]
    rintro rfl
    exact hdash hc
  have hstop : dashes ++ '\n' :: text = '-' :: ("----".toList ++ '\n' :: text) := rfl
  have htake : (label ++ (dashes ++ '\n' :: text)).takeWhile (· != '-') = label := by
    rw [List.takeWhile_append_of_pos hkeep, hstop, List.takeWhile_cons_of_neg (by decide),
      List.append_nil]
  have hdrop :
      (label ++ (dashes ++ '\n' :: text)).dropWhile (· != '-') = dashes ++ '\n' :: text := by
    rw [List.dropWhile_append_of_pos hkeep, hstop, List.dropWhile_cons_of_neg (by decide)]
  have hdashes : dashes.isPrefixOf? (dashes ++ '\n' :: text) = some ('\n' :: text) :=
    List.isPrefixOf?_eq_some_iff_append_eq.mpr rfl
  rw [List.append_assoc, splitLabel?, htake, if_pos hlabel, hdrop, hdashes]
  rfl

/-- What the second boundary stands after is the body, without the line feed before it. -/
theorem beforeEnd?_append (label : List Char) {body : List Char} (h : '\r' ∉ body) :
    beforeEnd? label (body ++ ['\n'] ++ endMark ++ label) = some body := by
  have hlabel : label.isSuffixOf? (body ++ ['\n'] ++ endMark ++ label) =
      some (body ++ ['\n'] ++ endMark) := List.isSuffixOf?_eq_some_iff_append_eq.mpr rfl
  have hmark : endMark.isSuffixOf? (body ++ ['\n'] ++ endMark) = some (body ++ ['\n']) :=
    List.isSuffixOf?_eq_some_iff_append_eq.mpr rfl
  simp only [beforeEnd?, hlabel, hmark, Option.bind_eq_bind, Option.bind_some,
    beforeLineEnd?_append_lineFeed h]

/-- The canonical text without the line feed at its end. -/
def trimmed (pem : Pem) : List Char :=
  beginMark ++ (pem.label ++ dashes ++ '\n' ::
    (wrap (Base64.encode pem.payload) ++ endMark ++ pem.label ++ dashes))

theorem encode_eq (pem : Pem) : encode pem = trimmed pem ++ ['\n'] := by
  simp [encode, trimmed]

/-- **Round trip**: a payload is read back from its trimmed text. -/
theorem decode_trimmed {pem : Pem} (hlabel : isLabel false pem.label = true)
    (hdash : '-' ∉ pem.label) (hpayload : pem.payload ≠ []) :
    decode pem.trimmed = .ok pem := by
  obtain ⟨body, lines, hwrap, hbody, hlines, hflatten, hempty⟩ :=
    exists_lines?_of_wrap (Base64.encode_ne_nil hpayload) (onOneLine_encode pem.payload)
  have hbegin : ∀ rest, afterBegin? (beginMark ++ rest) = some rest := by
    intro rest
    rw [afterBegin?, List.isPrefixOf?_eq_some_iff_append_eq.mpr rfl]
  have hdashes : ∀ rest, dashes.isSuffixOf? (rest ++ dashes) = some rest := by
    intro rest
    rw [List.isSuffixOf?_eq_some_iff_append_eq]
  simp only [decode, trimmed, hbegin, splitLabel?_append hlabel hdash, hdashes, hwrap,
    beforeEnd?_append pem.label hbody, decodeBody_of_lines? hpayload hlines hflatten hempty]

/-! ## Size -/

/-- Wrapping adds a line feed for every 64 characters and one for the rest. -/
theorem length_wrap (text : List Char) :
    (wrap text).length = text.length + (text.length + 63) / 64 := by
  have hwidth : lineWidth = 64 := rfl
  fun_induction wrap text with
  | case1 => rfl
  | case2 text hne ih =>
      have hpos := List.length_pos_iff.mpr hne
      rw [List.length_append, List.length_cons, ih, List.length_take, List.length_drop]
      omega

theorem length_encode (pem : Pem) :
    (encode pem).length =
      2 * pem.label.length + (wrap (Base64.encode pem.payload)).length + 32 := by
  have hbegin : beginMark.length = 11 := rfl
  have hend : endMark.length = 9 := rfl
  have hdashes : dashes.length = 5 := rfl
  simp only [encode, List.length_append, List.length_cons, List.length_nil]
  omega

/-! ## Characters -/

/-- Trimming the canonical text takes away the line feed at its end and nothing else: the text
begins and ends with a dash. -/
theorem trim_encode (pem : Pem) : trim (encode pem) = pem.trimmed := by
  have hbegin : beginMark = '-' :: "----BEGIN ".toList := rfl
  have hdashes : dashes = "----".toList ++ ['-'] := rfl
  obtain ⟨inner, hinner⟩ : ∃ inner, pem.trimmed = '-' :: (inner ++ ['-']) := by
    refine ⟨"----BEGIN ".toList ++ (pem.label ++ dashes ++ '\n' ::
      (wrap (Base64.encode pem.payload) ++ endMark ++ pem.label ++ "----".toList)), ?_⟩
    simp only [trimmed, hbegin, hdashes, List.cons_append, List.append_assoc]
  rw [encode_eq, hinner]
  simp [trim, trimEnd, isBlank]

/-- Wrapping adds no characters but line feeds. -/
theorem mem_wrap {text : List Char} {c : Char} (h : c ∈ wrap text) : c ∈ text ∨ c = '\n' := by
  fun_induction wrap text with
  | case1 => cases h
  | case2 text hne ih =>
      rw [List.mem_append, List.mem_cons] at h
      rcases h with h | h | h
      · exact Or.inl (List.mem_of_mem_take h)
      · exact Or.inr h
      · exact (ih h).imp_left List.mem_of_mem_drop

/-- A label is ASCII. -/
theorem toNat_lt_of_isLabel {blankAllowed : Bool} {label : List Char}
    (h : isLabel blankAllowed label = true) : ∀ c ∈ label, c.toNat < 0x80 := by
  fun_induction isLabel blankAllowed label with
  | case1 => simp
  | case2 blankAllowed c cs hblank ih =>
      rw [Bool.and_eq_true] at h
      rw [List.forall_mem_cons]
      refine ⟨?_, ih h.2⟩
      rcases hblank with rfl | rfl <;> decide
  | case3 blankAllowed c cs hblank ih =>
      simp only [Bool.and_eq_true, decide_eq_true_eq, Char.le_def, UInt32.le_iff_toNat_le] at h
      rw [List.forall_mem_cons]
      exact ⟨Nat.lt_of_le_of_lt h.1.2 (by decide), ih h.2⟩

/-- A canonical text is ASCII. -/
theorem toNat_lt_of_mem_encode {pem : Pem} (hlabel : isLabel false pem.label = true) :
    ∀ c ∈ encode pem, c.toNat < 0x80 := by
  have hmarks : (beginMark ++ endMark ++ dashes ++ ['\n']).all (·.toNat < 0x80) = true := rfl
  simp only [List.all_eq_true, decide_eq_true_eq, List.forall_mem_append] at hmarks
  obtain ⟨⟨⟨hbegin, hend⟩, hdashes⟩, hline⟩ := hmarks
  have hwrap : ∀ c ∈ wrap (Base64.encode pem.payload), c.toNat < 0x80 := by
    intro c hc
    rcases mem_wrap hc with hc | rfl
    · exact Base64.toNat_lt_of_mem_encode hc
    · decide
  have hlabel := toNat_lt_of_isLabel hlabel
  simp only [encode, List.forall_mem_append, List.forall_mem_cons] at hline ⊢
  exact ⟨⟨⟨hbegin, hlabel⟩, hdashes⟩, hline.1, ⟨⟨⟨hwrap, hend⟩, hlabel⟩, hdashes⟩, hline⟩

end Sidecar.Pem
