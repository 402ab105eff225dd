import Mathlib.Data.List.Infix
import Sidecar.Verifier

/-!
# Sidecar.Proofs.Failure

What the messages of failures tell. Each begins with an opening of its variant, whatever
paths, numbers and texts come after it; and as no opening begins another one
(`Failure.Variant.not_opening_isPrefix`), a message is that of one variant only
(`diagnostic_tells_failure`). Where the system is behind a failure, the message ends with
what the system said (`Failure.message_of_source`).
-/

namespace Sidecar

/-! ## Texts -/

theorem prefix_append (text rest : String) : text.toList <+: (text ++ rest).toList := by
  rw [String.toList_append]
  exact List.prefix_append _ _

/-- What ends in a colon and a blank separates what follows it. -/
theorem exists_append_separator (text before code : String) {middle : String}
    (h : middle = before ++ ": ") : ∃ front, text ++ middle ++ code = front ++ ": " ++ code :=
  ⟨text ++ before, by rw [h, ← String.append_assoc]⟩

namespace Failure

/-! ## Variants -/

/-- A failure without what it tells of its cause. -/
inductive Variant where
  | keyTooLarge
  | keyUnreadable
  | keySize
  | openTarget
  | readTarget
  | openSignature
  | readSignature
  | signatureLength
  | signatureMismatch
  | crypto
  | invalidPath
  deriving DecidableEq, Repr

def variant : Failure → Variant
  | keyTooLarge _ => .keyTooLarge
  | keyUnreadable _ => .keyUnreadable
  | keySize _ _ => .keySize
  | openTarget _ _ => .openTarget
  | readTarget _ _ => .readTarget
  | openSignature _ _ => .openSignature
  | readSignature _ _ => .readSignature
  | signatureLength _ _ => .signatureLength
  | signatureMismatch => .signatureMismatch
  | crypto _ => .crypto
  | invalidPath _ => .invalidPath

namespace Variant

def kind : Variant → FailureKind
  | keyTooLarge | keyUnreadable | keySize => .keyCorruption
  | openTarget | readTarget | openSignature | readSignature => .io
  | signatureLength => .malformedSignature
  | signatureMismatch => .mismatch
  | crypto => .crypto
  | invalidPath => .invalidPath

def all : List Variant :=
  [keyTooLarge, keyUnreadable, keySize, openTarget, readTarget, openSignature, readSignature,
    signatureLength, signatureMismatch, crypto, invalidPath]

theorem mem_all (v : Variant) : v ∈ all := by
  cases v <;> decide

/-- What the messages of a variant begin with. -/
def opening : Variant → String
  | keyTooLarge => "Invalid public key, size is too large: "
  | keyUnreadable => "Failed to load RSA public key: "
  | keySize => "Unsupported RSA key size: "
  | openTarget => "Failed to open executable ("
  | readTarget => "Failed to read executable ("
  | openSignature => "Failed to open signature file ("
  | readSignature => "Failed to read signature file ("
  | signatureLength =>
      "Signature file is an invalid size, or failed to read entire file. Expected "
  | signatureMismatch => "Executable's signature does not match signature file"
  | crypto => "RSA verification failed internally: "
  | invalidPath => "Invalid executable path: "

/-- Every message begins with a text of its own. -/
theorem opening_ne_empty (v : Variant) : v.opening ≠ "" := by
  cases v <;> simp [opening]

/-- No opening begins another one. -/
theorem not_opening_isPrefix {v w : Variant} (h : v ≠ w) :
    ¬ v.opening.toList <+: w.opening.toList := by
  have hall : ∀ v ∈ all, ∀ w ∈ all, v ≠ w → ¬ v.opening.toList <+: w.opening.toList := by decide
  exact hall v v.mem_all w w.mem_all h

end Variant

/-! ## Openings of messages -/

theorem kind_variant (f : Failure) : f.variant.kind = f.kind := by
  cases f <;> rfl

/-- A message begins with its variant's opening. -/
theorem opening_prefix_message (f : Failure) : f.variant.opening.toList <+: f.message.toList := by
  cases f with
  | signatureMismatch => exact List.prefix_rfl
  | keyUnreadable | crypto | invalidPath => exact prefix_append _ _
  | keyTooLarge => exact (prefix_append _ _).trans (prefix_append _ _)
  | openTarget | readTarget | openSignature | readSignature =>
      exact ((prefix_append _ _).trans (prefix_append _ _)).trans (prefix_append _ _)
  | keySize | signatureLength =>
      exact (((prefix_append _ _).trans (prefix_append _ _)).trans (prefix_append _ _)).trans
        (prefix_append _ _)

/-- A message that begins another one is of the same variant. -/
theorem variant_eq_of_message_isPrefix {f g : Failure}
    (h : f.message.toList <+: g.message.toList) : f.variant = g.variant := by
  have hf := f.opening_prefix_message.trans h
  have hg := g.opening_prefix_message
  by_contra hne
  obtain hprefix | hprefix := List.prefix_or_prefix_of_prefix hf hg
  · exact Variant.not_opening_isPrefix hne hprefix
  · exact Variant.not_opening_isPrefix (Ne.symm hne) hprefix

/-- Equal messages are of one variant, since they begin alike and no opening begins another. -/
theorem variant_eq_of_message_eq {f g : Failure} (h : f.message = g.message) :
    f.variant = g.variant := by
  apply variant_eq_of_message_isPrefix
  rw [h]

/-- No failure is told by an empty text. -/
theorem message_ne_empty (f : Failure) : f.message ≠ "" := by
  intro hempty
  have hprefix := f.opening_prefix_message
  rw [hempty, String.toList_empty, List.prefix_nil, String.toList_eq_nil_iff] at hprefix
  exact f.variant.opening_ne_empty hprefix

/-! ## Sources -/

variable {failure : Failure}

/-- The failures with an error of the system as their cause are those of kind `Io`. -/
theorem exists_source_iff : (∃ e, failure.source? = some e) ↔ failure.kind = .io := by
  cases failure <;> simp [source?, kind]

/-- The number of a failure is the number of its cause. -/
theorem osError?_of_source {e : IoError} (h : failure.source? = some e) :
    failure.osError? = e.osCode? := by
  rw [osError?, h, Option.bind_some]

theorem osError?_eq_none (h : failure.kind ≠ .io) : failure.osError? = none := by
  cases hsource : failure.source? with
  | none => rw [osError?, hsource, Option.bind_none]
  | some e => exact absurd (exists_source_iff.mp ⟨e, hsource⟩) h

/-- The system's number, or its words, are what a message ends with. -/
theorem message_of_source {e : IoError} (h : failure.source? = some e) :
    ∃ front, failure.message = front ++ ": " ++ e.codeOrText := by
  cases failure with
  | openTarget | openSignature =>
      cases h
      exact exists_append_separator _ ") for reading" _ rfl
  | readTarget =>
      cases h
      exact exists_append_separator _ ") while hashing" _ rfl
  | readSignature =>
      cases h
      exact exists_append_separator _ ")" _ rfl
  | _ => cases h

end Failure

/-! ## Verifications -/

namespace Verification

/-- The diagnostic of a failed verification is the failure's message. -/
theorem diagnostic_of_failure {v : Verification} {f : Failure} (h : v.failure? = some f) :
    v.diagnostic = f.message := by
  simp [diagnostic, reasons, h]

theorem diagnostic_of_none {v : Verification} (h : v.failure? = none) : v.diagnostic = "" := by
  simp [diagnostic, reasons, h]

/-- What fails has a diagnostic. -/
theorem diagnostic_eq_empty_iff {v : Verification} : v.diagnostic = "" ↔ v.isOk = true := by
  cases hfailure : v.failure? with
  | none => simp [diagnostic_of_none hfailure, isOk, hfailure]
  | some f => simp [diagnostic_of_failure hfailure, f.message_ne_empty, isOk, hfailure]

/-- Verifications with the same diagnostic have found the same variant of failure, or none. -/
theorem variant_eq_of_diagnostic_eq {v w : Verification} (h : v.diagnostic = w.diagnostic) :
    v.failure?.map Failure.variant = w.failure?.map Failure.variant := by
  cases hv : v.failure? with
  | none =>
      have hw : w.isOk = true := by
        rw [← diagnostic_eq_empty_iff, ← h, diagnostic_of_none hv]
      rw [Option.isNone_iff_eq_none.mp hw]
  | some f =>
      cases hw : w.failure? with
      | none =>
          rw [diagnostic_of_failure hv, diagnostic_of_none hw] at h
          exact absurd h f.message_ne_empty
      | some g =>
          rw [diagnostic_of_failure hv, diagnostic_of_failure hw] at h
          have hvariant := Failure.variant_eq_of_message_eq h
          rw [Option.map_some, Option.map_some, hvariant]

theorem isOk_eq (v : Verification) : v.isOk = (v.failure?.map Failure.variant).isNone := by
  rw [isOk, Option.isNone_map]

theorem kind?_eq (v : Verification) :
    v.kind? = (v.failure?.map Failure.variant).map Failure.Variant.kind := by
  rw [kind?, Option.map_map]
  congr 1
  funext f
  exact f.kind_variant.symm

end Verification

/-- **Texts tell failures apart**: failures with the same message are of the same variant,
and so of the same class, whatever a path or a text in them says. A verification has an
empty diagnostic exactly if it passes; and verifications with the same diagnostic both
pass, or have failures of the same variant. -/
theorem diagnostic_tells_failure :
    (∀ f g : Failure, f.message = g.message → f.variant = g.variant ∧ f.kind = g.kind) ∧
    (∀ v : Verification, v.diagnostic = "" ↔ v.isOk = true) ∧
    ∀ v w : Verification, v.diagnostic = w.diagnostic →
      v.isOk = w.isOk ∧ v.kind? = w.kind? ∧
        v.failure?.map Failure.variant = w.failure?.map Failure.variant := by
  refine ⟨?_, fun _ => Verification.diagnostic_eq_empty_iff, ?_⟩
  · intro f g h
    have hvariant := Failure.variant_eq_of_message_eq h
    exact ⟨hvariant, by rw [← f.kind_variant, hvariant, g.kind_variant]⟩
  · intro v w h
    have hvariant := Verification.variant_eq_of_diagnostic_eq h
    refine ⟨?_, ?_, hvariant⟩
    · rw [v.isOk_eq, hvariant, w.isOk_eq]
    · rw [v.kind?_eq, hvariant, w.kind?_eq]

end Sidecar
