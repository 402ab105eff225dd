import Sidecar.Proofs.Failure
import Sidecar.Proofs.Verifier

/-!
# Sidecar.Proofs.Trace

The events of a check and its result say the same: how far the check came.
`check_course` lists the courses that a check can take, one for each stage that
can fail and one for a file that passes, and everything else is read off them.
-/

namespace Sidecar

variable {opener : Opener} {key : KeyResource} {path : Path} {outcome : Traced Failure Unit}

/-! ## Courses -/

/-- The events of a check that passes. -/
def stages (path : Path) (digest : Sha256.Digest) (sidecar : Path) : List Event :=
  [.hashing path, .hashed path digest, .readingSignature sidecar, .signatureValid path]

/-- The course of a check: the stages before the last one have gone well, and
that one ends the check with its events and its result. -/
inductive Course (opener : Opener) (key : KeyResource) (path : Path) :
    Traced Failure Unit → Prop where
  | key {failure : Failure} (hkey : key.usableKey = .error failure) :
      Course opener key path ⟨[], .error failure⟩
  | target {publicKey : PublicKey} {failure : Failure} (hkey : key.usableKey = .ok publicKey)
      (htarget : hashFile opener path = .error failure) :
      Course opener key path ⟨[.hashing path], .error failure⟩
  | path {publicKey : PublicKey} {content : List UInt8} {fault : PathFault}
      (hkey : key.usableKey = .ok publicKey) (hcontent : opener path = .ok (.file content))
      (hpath : path.signaturePath = .error fault) :
      Course opener key path
        ⟨[.hashing path, .hashed path (Sha256.digest content)], .error fault.failure⟩
  | signature {publicKey : PublicKey} {content : List UInt8} {sidecar : Path} {failure : Failure}
      (hkey : key.usableKey = .ok publicKey) (hcontent : opener path = .ok (.file content))
      (hsidecar : path.signaturePath = .ok sidecar)
      (hsignature : readSignature opener sidecar = .error failure) :
      Course opener key path
        ⟨[.hashing path, .hashed path (Sha256.digest content), .readingSignature sidecar],
          .error failure⟩
  | mismatch {publicKey : PublicKey} {content : List UInt8} {sidecar : Path}
      {signature : Signature} (hkey : key.usableKey = .ok publicKey)
      (hcontent : opener path = .ok (.file content)) (hsidecar : path.signaturePath = .ok sidecar)
      (hsignature : opener sidecar = .ok (.file signature.bytes))
      (haccepts : publicKey.accepts (Sha256.digest content) signature = false) :
      Course opener key path
        ⟨[.hashing path, .hashed path (Sha256.digest content), .readingSignature sidecar],
          .error .signatureMismatch⟩
  | valid {publicKey : PublicKey} {content : List UInt8} {sidecar : Path} {signature : Signature}
      (hkey : key.usableKey = .ok publicKey) (hcontent : opener path = .ok (.file content))
      (hsidecar : path.signaturePath = .ok sidecar)
      (hsignature : opener sidecar = .ok (.file signature.bytes))
      (haccepts : publicKey.accepts (Sha256.digest content) signature = true) :
      Course opener key path ⟨stages path (Sha256.digest content) sidecar, .ok ()⟩

/-- Every check takes one of the courses. -/
theorem check_course (opener : Opener) (key : KeyResource) (path : Path) :
    Course opener key path (check opener key path) := by
  rw [check]
  cases hkey : key.usableKey with
  | error failure => exact .key hkey
  | ok publicKey =>
  rw [Traced.liftM_ok_bind, Traced.log_bind]
  cases htarget : hashFile opener path with
  | error failure => exact .target hkey htarget
  | ok digest =>
  obtain ⟨content, hcontent, rfl⟩ := hashFile_eq_ok_iff.mp htarget
  rw [Traced.liftM_ok_bind, Traced.log_bind]
  cases hpath : path.signaturePath with
  | error fault => exact .path hkey hcontent hpath
  | ok sidecar =>
  rw [mapError_ok, Traced.liftM_ok_bind, Traced.log_bind]
  cases hsignature : readSignature opener sidecar with
  | error failure => exact .signature hkey hcontent hpath hsignature
  | ok signature =>
  have hsidecar := readSignature_eq_ok_iff.mp hsignature
  rw [Traced.liftM_ok_bind, PublicKey.verify_eq]
  split
  · next haccepts => exact .valid hkey hcontent hpath hsidecar haccepts
  · next haccepts =>
      exact .mismatch hkey hcontent hpath hsidecar (Bool.eq_false_iff.mpr haccepts)

/-! ## How far a check came -/

/-- The number of events before a failure. -/
def Failure.stage : Failure → Nat
  | .keyTooLarge _ | .keyUnreadable _ | .keySize _ _ => 0
  | .openTarget _ _ | .readTarget _ _ => 1
  | .invalidPath _ => 2
  | .openSignature _ _ | .readSignature _ _ | .signatureLength _ _ | .signatureMismatch
  | .crypto _ => 3

def reached : Except Failure Unit → Nat
  | .error failure => failure.stage
  | .ok () => 4

theorem stage_of_usableKey {failure : Failure} (h : key.usableKey = .error failure) :
    failure.stage = 0 := by
  obtain ⟨-, rfl⟩ | ⟨-, h⟩ := KeyResource.usableKey_eq_error_iff.mp h
  · rfl
  · obtain ⟨_, hok⟩ | ⟨_, herror⟩ | ⟨_, _, herror⟩ := key.materialize_cases
    · rw [hok] at h
      cases h
    · rw [herror] at h
      cases h
      rfl
    · rw [herror] at h
      cases h
      rfl

/-- The failures of the first stage are those of the key. -/
theorem Failure.stage_eq_zero_iff {failure : Failure} :
    failure.stage = 0 ↔ failure.kind = .keyCorruption := by
  cases failure <;> simp [stage, kind]

theorem Failure.stage_eq_one_iff {failure : Failure} :
    failure.stage = 1 ↔ ∃ p e, failure = .openTarget p e ∨ failure = .readTarget p e := by
  cases failure <;> simp [stage]

namespace Course

/-- As many events are logged as stages are reached. -/
theorem length_events (h : Course opener key path outcome) :
    outcome.events.length = reached outcome.result := by
  cases h with
  | key hkey => exact (stage_of_usableKey hkey).symm
  | target _ htarget =>
      obtain ⟨_, rfl | rfl⟩ := exists_of_hashFile_eq_error htarget <;> rfl
  | path => rfl
  | signature _ _ _ hsignature =>
      obtain ⟨_, rfl | rfl⟩ | ⟨_, _, rfl⟩ := exists_of_readSignature_eq_error hsignature <;> rfl
  | mismatch => rfl
  | valid => rfl

/-- A check ends with its key exactly if the key cannot be used. -/
theorem usableKey_eq_error_iff (h : Course opener key path outcome) {failure : Failure} :
    key.usableKey = .error failure ↔ outcome.result = .error failure ∧ failure.stage = 0 := by
  constructor
  · intro hfailure
    cases h with
    | key hkey =>
        rw [hkey] at hfailure
        cases hfailure
        exact ⟨rfl, stage_of_usableKey hkey⟩
    | target hkey | path hkey | signature hkey | mismatch hkey | valid hkey =>
        rw [hkey] at hfailure
        cases hfailure
  · rintro ⟨hresult, hstage⟩
    have hlength := h.length_events
    rw [hresult, reached, hstage] at hlength
    cases h with
    | key hkey =>
        cases hresult
        exact hkey
    | _ => cases hlength

/-- A check ends with its target exactly if the target cannot be read. -/
theorem hashFile_eq_error_iff {publicKey : PublicKey} (h : Course opener key path outcome)
    (husable : key.usableKey = .ok publicKey) {failure : Failure} :
    hashFile opener path = .error failure ↔
      outcome.result = .error failure ∧ failure.stage = 1 := by
  constructor
  · intro hfailure
    cases h with
    | key hkey =>
        rw [husable] at hkey
        cases hkey
    | target _ htarget =>
        rw [htarget] at hfailure
        cases hfailure
        obtain ⟨_, rfl | rfl⟩ := exists_of_hashFile_eq_error htarget
        · exact ⟨rfl, rfl⟩
        · exact ⟨rfl, rfl⟩
    | path _ hcontent | signature _ hcontent | mismatch _ hcontent | valid _ hcontent =>
        rw [hashFile_file hcontent] at hfailure
        cases hfailure
  · rintro ⟨hresult, hstage⟩
    have hlength := h.length_events
    rw [hresult, reached, hstage] at hlength
    cases h with
    | target _ htarget =>
        cases hresult
        exact htarget
    | _ => cases hlength

/-- A check ends with the signature exactly if that cannot be read. -/
theorem readSignature_eq_error_iff {publicKey : PublicKey} (h : Course opener key path outcome)
    (husable : key.usableKey = .ok publicKey) {failure : Failure} :
    (∃ digest sidecar, hashFile opener path = .ok digest ∧ path.signaturePath = .ok sidecar ∧
        readSignature opener sidecar = .error failure) ↔
      outcome.result = .error failure ∧ failure.stage = 3 ∧ failure ≠ .signatureMismatch := by
  constructor
  · intro hfailure
    obtain ⟨digest, sidecar, hdigest, hplace, hfailure⟩ := hfailure
    cases h with
    | key hkey => simp [husable] at hkey
    | target _ htarget => simp [hdigest] at htarget
    | path _ _ hpath => simp [hplace] at hpath
    | signature _ _ hsidecar hsignature =>
        rw [hplace] at hsidecar
        cases hsidecar
        rw [hfailure] at hsignature
        cases hsignature
        obtain ⟨_, rfl | rfl⟩ | ⟨_, _, rfl⟩ := exists_of_readSignature_eq_error hfailure <;>
          simp [Failure.stage]
    | mismatch _ _ hsidecar hsignature | valid _ _ hsidecar hsignature =>
        rw [hplace] at hsidecar
        cases hsidecar
        rw [readSignature_eq_ok_iff.mpr hsignature] at hfailure
        cases hfailure
  · intro hresult
    obtain ⟨hresult, hstage, hmismatch⟩ := hresult
    have hlength := h.length_events
    rw [hresult, reached, hstage] at hlength
    cases h with
    | signature _ hcontent hsidecar hsignature =>
        cases hresult
        exact ⟨_, _, hashFile_file hcontent, hsidecar, hsignature⟩
    | mismatch =>
        cases hresult
        exact absurd rfl hmismatch
    | _ => cases hlength

/-- **Order of the log**: the events are a front of the four stages, and each tells what the stage
before it has found. -/
theorem prefix_stages (h : Course opener key path outcome) :
    ∃ digest sidecar, outcome.events <+: stages path digest sidecar ∧
      (2 ≤ outcome.events.length →
        ∃ content, opener path = .ok (.file content) ∧ digest = Sha256.digest content) ∧
      (3 ≤ outcome.events.length → path.signaturePath = .ok sidecar) := by
  cases h with
  | key => exact ⟨Sha256.digest [], path, List.nil_prefix, by simp, by simp⟩
  | target =>
      exact ⟨Sha256.digest [], path, List.prefix_append [_] _, by simp, by simp⟩
  | path _ hcontent =>
      exact ⟨_, path, List.prefix_append [_, _] _, fun _ => ⟨_, hcontent, rfl⟩, by simp⟩
  | signature _ hcontent hsidecar =>
      exact ⟨_, _, List.prefix_append [_, _, _] _, fun _ => ⟨_, hcontent, rfl⟩, fun _ => hsidecar⟩
  | mismatch _ hcontent hsidecar =>
      exact ⟨_, _, List.prefix_append [_, _, _] _, fun _ => ⟨_, hcontent, rfl⟩, fun _ => hsidecar⟩
  | valid _ hcontent hsidecar =>
      exact ⟨_, _, List.prefix_rfl, fun _ => ⟨_, hcontent, rfl⟩, fun _ => hsidecar⟩

/-- The hash of a target that has been read is the one that is logged. -/
theorem hashed_mem_iff {publicKey : PublicKey} {digest : Sha256.Digest}
    (h : Course opener key path outcome) (husable : key.usableKey = .ok publicKey)
    (hdigest : hashFile opener path = .ok digest) {p : Path} {d : Sha256.Digest} :
    .hashed p d ∈ outcome.events ↔ p = path ∧ d = digest := by
  cases h with
  | key hkey => simp [husable] at hkey
  | target _ htarget => simp [hdigest] at htarget
  | path _ hcontent | signature _ hcontent | mismatch _ hcontent | valid _ hcontent =>
      rw [hashFile_file hcontent] at hdigest
      cases hdigest
      simp [stages]

/-- The signature's path, where a target has one, is the one that is read. -/
theorem readingSignature_mem_iff {publicKey : PublicKey} {digest : Sha256.Digest} {sidecar : Path}
    (h : Course opener key path outcome) (husable : key.usableKey = .ok publicKey)
    (hdigest : hashFile opener path = .ok digest) (hplace : path.signaturePath = .ok sidecar)
    {p : Path} : .readingSignature p ∈ outcome.events ↔ p = sidecar := by
  cases h with
  | key hkey => simp [husable] at hkey
  | target _ htarget => simp [hdigest] at htarget
  | path _ _ hpath => simp [hplace] at hpath
  | signature _ _ hsidecar | mismatch _ _ hsidecar | valid _ _ hsidecar =>
      rw [hplace] at hsidecar
      cases hsidecar
      simp [stages]

/-- One event: the target cannot be read, and the failure names it. -/
theorem result_of_one (h : Course opener key path outcome) (hlength : outcome.events.length = 1) :
    ∃ e, outcome.result = .error (.openTarget path e) ∨
      outcome.result = .error (.readTarget path e) := by
  cases h with
  | target _ htarget =>
      obtain ⟨e, rfl | rfl⟩ := exists_of_hashFile_eq_error htarget
      · exact ⟨e, Or.inl rfl⟩
      · exact ⟨e, Or.inr rfl⟩
  | _ => cases hlength

/-- Three events: the signature cannot be read, and the failure names its path, or
it is not the target's. -/
theorem result_of_three (h : Course opener key path outcome)
    (hlength : outcome.events.length = 3) :
    (∃ sidecar e, path.signaturePath = .ok sidecar ∧
      (outcome.result = .error (.openSignature sidecar e) ∨
        outcome.result = .error (.readSignature sidecar e))) ∨
      (∃ expected read, outcome.result = .error (.signatureLength expected read)) ∨
        outcome.result = .error .signatureMismatch := by
  cases h with
  | signature _ _ hsidecar hsignature =>
      obtain ⟨e, rfl | rfl⟩ | ⟨_, _, rfl⟩ := exists_of_readSignature_eq_error hsignature
      · exact Or.inl ⟨_, e, hsidecar, Or.inl rfl⟩
      · exact Or.inl ⟨_, e, hsidecar, Or.inr rfl⟩
      · exact Or.inr (Or.inl ⟨_, _, rfl⟩)
  | mismatch => exact Or.inr (Or.inr rfl)
  | _ => cases hlength

/-- A signature that cannot be read is named by its place. -/
theorem signaturePath_of_signature (h : Course opener key path outcome) {p : Path} {e : IoError}
    (hresult : outcome.result = .error (.openSignature p e) ∨
      outcome.result = .error (.readSignature p e)) : path.signaturePath = .ok p := by
  have hlength : outcome.events.length = 3 := by
    rw [h.length_events]
    obtain hresult | hresult := hresult
    · rw [hresult]
      rfl
    · rw [hresult]
      rfl
  have hthree := h.result_of_three hlength
  grind

/-- A mismatch is found with everything at hand. -/
theorem of_mismatch (h : Course opener key path outcome)
    (hresult : outcome.result = .error .signatureMismatch) :
    ∃ publicKey content sidecar signature, key.usableKey = .ok publicKey ∧
      opener path = .ok (.file content) ∧ path.signaturePath = .ok sidecar ∧
      opener sidecar = .ok (.file signature.bytes) ∧
      publicKey.accepts (Sha256.digest content) signature = false := by
  have hlength := h.length_events
  rw [hresult] at hlength
  cases h with
  | signature _ _ _ hsignature =>
      cases hresult
      obtain ⟨_, hfailure | hfailure⟩ | ⟨_, _, hfailure⟩ :=
        exists_of_readSignature_eq_error hsignature <;> cases hfailure
  | mismatch hkey hcontent hsidecar hsignature haccepts =>
      exact ⟨_, _, _, _, hkey, hcontent, hsidecar, hsignature, haccepts⟩
  | _ => cases hlength

/-- A path is found to be of no use after its file has been read. -/
theorem of_invalidPath (h : Course opener key path outcome) {reason : String}
    (hresult : outcome.result = .error (.invalidPath reason)) :
    ∃ content fault, opener path = .ok (.file content) ∧ path.signaturePath = .error fault := by
  have hlength := h.length_events
  rw [hresult] at hlength
  cases h with
  | path _ hcontent hpath => exact ⟨_, _, hcontent, hpath⟩
  | _ => cases hlength

/-- A key is refused as too large whenever it is, whatever it contains. -/
theorem keyTooLarge_iff (h : Course opener key path outcome) (size : Nat) :
    outcome.result = .error (.keyTooLarge size) ↔
      KeyResource.maxSize < key.size ∧ size = key.size := by
  have hkey : outcome.result = .error (.keyTooLarge size) ↔
      key.usableKey = .error (.keyTooLarge size) := by
    simp [h.usableKey_eq_error_iff, Failure.stage]
  rw [hkey, KeyResource.usableKey_eq_error_iff]
  constructor
  · rintro (⟨hsize, hfailure⟩ | ⟨-, hfailure⟩)
    · cases hfailure
      exact ⟨hsize, rfl⟩
    · obtain ⟨_, hcase⟩ | ⟨_, hcase⟩ | ⟨_, _, hcase⟩ := key.materialize_cases
      all_goals
        rw [hcase] at hfailure
        cases hfailure
  · rintro ⟨hsize, rfl⟩
    exact Or.inl ⟨hsize, rfl⟩

end Course

/-! ## Events and results -/

/-- Events and a result that say the same of how far a check came. -/
structure TellsStage (opener : Opener) (key : KeyResource) (path : Path)
    (outcome : Traced Failure Unit) : Prop where
  prefix_stages : ∃ digest sidecar,
    outcome.events <+:
      [.hashing path, .hashed path digest, .readingSignature sidecar, .signatureValid path] ∧
    outcome.events.map Event.message <+:
      ["Hashing " ++ path.display, "SHA256 " ++ path.display ++ " = " ++ digest.hex,
        "Reading signature " ++ sidecar.display, "Signature valid for " ++ path.display] ∧
    (2 ≤ outcome.events.length →
      ∃ content, opener path = .ok (.file content) ∧ digest = Sha256.digest content) ∧
    (3 ≤ outcome.events.length → path.signaturePath = .ok sidecar)
  level_eq_debug : ∀ event ∈ outcome.events, event.level = .debug
  zero_iff : outcome.events.length = 0 ↔
    (∃ size, outcome.result = .error (.keyTooLarge size)) ∨
      (∃ reason, outcome.result = .error (.keyUnreadable reason)) ∨
        ∃ bits expected, outcome.result = .error (.keySize bits expected)
  keyTooLarge_iff : ∀ size, outcome.result = .error (.keyTooLarge size) ↔
    800 < key.bytes.length ∧ size = key.bytes.length
  one_iff : outcome.events.length = 1 ↔
    ∃ e, outcome.result = .error (.openTarget path e) ∨
      outcome.result = .error (.readTarget path e)
  two_iff : outcome.events.length = 2 ↔
    ∃ reason, outcome.result = .error (.invalidPath reason)
  three_iff : outcome.events.length = 3 ↔
    (∃ sidecar e, path.signaturePath = .ok sidecar ∧
      (outcome.result = .error (.openSignature sidecar e) ∨
        outcome.result = .error (.readSignature sidecar e))) ∨
    (∃ expected read, outcome.result = .error (.signatureLength expected read)) ∨
    outcome.result = .error .signatureMismatch ∨
    ∃ reason, outcome.result = .error (.crypto reason)
  four_iff : outcome.events.length = 4 ↔ outcome.result = .ok ()
  of_mismatch : outcome.result = .error .signatureMismatch →
    ∃ publicKey content sidecar signature, key.usableKey = .ok publicKey ∧
      opener path = .ok (.file content) ∧ path.signaturePath = .ok sidecar ∧
      opener sidecar = .ok (.file signature.bytes) ∧
      publicKey.accepts (Sha256.digest content) signature = false

/-- Each course of a check names the first stage that fails. -/
theorem Course.tellsStage (h : Course opener key path outcome) :
    TellsStage opener key path outcome := by
  have hlength := h.length_events
  obtain ⟨digest, sidecar, hprefix, hdigest, hsidecar⟩ := h.prefix_stages
  refine ⟨⟨digest, sidecar, hprefix, hprefix.map Event.message, hdigest, hsidecar⟩, ?_, ?_,
    h.keyTooLarge_iff, ?_, ?_, ?_, ?_, h.of_mismatch⟩
  · intro event hevent
    have hmem := hprefix.subset hevent
    simp only [stages, List.mem_cons, List.not_mem_nil, or_false] at hmem
    obtain rfl | rfl | rfl | rfl := hmem <;> rfl
  · rw [hlength]
    cases hresult : outcome.result with
    | ok => simp [reached]
    | error failure => cases failure <;> simp [reached, Failure.stage]
  · constructor
    · exact h.result_of_one
    · rintro ⟨e, hresult | hresult⟩ <;> rw [hlength, hresult] <;> rfl
  · rw [hlength]
    cases hresult : outcome.result with
    | ok => simp [reached]
    | error failure => cases failure <;> simp [reached, Failure.stage]
  · constructor
    · intro hthree
      obtain hread | hsize | hmismatch := h.result_of_three hthree
      · exact Or.inl hread
      · exact Or.inr (Or.inl hsize)
      · exact Or.inr (Or.inr (Or.inl hmismatch))
    · rw [hlength]
      rintro (⟨_, _, -, hresult | hresult⟩ | ⟨_, _, hresult⟩ | hresult | ⟨_, hresult⟩) <;>
        rw [hresult] <;> rfl
  · rw [hlength]
    cases hresult : outcome.result with
    | ok => simp [reached]
    | error failure => cases failure <;> simp [reached, Failure.stage]

/-! ## Verifications -/

/-- A verification is ok exactly if the check has passed. -/
theorem isOk_verify_iff :
    (verify opener key path).2.isOk = true ↔ (check opener key path).result = .ok () := by
  rw [snd_verify]
  cases (check opener key path).result with
  | ok => simp [Verification.ofResult, Verification.isOk]
  | error failure => simp [Verification.ofResult, Verification.isOk]

/-- It records the failure of the check, and no other. -/
theorem failure?_verify_iff {failure : Failure} :
    (verify opener key path).2.failure? = some failure ↔
      (check opener key path).result = .error failure := by
  rw [snd_verify]
  cases (check opener key path).result with
  | ok => simp [Verification.ofResult]
  | error => simp [Verification.ofResult]

/-- Its kind is that of the failure. -/
theorem kind?_verify_iff {kind : FailureKind} :
    (verify opener key path).2.kind? = some kind ↔
      ∃ failure, (check opener key path).result = .error failure ∧ failure.kind = kind := by
  simp only [Verification.kind?, Option.map_eq_some_iff, failure?_verify_iff]

/-- Its diagnostic is the message of the failure. -/
theorem diagnostic_verify {failure : Failure}
    (h : (check opener key path).result = .error failure) :
    (verify opener key path).2.diagnostic = failure.message :=
  Verification.diagnostic_of_failure (failure?_verify_iff.mpr h)

/-- The log of a verification: the events of its check, and the failure if there is one. -/
theorem fst_verify (opener : Opener) (key : KeyResource) (path : Path) :
    (verify opener key path).1 = (check opener key path).events ++
      (verify opener key path).2.failure?.toList.map (Event.failed path) := rfl

theorem fst_verify_of_ok (h : (check opener key path).result = .ok ()) :
    (verify opener key path).1 = (check opener key path).events := by
  rw [fst_verify, snd_verify, h, Verification.ofResult]
  simp

theorem fst_verify_of_error {failure : Failure}
    (h : (check opener key path).result = .error failure) :
    (verify opener key path).1 = (check opener key path).events ++ [.failed path failure] := by
  rw [fst_verify, failure?_verify_iff.mpr h]
  rfl

/-- A log adds nothing but failures to the events of a check. -/
theorem mem_fst_verify_iff {event : Event} (h : event.kind? = none) :
    event ∈ (verify opener key path).1 ↔ event ∈ (check opener key path).events := by
  cases hresult : (check opener key path).result with
  | ok => rw [fst_verify_of_ok hresult]
  | error failure =>
      have hfailed : event ≠ .failed path failure := by
        rintro rfl
        cases h
      simp [fst_verify_of_error hresult, hfailed]

theorem isOwnFault_iff {kind : FailureKind} :
    Event.isOwnFault kind = true ↔ kind = .keyCorruption ∨ kind = .crypto := by
  cases kind <;> decide

/-- Only these faults are logged as errors; other failures are warnings. -/
theorem level_failed (path : Path) (failure : Failure) :
    ((Event.failed path failure).level = .error ↔
        failure.kind = .keyCorruption ∨ failure.kind = .crypto) ∧
      ((Event.failed path failure).level = .warn ↔
        ¬ (failure.kind = .keyCorruption ∨ failure.kind = .crypto)) := by
  rw [← isOwnFault_iff, Event.level]
  split
  · next hown => simp [hown]
  · next hown => simp [hown]

/-- **The trace of a check** tells the stage that failed, and the record of a
verification holds that failure and no other: it is the one failure recorded, its class
and its message are those recorded, and the one event more than those of the check is for
it, an error if the fault is the verifier's own, else a warning. -/
theorem check_tells_stage (opener : Opener) (key : KeyResource) (path : Path) :
    TellsStage opener key path (check opener key path) ∧
      ((verify opener key path).2.isOk = true ↔ (check opener key path).result = .ok ()) ∧
      (∀ failure, (verify opener key path).2.failure? = some failure ↔
        (check opener key path).result = .error failure) ∧
      ((check opener key path).result = .ok () →
        (verify opener key path).1 = (check opener key path).events ∧
          (verify opener key path).2.failure? = none ∧
          (verify opener key path).2.kind? = none ∧
          (verify opener key path).2.diagnostic = "") ∧
      ∀ failure, (check opener key path).result = .error failure →
        (verify opener key path).2.failure? = some failure ∧
        (verify opener key path).2.kind? = some failure.kind ∧
        (verify opener key path).2.diagnostic = failure.message ∧
        ∃ event, (verify opener key path).1 = (check opener key path).events ++ [event] ∧
          event = .failed path failure ∧ event.kind? = some failure.kind ∧
          (event.level = .error ↔ failure.kind = .keyCorruption ∨ failure.kind = .crypto) ∧
          (event.level = .warn ↔ ¬ (failure.kind = .keyCorruption ∨ failure.kind = .crypto)) := by
  refine ⟨(check_course opener key path).tellsStage, isOk_verify_iff, fun _ => failure?_verify_iff,
    ?_, ?_⟩
  · intro hpass
    have hrecord : (verify opener key path).2 = .ofResult (.ok ()) := by rw [snd_verify, hpass]
    rw [hrecord]
    exact ⟨fst_verify_of_ok hpass, rfl, rfl, rfl⟩
  · intro failure hfailure
    obtain ⟨herror, hwarn⟩ := level_failed path failure
    exact ⟨failure?_verify_iff.mpr hfailure, kind?_verify_iff.mpr ⟨failure, hfailure, rfl⟩,
      diagnostic_verify hfailure, _, fst_verify_of_error hfailure, rfl, rfl, herror, hwarn⟩

end Sidecar
