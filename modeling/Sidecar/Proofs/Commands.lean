import Sidecar.Program
import Sidecar.Proofs.InvalidPath
import Sidecar.Proofs.Signing

/-!
# Sidecar.Proofs.Commands

What the commands for the key, a hash and a signature's path say of a
verification of the same file. Each of them takes one stage of it, and fails
exactly if the verification ends there (`Course.usableKey_eq_error_iff`,
`Course.hashFile_eq_error_iff`); else what it prints is what the verification logs
of that stage.
-/

namespace Sidecar.Program

variable {opener : Opener} {key : KeyResource} {path : Path}

/-! ## Reports of the commands -/

theorem runKeyInfo_of_error {failure : Failure} (h : key.usableKey = .error failure) :
    runKeyInfo key =
      ⟨1, "size: " ++ toString key.bytes.length ++ " bytes (limit 800)\n" ++
        "status: unusable: " ++ failure.message ++ "\n", ""⟩ := by
  have hlimit : toString KeyResource.maxSize = "800" := by decide
  simp [runKeyInfo, h, hlimit, KeyResource.size, String.append_assoc]

/-- `key-info` succeeds on the keys that can be used. -/
theorem keyInfo_succeeds_iff :
    (runKeyInfo key).exitCode = 0 ↔ ∃ publicKey, key.usableKey = .ok publicKey := by
  rw [runKeyInfo]
  cases key.usableKey with
  | ok => simp
  | error => simp

theorem keyInfo_fails_iff :
    (runKeyInfo key).exitCode = 1 ↔ ∃ failure, key.usableKey = .error failure := by
  rw [runKeyInfo]
  cases key.usableKey with
  | ok => simp
  | error => simp

/-- The report on the hash of one file. -/
theorem runHash_singleton (opener : Opener) (path : Path) :
    runHash opener "" [path] =
      match hashFile opener path with
      | .ok digest => ⟨0, digest.hex ++ "  " ++ path.display ++ "\n", ""⟩
      | .error failure => ⟨1, "", errorText failure.message failure.source?⟩ := by
  rw [runHash]
  cases hashFile opener path with
  | ok => simp [runHash]
  | error => rfl

/-- Hashing files succeeds if each of them can be hashed, whatever is printed before. -/
theorem runHash_succeeds_iff {printed : String} {files : List Path} :
    (runHash opener printed files).exitCode = 0 ↔
      ∀ file ∈ files, ∃ digest, hashFile opener file = .ok digest := by
  induction files generalizing printed with
  | nil => simp [runHash]
  | cons file files ih =>
      rw [runHash, List.forall_mem_cons]
      cases hashFile opener file with
      | ok => simp [ih]
      | error => simp [Report.failed]

/-- `hash` succeeds on a file that can be hashed. -/
theorem hash_succeeds_iff :
    (runHash opener "" [path]).exitCode = 0 ↔ ∃ digest, hashFile opener path = .ok digest := by
  rw [runHash_succeeds_iff, List.forall_mem_singleton]

theorem hash_fails_iff :
    (runHash opener "" [path]).exitCode = 1 ↔
      ∃ failure, hashFile opener path = .error failure := by
  rw [runHash_singleton]
  cases hashFile opener path with
  | ok => simp
  | error => simp

/-- A signature's path is printed if there is one. -/
theorem place_succeeds_iff :
    (runSignaturePath path).exitCode = 0 ↔ ∃ sidecar, path.signaturePath = .ok sidecar := by
  rw [runSignaturePath]
  cases path.signaturePath with
  | ok => simp
  | error => simp [Report.failed]

/-! ## What the reports foretell -/

/-- What the report on a key says of a verification under that key: whether it fails
for the key, and then with which diagnostic. -/
structure KeyForetold (key : KeyResource) (report : Report) (record : Verification) : Prop where
  fails_iff : report.exitCode = 1 ↔ record.kind? = some .keyCorruption
  succeeds_iff : report.exitCode = 0 ↔ record.kind? ≠ some .keyCorruption
  stdout_of_fails : report.exitCode = 1 →
    report.stdout = "size: " ++ toString key.bytes.length ++ " bytes (limit 800)\n" ++
      "status: unusable: " ++ record.diagnostic ++ "\n"

/-- What the report on a file's hash says of a verification of that file under a
usable key: whether it fails for the file, and then with which diagnostic, and else
which hash it logs. -/
structure HashForetold (path : Path) (report : Report) (log : List Event)
    (record : Verification) : Prop where
  fails_iff : report.exitCode = 1 ↔
    ∃ p e, record.failure? = some (.openTarget p e) ∨ record.failure? = some (.readTarget p e)
  succeeds_iff : report.exitCode = 0 ↔
    ¬ ∃ p e, record.failure? = some (.openTarget p e) ∨ record.failure? = some (.readTarget p e)
  of_fails : report.exitCode = 1 →
    ∃ e, (record.failure? = some (.openTarget path e) ∨
        record.failure? = some (.readTarget path e)) ∧
      report = ⟨1, "", errorText record.diagnostic (some e)⟩
  of_succeeds : report.exitCode = 0 →
    ∃ digest, report = ⟨0, digest.hex ++ "  " ++ path.display ++ "\n", ""⟩ ∧
      ∀ p d, .hashed p d ∈ log ↔ p = path ∧ d = digest

/-- What the report on the path of a file's signature says of a verification that
comes to that signature: which file it reads. -/
def PlaceForetold (path : Path) (report : Report) (log : List Event)
    (record : Verification) : Prop :=
  ∃ sidecar, path.signaturePath = .ok sidecar ∧ report = ⟨0, sidecar.display ++ "\n", ""⟩ ∧
    (∀ p, .readingSignature p ∈ log ↔ p = sidecar) ∧
    ∀ p e, record.failure? = some (.openSignature p e) ∨
      record.failure? = some (.readSignature p e) → p = sidecar

/-- `key-info` foretells whether a verification fails for its key, and how. -/
theorem keyForetold (opener : Opener) (key : KeyResource) (path : Path) :
    KeyForetold key (runKeyInfo key) (verify opener key path).2 := by
  have hcourse := check_course opener key path
  have hfails : (runKeyInfo key).exitCode = 1 ↔
      (verify opener key path).2.kind? = some .keyCorruption := by
    simp only [keyInfo_fails_iff, hcourse.usableKey_eq_error_iff, Failure.stage_eq_zero_iff,
      kind?_verify_iff]
  refine ⟨hfails, ?_, ?_⟩
  · rw [ne_eq, ← hfails, keyInfo_succeeds_iff, keyInfo_fails_iff, exists_eq_ok_iff]
  · intro hexit
    obtain ⟨failure, hkey⟩ := keyInfo_fails_iff.mp hexit
    rw [diagnostic_verify (hcourse.usableKey_eq_error_iff.mp hkey).1, runKeyInfo_of_error hkey]

/-- With a usable key, `hash` foretells the failure for the target, or the digest in the log. -/
theorem hashForetold {publicKey : PublicKey} (hkey : key.usableKey = .ok publicKey) :
    HashForetold path (runHash opener "" [path]) (verify opener key path).1
      (verify opener key path).2 := by
  have hcourse := check_course opener key path
  have hfails : (runHash opener "" [path]).exitCode = 1 ↔
      ∃ p e, (verify opener key path).2.failure? = some (.openTarget p e) ∨
        (verify opener key path).2.failure? = some (.readTarget p e) := by
    simp only [hash_fails_iff, hcourse.hashFile_eq_error_iff hkey, Failure.stage_eq_one_iff,
      failure?_verify_iff]
    grind
  refine ⟨hfails, ?_, ?_, ?_⟩
  · rw [← hfails, hash_succeeds_iff, hash_fails_iff, exists_eq_ok_iff]
  · intro hexit
    obtain ⟨failure, htarget⟩ := hash_fails_iff.mp hexit
    have hresult := (hcourse.hashFile_eq_error_iff hkey).mp htarget |>.1
    rw [runHash_singleton, htarget, diagnostic_verify hresult, failure?_verify_iff.mpr hresult]
    obtain ⟨e, rfl | rfl⟩ := exists_of_hashFile_eq_error htarget
    · exact ⟨e, Or.inl rfl, rfl⟩
    · exact ⟨e, Or.inr rfl, rfl⟩
  · intro hexit
    obtain ⟨digest, hdigest⟩ := hash_succeeds_iff.mp hexit
    refine ⟨digest, ?_, ?_⟩
    · rw [runHash_singleton, hdigest]
    · intro p d
      rw [mem_fst_verify_iff rfl, hcourse.hashed_mem_iff hkey hdigest]

/-- With a hash as well, `sig-path` foretells the signature file in the log, and what is opened
after it. -/
theorem placeForetold {publicKey : PublicKey} {digest : Sha256.Digest} {sidecar : Path}
    (hkey : key.usableKey = .ok publicKey) (hdigest : hashFile opener path = .ok digest)
    (hplace : path.signaturePath = .ok sidecar) :
    PlaceForetold path (runSignaturePath path) (verify opener key path).1
      (verify opener key path).2 := by
  have hcourse := check_course opener key path
  refine ⟨sidecar, hplace, ?_, ?_, ?_⟩
  · rw [runSignaturePath, hplace]
  · intro p
    rw [mem_fst_verify_iff rfl, hcourse.readingSignature_mem_iff hkey hdigest hplace]
  · intro p e hfailed
    simp only [failure?_verify_iff] at hfailed
    have hp := hcourse.signaturePath_of_signature hfailed
    rw [hplace] at hp
    exact (Except.ok.inj hp).symm

/-- **The commands foretell a verification**: the report on the key says whether it
fails for the key; under a usable key that on the hash says whether it fails for the
target; and with both at hand that on the signature's path says which file it reads, where
it gives one. It does wherever dots and the root are directories, as in every tree: what
opens to a file there has a file name, so it has a signature's path. -/
theorem commands_foretell_verify (key : KeyResource) (path : Path) (quiet : Bool) :
    (∀ opener : Opener,
      let log := (verify opener key path).1
      let record := (verify opener key path).2
      let keyInfo := runCommand opener key quiet .keyInfo
      let hash := runCommand opener key quiet (.hash [path])
      let place := runCommand opener key quiet (.signaturePath path)
      KeyForetold key keyInfo record ∧
      (keyInfo.exitCode = 0 → HashForetold path hash log record ∧
        (hash.exitCode = 0 → place.exitCode = 0 ∨ DotsAreDirectories opener →
          PlaceForetold path place log record))) ∧
    ∀ t : FileTree, DotsAreDirectories t.opener := by
  refine ⟨?_, FileTree.dotsAreDirectories⟩
  intro opener log record keyInfo hash place
  refine ⟨keyForetold opener key path, ?_⟩
  intro hkeyInfo
  obtain ⟨publicKey, hkey⟩ := keyInfo_succeeds_iff.mp hkeyInfo
  refine ⟨hashForetold hkey, ?_⟩
  intro hhash hplace
  obtain ⟨digest, hdigest⟩ := hash_succeeds_iff.mp hhash
  obtain ⟨content, hcontent, -⟩ := hashFile_eq_ok_iff.mp hdigest
  have hsidecar : ∃ sidecar, path.signaturePath = .ok sidecar := by
    obtain hgiven | hdots := hplace
    · exact place_succeeds_iff.mp hgiven
    · exact hdots.exists_signaturePath hcontent
  obtain ⟨sidecar, hsidecar⟩ := hsidecar
  exact placeForetold hkey hdigest hsidecar

/-- Where every name is that of an empty file, the place of a signature is foretold. -/
theorem commands_foretell_verify_emptyFiles :
    PlaceForetold ExampleKey.tool
      (runCommand emptyFiles ExampleKey.resource false (.signaturePath ExampleKey.tool))
      (verify emptyFiles ExampleKey.resource ExampleKey.tool).1
      (verify emptyFiles ExampleKey.resource ExampleKey.tool).2 := by
  have htool : emptyFiles ExampleKey.tool = .ok (.file []) := rfl
  have hforetold :=
    (commands_foretell_verify ExampleKey.resource ExampleKey.tool false).1 emptyFiles
  have hkey := keyInfo_succeeds_iff.mpr ⟨_, ExampleKey.usableKey_resource⟩
  have hhash := hash_succeeds_iff.mpr ⟨_, hashFile_file htool⟩
  exact (hforetold.2 hkey).2 hhash (Or.inr dotsAreDirectories_emptyFiles)

end Sidecar.Program
