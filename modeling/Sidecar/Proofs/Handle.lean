import Sidecar.Handle
import Sidecar.Proofs.Outcome
import Sidecar.Proofs.Reader

/-!
# Sidecar.Proofs.Handle

What reading the files of a verification gives, from what opening them gives:
a target's hash is that of its whole content (`hashFile_eq_ok_iff`), in whatever
pieces it is read (`Reader.hashed_ofSteps`), and a signature is the whole content of
its file or none of it (`readSignature_file`).
-/

namespace Sidecar

/-! ## Hashes -/

theorem Handle.digest_file (content : List UInt8) :
    (Handle.file content).digest = .ok (Sha256.digest content) := Reader.digest_data content

/-- The failure that lasts ends the hashing: it is not one that a read is repeated for. -/
theorem Handle.digest_unreadable (reading : BrokenReading) :
    (Handle.unreadable reading).digest = .error reading.error := by
  obtain ⟨front, error, lasting⟩ := reading
  cases front with
  | nil => exact @Reader.digest_of_lasting [] error lasting (by simp)
  | cons b bs => exact @Reader.digest_of_lasting [.data (b :: bs)] error lasting (by simp)

/-- Hashing a file gives the digest of its content. -/
theorem hashFile_file {opener : Opener} {path : Path} {content : List UInt8}
    (h : opener path = .ok (.file content)) :
    hashFile opener path = .ok (Sha256.digest content) := by
  rw [hashFile, h]
  dsimp only
  rw [Handle.digest_file]
  rfl

/-- A path that does not open is not hashed. -/
theorem hashFile_of_error {opener : Opener} {path : Path} {e : IoError}
    (h : opener path = .error e) : hashFile opener path = .error (.openTarget path e) := by
  rw [hashFile, h]

/-- A target whose reading breaks off has no hash, whatever was handed out before. -/
theorem hashFile_unreadable {opener : Opener} {path : Path} {reading : BrokenReading}
    (h : opener path = .ok (.unreadable reading)) :
    hashFile opener path = .error (.readTarget path reading.error) := by
  rw [hashFile, h]
  dsimp only
  rw [Handle.digest_unreadable]
  rfl

/-- A target has a hash if it opens and reads to its end. -/
theorem hashFile_eq_ok_iff {opener : Opener} {path : Path} {d : Sha256.Digest} :
    hashFile opener path = .ok d ↔
      ∃ content, opener path = .ok (.file content) ∧ Sha256.digest content = d := by
  constructor
  · intro h
    cases hopen : opener path with
    | error e => simp [hashFile_of_error hopen] at h
    | ok handle =>
        cases handle with
        | file content =>
            rw [hashFile_file hopen] at h
            exact ⟨content, rfl, Except.ok.inj h⟩
        | unreadable reading => simp [hashFile_unreadable hopen] at h
  · rintro ⟨content, hopen, rfl⟩
    exact hashFile_file hopen

/-- **Streams**: hashing a reader takes its steps up to the first that is an empty
read or a failure other than an interruption, and leaves those after it alone. That
failure is the result, and else the hash of all bytes handed out until then. Each
piece takes as many reads as it has chunks, each interruption one more, and so does
the end. What is interrupted, where and how often does not change the result; and the
hash of a file that can be read is that of its content. -/
theorem Reader.hashed_ofSteps (steps : List ReadStep) :
    (let taken := steps.takeWhile ReadStep.continues
      let left := steps.dropWhile ReadStep.continues
      (ofSteps steps).hashed = {
        result := match left with
          | .fail e :: _ => .error e
          | _ => .ok (Sha256.digest (taken.flatMap ReadStep.bytes))
        reads := (taken.map fun step => (step.bytes.length + 65535) / 65536).sum +
          taken.countP ReadStep.isInterruption + 1
        rest := ofSteps left.tail }) ∧
    (ofSteps (steps.filter fun step => !step.isInterruption)).hashed.result =
      (ofSteps steps).hashed.result ∧
    ∀ (opener : Opener) (path : Path) (content : List UInt8),
      opener path = .ok (.file content) →
        hashFile opener path = .ok (Sha256.digest content) := by
  refine ⟨?_, ?_, fun _ _ _ => hashFile_file⟩
  · intro taken left
    simp only [hashed_eq_hashedAt, sum_map_reads, readsOf_eq]
    rw [hashedAt.eq_def]
    split <;> simp_all [taken, left]
  · simp only [hashed, Sha256.Hasher.empty_eq_ofMessage, result_hashInto_filter [] 0 0 steps]

/-- A target has no hash if it does not open, or opens and cannot be read. -/
theorem hashFile_eq_error_iff {opener : Opener} {path : Path} {failure : Failure} :
    hashFile opener path = .error failure ↔
      (∃ e, failure = .openTarget path e ∧ opener path = .error e) ∨
        ∃ reading, failure = .readTarget path reading.error ∧
          opener path = .ok (.unreadable reading) := by
  cases hopen : opener path with
  | error e => simp [hashFile_of_error hopen, eq_comm]
  | ok handle =>
      cases handle with
      | file content => simp [hashFile_file hopen]
      | unreadable reading => simp [hashFile_unreadable hopen, eq_comm]

/-- Hashing fails to open the path if the opener does. -/
theorem hashFile_eq_openTarget_iff {opener : Opener} {path p : Path} {e : IoError} :
    hashFile opener path = .error (.openTarget p e) ↔ p = path ∧ opener path = .error e := by
  rw [hashFile_eq_error_iff]
  simp [and_assoc]

/-- Hashing fails to read the path if reading its handle breaks off. -/
theorem hashFile_eq_readTarget_iff {opener : Opener} {path p : Path} {e : IoError} :
    hashFile opener path = .error (.readTarget p e) ↔
      p = path ∧ ∃ reading, opener path = .ok (.unreadable reading) ∧ reading.error = e := by
  rw [hashFile_eq_error_iff]
  grind

/-- What keeps a target from having a hash names that target. -/
theorem exists_of_hashFile_eq_error {opener : Opener} {path : Path} {failure : Failure}
    (h : hashFile opener path = .error failure) :
    ∃ e, failure = .openTarget path e ∨ failure = .readTarget path e := by
  obtain ⟨e, hfailure, -⟩ | ⟨reading, hfailure, -⟩ := hashFile_eq_error_iff.mp h
  · exact ⟨e, Or.inl hfailure⟩
  · exact ⟨reading.error, Or.inr hfailure⟩

/-! ## Signatures -/

/-- One chunk is enough to tell every other length from that of a signature: it is
longer than a signature, so a file that is too long is never cut to one. -/
theorem readSignature_file {opener : Opener} {path : Path} {content : List UInt8}
    (h : opener path = .ok (.file content)) :
    readSignature opener path =
      if hlength : content.length = signatureLength then .ok ⟨content, hlength⟩
      else .error (.signatureLength signatureLength (min content.length chunkSize)) := by
  have hread : readSignature opener path = Signature.ofBytes (content.take chunkSize) := by
    rw [readSignature, h]
    rfl
  rw [hread, Signature.ofBytes]
  by_cases hlength : content.length = signatureLength
  · have htake : content.take chunkSize = content := by
      rw [List.take_of_length_le]
      rw [hlength]
      decide
    simp only [htake]
    rw [dif_pos hlength, dif_pos hlength]
  · have htake : ¬ (content.take chunkSize).length = signatureLength := by
      rw [List.length_take]
      simp only [signatureLength, chunkSize] at hlength ⊢
      omega
    rw [dif_neg htake, dif_neg hlength, List.length_take, Nat.min_comm]

/-- A signature of another length is told by its length, or by that of a chunk where it is
longer. -/
theorem readSignature_of_length_ne {opener : Opener} {path : Path} {content : List UInt8}
    (h : opener path = .ok (.file content)) (hlength : content.length ≠ signatureLength) :
    readSignature opener path =
      .error (.signatureLength signatureLength (min content.length chunkSize)) := by
  rw [readSignature_file h, dif_neg hlength]

/-- Of a file that fits into one chunk, what is read is the content. -/
theorem readSignature_of_length_le {opener : Opener} {path : Path} {content : List UInt8}
    (h : opener path = .ok (.file content)) (hlength : content.length ≤ chunkSize) :
    readSignature opener path = Signature.ofBytes content := by
  rw [readSignature, h]
  show Signature.ofBytes (content.take chunkSize) = Signature.ofBytes content
  rw [List.take_of_length_le hlength]

theorem readSignature_of_error {opener : Opener} {path : Path} {e : IoError}
    (h : opener path = .error e) : readSignature opener path = .error (.openSignature path e) := by
  rw [readSignature, h]

/-- A reading that breaks off within the one chunk that is read gives no signature, and
one that breaks off later has given too much for one. -/
theorem readSignature_unreadable {opener : Opener} {path : Path} {reading : BrokenReading}
    (h : opener path = .ok (.unreadable reading)) :
    readSignature opener path =
      if reading.front.length < chunkSize then .error (.readSignature path reading.error)
      else .error (.signatureLength signatureLength chunkSize) := by
  rw [readSignature, h]
  dsimp only [Handle.readUpTo]
  by_cases hfront : reading.front.length < chunkSize
  · rw [if_pos hfront, if_pos hfront]
  · have htake : (reading.front.take chunkSize).length = chunkSize := by
      rw [List.length_take]
      omega
    rw [if_neg hfront, if_neg hfront]
    dsimp only
    rw [Signature.ofBytes, dif_neg (by rw [htake]; decide), htake]

/-- A signature is the whole content of its file. -/
theorem readSignature_eq_ok_iff {opener : Opener} {path : Path} {s : Signature} :
    readSignature opener path = .ok s ↔ opener path = .ok (.file s.bytes) := by
  constructor
  · intro h
    cases hopen : opener path with
    | error e => simp [readSignature_of_error hopen] at h
    | ok handle =>
        cases handle with
        | file content =>
            rw [readSignature_file hopen] at h
            split at h
            · cases h
              rfl
            · cases h
        | unreadable reading =>
            rw [readSignature_unreadable hopen] at h
            split at h <;> cases h
  · intro hopen
    rw [readSignature_file hopen, dif_pos s.length_bytes]

/-- A file is no signature if it does not open, opens and cannot be read, or has
another length, as far as it is read. -/
theorem readSignature_eq_error_iff {opener : Opener} {path : Path} {failure : Failure} :
    readSignature opener path = .error failure ↔
      (∃ e, failure = .openSignature path e ∧ opener path = .error e) ∨
      (∃ reading, failure = .readSignature path reading.error ∧
        opener path = .ok (.unreadable reading) ∧ reading.front.length < chunkSize) ∨
      ∃ content, (opener path = .ok (.file content) ∨
          ∃ reading, opener path = .ok (.unreadable reading) ∧ reading.front = content ∧
            chunkSize ≤ content.length) ∧
        content.length ≠ signatureLength ∧
          failure = .signatureLength signatureLength (min content.length chunkSize) := by
  cases hopen : opener path with
  | error e => simp [readSignature_of_error hopen, eq_comm]
  | ok handle =>
      cases handle with
      | unreadable reading =>
          rw [readSignature_unreadable hopen]
          by_cases hfront : reading.front.length < chunkSize
          · rw [if_pos hfront, Except.error.injEq]
            constructor
            · rintro rfl
              exact Or.inr (Or.inl ⟨reading, rfl, rfl, hfront⟩)
            · rintro (⟨e, -, h⟩ | ⟨_, rfl, h, -⟩ | ⟨_, h | ⟨_, h, rfl, hlong⟩, -⟩)
              · cases h
              · cases h
                rfl
              · cases h
              · cases h
                exact absurd hfront (Nat.not_lt.mpr hlong)
          · have hlong : chunkSize ≤ reading.front.length := Nat.le_of_not_lt hfront
            have hne : reading.front.length ≠ signatureLength :=
              Nat.ne_of_gt (Nat.lt_of_lt_of_le (by decide) hlong)
            rw [if_neg hfront, Except.error.injEq]
            constructor
            · rintro rfl
              exact Or.inr (Or.inr ⟨reading.front, Or.inr ⟨reading, rfl, rfl, hlong⟩, hne,
                by rw [Nat.min_eq_right hlong]⟩)
            · rintro (⟨e, -, h⟩ | ⟨_, -, h, hshort⟩ | ⟨_, h | ⟨_, h, rfl, -⟩, -, rfl⟩)
              · cases h
              · cases h
                exact absurd hshort hfront
              · cases h
              · cases h
                rw [Nat.min_eq_right hlong]
      | file content =>
          rw [readSignature_file hopen]
          split
          · next hlength => simp [hlength]
          · next hlength => simp [hlength, @eq_comm _ failure]

/-- Reading a signature fails to open it if the opener does. -/
theorem readSignature_eq_openSignature_iff {opener : Opener} {path p : Path} {e : IoError} :
    readSignature opener path = .error (.openSignature p e) ↔
      p = path ∧ opener path = .error e := by
  rw [readSignature_eq_error_iff]
  simp [and_assoc]

/-- Reading a signature breaks off if its handle does so before a chunk is full. -/
theorem readSignature_eq_readSignature_iff {opener : Opener} {path p : Path} {e : IoError} :
    readSignature opener path = .error (.readSignature p e) ↔
      p = path ∧ ∃ reading, opener path = .ok (.unreadable reading) ∧ reading.error = e ∧
        reading.front.length < chunkSize := by
  rw [readSignature_eq_error_iff]
  grind

/-- What keeps a file from being a signature names that file, or is its length. -/
theorem exists_of_readSignature_eq_error {opener : Opener} {path : Path} {failure : Failure}
    (h : readSignature opener path = .error failure) :
    (∃ e, failure = .openSignature path e ∨ failure = .readSignature path e) ∨
      ∃ expected read, failure = .signatureLength expected read := by
  obtain ⟨e, hfailure, -⟩ | ⟨reading, hfailure, -⟩ | ⟨content, -, -, hfailure⟩ :=
    readSignature_eq_error_iff.mp h
  · exact Or.inl ⟨e, Or.inl hfailure⟩
  · exact Or.inl ⟨reading.error, Or.inr hfailure⟩
  · exact Or.inr ⟨_, _, hfailure⟩

end Sidecar
