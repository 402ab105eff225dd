import Sidecar.Proofs.Failure
import Sidecar.Proofs.FileTree
import Sidecar.Proofs.SignaturePath
import Sidecar.Proofs.Signing
import Sidecar.Proofs.Trace

/-!
# Sidecar.Proofs.IoFailure

Failures that come from the system, in a tree of files. Two paths are looked up, the
target's and its signature's, and each can lead nowhere or to a directory: which of the
four it was, the failure of a check tells with the path and the system's number
(`check_io_failure`). Only a path with a NUL in it fails without a number. That is the
target's, since the signature's has a NUL only if the target's has one
(`Path.nul_not_mem_signaturePath`).
-/

namespace Sidecar

/-! ## Where a check fails -/

namespace Course

variable {opener : Opener} {key : KeyResource} {publicKey : PublicKey} {path p : Path}
  {outcome : Traced Failure Unit} {e : IoError}

/-- The target cannot be opened exactly if the opener says so of the path. -/
theorem openTarget_iff (h : Course opener key path outcome) (hkey : key.usableKey = .ok publicKey) :
    outcome.result = .error (.openTarget p e) ↔ p = path ∧ opener path = .error e := by
  rw [← hashFile_eq_openTarget_iff, h.hashFile_eq_error_iff hkey]
  simp [Failure.stage]

/-- The target cannot be read exactly if reading its handle breaks off. -/
theorem readTarget_iff (h : Course opener key path outcome) (hkey : key.usableKey = .ok publicKey) :
    outcome.result = .error (.readTarget p e) ↔
      p = path ∧ ∃ reading, opener path = .ok (.unreadable reading) ∧ reading.error = e := by
  rw [← hashFile_eq_readTarget_iff, h.hashFile_eq_error_iff hkey]
  simp [Failure.stage]

/-- The signature cannot be opened exactly if the opener says so of the signature's path, the
target having been hashed. -/
theorem openSignature_iff (h : Course opener key path outcome)
    (hkey : key.usableKey = .ok publicKey) :
    outcome.result = .error (.openSignature p e) ↔
      (∃ digest, hashFile opener path = .ok digest) ∧ path.signaturePath = .ok p ∧
        opener p = .error e := by
  have hresult := @readSignature_eq_error_iff _ _ _ _ _ h hkey (.openSignature p e)
  simpa [Failure.stage, readSignature_eq_openSignature_iff] using hresult.symm

/-- The signature cannot be read exactly if reading its handle breaks off before a chunk is
full. -/
theorem readSignature_iff (h : Course opener key path outcome)
    (hkey : key.usableKey = .ok publicKey) :
    outcome.result = .error (.readSignature p e) ↔
      (∃ digest, hashFile opener path = .ok digest) ∧ path.signaturePath = .ok p ∧
        ∃ reading, opener p = .ok (.unreadable reading) ∧ reading.error = e ∧
          reading.front.length < chunkSize := by
  have hresult := @readSignature_eq_error_iff _ _ _ _ _ h hkey (.readSignature p e)
  simpa [Failure.stage, readSignature_eq_readSignature_iff] using hresult.symm

/-- A failure that comes from the system is that of opening or reading one of two files. -/
theorem of_io (h : Course opener key path outcome) (hkey : key.usableKey = .ok publicKey)
    {failure : Failure} (hresult : outcome.result = .error failure) (hio : failure.kind = .io) :
    ∃ p e, failure.source? = some e ∧ (p = path ∨ path.signaturePath = .ok p) ∧
      (opener p = .error e ∨
        ∃ reading, opener p = .ok (.unreadable reading) ∧ reading.error = e) := by
  cases failure with
  | openTarget p e =>
      obtain ⟨-, hopen⟩ := (h.openTarget_iff hkey).mp hresult
      exact ⟨path, e, rfl, Or.inl rfl, Or.inl hopen⟩
  | readTarget p e =>
      obtain ⟨-, hopen⟩ := (h.readTarget_iff hkey).mp hresult
      exact ⟨path, e, rfl, Or.inl rfl, Or.inr hopen⟩
  | openSignature p e =>
      obtain ⟨-, hplace, hopen⟩ := (h.openSignature_iff hkey).mp hresult
      exact ⟨p, e, rfl, Or.inr hplace, Or.inl hopen⟩
  | readSignature p e =>
      obtain ⟨-, hplace, reading, hopen, herror, -⟩ := (h.readSignature_iff hkey).mp hresult
      exact ⟨p, e, rfl, Or.inr hplace, Or.inr ⟨reading, hopen, herror⟩⟩
  | _ => cases hio

end Course

/-! ## Trees -/

namespace FileTree

variable {t : FileTree} {p : Path} {e : IoError}

/-- Opening or reading at a path without a NUL fails with a number. -/
theorem exists_osCode (hnul : 0 ∉ p.bytes)
    (h : t.opener p = .error e ∨
      ∃ reading, t.opener p = .ok (.unreadable reading) ∧ reading.error = e) :
    ∃ c ∈ [2, 20, 21, 36, 40], e = .os c := by
  obtain hopen | hread := h
  · have hlookup := mem_lookupErrors_of_resolve hnul (opener_eq_error_iff.mp hopen)
    simp only [lookupErrors, List.mem_cons, List.not_mem_nil, or_false] at hlookup
    obtain rfl | rfl | rfl | rfl := hlookup
    · exact ⟨2, by decide, rfl⟩
    · exact ⟨20, by decide, rfl⟩
    · exact ⟨36, by decide, rfl⟩
    · exact ⟨40, by decide, rfl⟩
  · obtain ⟨rfl, -⟩ := exists_unreadable_iff.mp hread
    exact ⟨21, by decide, rfl⟩

end FileTree

/-- What a check in a tree reports of the system: the target leads nowhere or to a
directory, or the target has been hashed and its signature's path leads there. -/
structure ReportsIo (t : FileTree) (key : KeyResource) (path : Path) : Prop where
  openTarget_iff : ∀ p e, (check t.opener key path).result = .error (.openTarget p e) ↔
    p = path ∧ t.resolve path = .error e
  readTarget_iff : ∀ p e, (check t.opener key path).result = .error (.readTarget p e) ↔
    p = path ∧ e = .os 21 ∧ ∃ children, t.resolve path = .ok (.directory children)
  openSignature_iff : ∀ p e, (check t.opener key path).result = .error (.openSignature p e) ↔
    (∃ digest, hashFile t.opener path = .ok digest) ∧ path.signaturePath = .ok p ∧
      t.resolve p = .error e
  readSignature_iff : ∀ p e, (check t.opener key path).result = .error (.readSignature p e) ↔
    (∃ digest, hashFile t.opener path = .ok digest) ∧ path.signaturePath = .ok p ∧
      e = .os 21 ∧ ∃ children, t.resolve p = .ok (.directory children)
  of_nul : 0 ∈ path.bytes → ∃ failure, (check t.opener key path).result = .error failure ∧
    failure = .openTarget path
      (.described "file name contained an unexpected NUL byte" .invalidInput) ∧
    ∃ front, failure.message = front ++ ": " ++ "file name contained an unexpected NUL byte"
  osError?_eq_none_iff : ∀ failure, (check t.opener key path).result = .error failure →
    failure.kind = .io → (failure.osError? = none ↔ 0 ∈ path.bytes)
  of_osError? : ∀ failure, (check t.opener key path).result = .error failure →
    failure.kind = .io → 0 ∉ path.bytes →
      ∃ c ∈ [2, 20, 21, 36, 40], failure.osError? = some c ∧
        ∃ front, failure.message = front ++ ": " ++ toString c

variable {t : FileTree} {key : KeyResource} {publicKey : PublicKey} {path : Path}
  {failure : Failure}

/-- A target's path with a NUL is found not to open before anything else is looked at. -/
theorem check_of_nul (hkey : key.usableKey = .ok publicKey) (hnul : 0 ∈ path.bytes) :
    (check t.opener key path).result =
      .error (.openTarget path
        (.described "file name contained an unexpected NUL byte" .invalidInput)) := by
  have hopen := FileTree.opener_eq_error_iff.mpr (@FileTree.resolve_of_nul t path hnul)
  exact ((check_course t.opener key path).openTarget_iff hkey).mpr ⟨rfl, hopen⟩

/-- Without a NUL in the target's path both paths are looked up, and that fails with a number. -/
theorem exists_osError_of_io (hkey : key.usableKey = .ok publicKey)
    (hresult : (check t.opener key path).result = .error failure) (hio : failure.kind = .io)
    (hnul : 0 ∉ path.bytes) :
    ∃ c ∈ [2, 20, 21, 36, 40], failure.osError? = some c ∧
      ∃ front, failure.message = front ++ ": " ++ toString c := by
  obtain ⟨p, e, hsource, hplace, hopen⟩ := (check_course t.opener key path).of_io hkey hresult hio
  have hnul' : 0 ∉ p.bytes := by
    obtain rfl | hsidecar := hplace
    · exact hnul
    · exact Path.nul_not_mem_signaturePath hsidecar hnul
  obtain ⟨c, hc, rfl⟩ := FileTree.exists_osCode hnul' hopen
  exact ⟨c, hc, Failure.osError?_of_source hsource, Failure.message_of_source hsource⟩

/-- **Failures of the system** are reported with the step, the path and the number: a
check under a usable key that fails for the system's sake tells which of its two paths it
was that leads nowhere, and why, or to a directory. The one failure without a number is
that of a target's path with a NUL in it. No other failure has a number. -/
theorem check_io_failure (hkey : key.usableKey = .ok publicKey) :
    ReportsIo t key path ∧ ∀ failure : Failure, failure.kind ≠ .io → failure.osError? = none := by
  have hcourse := check_course t.opener key path
  refine ⟨⟨?_, ?_, ?_, ?_, ?_, ?_, ?_⟩, fun _ => Failure.osError?_eq_none⟩
  · intro p e
    rw [hcourse.openTarget_iff hkey, FileTree.opener_eq_error_iff]
  · intro p e
    rw [hcourse.readTarget_iff hkey, FileTree.exists_unreadable_iff]
    simp [BrokenReading.directory, eq_comm]
  · intro p e
    rw [hcourse.openSignature_iff hkey, FileTree.opener_eq_error_iff]
  · intro p e
    rw [hcourse.readSignature_iff hkey, FileTree.exists_unreadable_iff]
    simp [BrokenReading.directory, chunkSize, eq_comm]
  · intro hnul
    exact ⟨_, check_of_nul hkey hnul, rfl, exists_append_separator _ ") for reading" _ rfl⟩
  · intro failure hresult hio
    constructor
    · intro hnone
      by_contra hnul
      obtain ⟨c, -, hcode, -⟩ := exists_osError_of_io hkey hresult hio hnul
      rw [hnone] at hcode
      cases hcode
    · intro hnul
      rw [check_of_nul hkey hnul] at hresult
      cases hresult
      rfl
  · intro failure hresult hio hnul
    exact exists_osError_of_io hkey hresult hio hnul

namespace ExampleKey

/-- The file `tool`, and a directory where its signature is looked for. -/
def unsignedTree : FileTree where
  root := [(ascii "tool", .file []),
    (ascii "signatures", .directory [(ascii "tool.sig", .directory [])])]
  workingDirectory := []

theorem resolve_tool : unsignedTree.resolve tool = .ok (.file []) := by
  show unsignedTree.walk .use 40 [] [ascii "tool"] >>= FileTree.Place.entry = _
  rw [FileTree.walk_file (by decide) rfl]
  rfl

/-- A directory stands in the place of its signature. -/
theorem resolve_sidecar : unsignedTree.resolve sidecar = .ok (.directory []) := by
  show unsignedTree.walk .use 40 [] [ascii "signatures", ascii "tool.sig"] >>=
    FileTree.Place.entry = _
  rw [FileTree.walk_directory (by decide) rfl, FileTree.walk_directory (by decide) rfl,
    FileTree.walk]
  rfl

end ExampleKey

theorem check_io_failure_tool :
    (check ExampleKey.unsignedTree.opener ExampleKey.resource ExampleKey.tool).result =
      .error (.readSignature ExampleKey.sidecar (.os 21)) := by
  have hreports := @check_io_failure ExampleKey.unsignedTree _ _ ExampleKey.tool
    ExampleKey.usableKey_resource
  have hopen : ExampleKey.unsignedTree.opener ExampleKey.tool = .ok (.file []) := by
    rw [FileTree.opener_eq_map, ExampleKey.resolve_tool]
    rfl
  exact (hreports.1.readSignature_iff _ _).mpr
    ⟨⟨_, hashFile_file hopen⟩, ExampleKey.signaturePath_tool, rfl, _, ExampleKey.resolve_sidecar⟩

end Sidecar
