import Sidecar.Proofs.Commands
import Sidecar.Proofs.Inputs
import Sidecar.Proofs.Program

/-!
# Sidecar.Proofs.ExitStatus

The exit code of every run (`run_exit_status`). Unusable arguments are told from all
that happens later by a code of their own; a run that comes to its command exits with
zero exactly if the command did all that it was asked to do (`runCommand_succeeds_iff`).
A key that cannot be read ends the run before the command is looked at, and a key that
can be read has no part in the commands that need none.
-/

namespace Sidecar.Program

open CommandLine

variable {build : Build} {opener opener' : Opener} {key : KeyResource}

/-! ## Commands -/

/-- Whether a command does all that it is asked to do: every file passes, every file is
hashed, the path has a file name, the key can be used. -/
def Succeeds (opener : Opener) (key : KeyResource) : Command → Prop
  | .verify paths => ∀ path ∈ paths, (check opener key path).result = .ok ()
  | .signaturePath path => path.fileName? ≠ none
  | .hash files => ∀ file ∈ files, ∃ content, opener file = .ok (.file content)
  | .keyInfo => ∃ publicKey, key.usableKey = .ok publicKey

theorem signaturePath_succeeds_iff {path : Path} :
    (runSignaturePath path).exitCode = 0 ↔ path.fileName? ≠ none := by
  rw [place_succeeds_iff, Path.signaturePath]
  cases path.fileName? with
  | none => simp
  | some name => simp

/-- Each command succeeds under its own condition, with a key in hand. -/
theorem runCommand_succeeds_iff {quiet : Bool} {command : Command} :
    (runCommand opener key quiet command).exitCode = 0 ↔ Succeeds opener key command := by
  cases command with
  | verify paths => simp [runCommand, runVerify_eq, Succeeds]
  | signaturePath path => exact signaturePath_succeeds_iff
  | hash files =>
      rw [runCommand, runHash_succeeds_iff, Succeeds]
      simp [hashFile_eq_ok_iff]
  | keyInfo => exact keyInfo_succeeds_iff

theorem exitCode_runHash_le (opener : Opener) (printed : String) (files : List Path) :
    (runHash opener printed files).exitCode ≤ 1 := by
  induction files generalizing printed with
  | nil => simp [runHash]
  | cons file files ih =>
      rw [runHash]
      cases hashFile opener file with
      | ok digest => exact ih _
      | error failure => exact Nat.le_refl 1

/-- Every command ends with zero or one. -/
theorem exitCode_runCommand_le (opener : Opener) (key : KeyResource) (quiet : Bool)
    (command : Command) : (runCommand opener key quiet command).exitCode ≤ 1 := by
  cases command with
  | verify paths =>
      rw [runCommand, runVerify_eq]
      dsimp only
      split
      · exact Nat.zero_le 1
      · exact Nat.le_refl 1
  | signaturePath path =>
      rw [runCommand, runSignaturePath]
      cases path.signaturePath with
      | ok => simp
      | error => simp [Report.failed]
  | hash files => exact exitCode_runHash_le opener "" files
  | keyInfo =>
      rw [runCommand, runKeyInfo]
      cases key.usableKey with
      | ok => simp
      | error => simp

/-- A command that does not succeed ends with one. -/
theorem runCommand_fails_iff {quiet : Bool} {command : Command} :
    (runCommand opener key quiet command).exitCode = 1 ↔ ¬ Succeeds opener key command := by
  have hle := exitCode_runCommand_le opener key quiet command
  have hsucceeds := @runCommand_succeeds_iff opener key quiet command
  rw [← hsucceeds]
  omega

/-! ## Commands under another key -/

/-- `hash` depends on the files that it is given, and on no others. -/
theorem runHash_congr {files : List Path} (h : ∀ file ∈ files, opener' file = opener file)
    (printed : String) : runHash opener' printed files = runHash opener printed files := by
  induction files generalizing printed with
  | nil => rfl
  | cons file files ih =>
      rw [List.forall_mem_cons] at h
      simp only [runHash, hashFile_congr h.1, ih h.2]

/-! ## Whole runs -/

/-- A run is without a key only if its key file cannot be read. -/
theorem exists_of_not_loads {embedded : KeyResource} {file? : Option Path}
    (h : ∀ key, ¬ Loads embedded opener file? key) :
    ∃ file cause, file? = some file ∧ readFile opener file = .error cause := by
  cases file? with
  | none => exact absurd rfl (h embedded)
  | some file =>
      cases hread : readFile opener file with
      | ok bytes => exact absurd (readFile_eq_ok_iff.mp hread) (h ⟨bytes⟩)
      | error cause => exact ⟨file, cause, rfl, hread⟩

/-- A run whose key file cannot be read reports that, whatever it was to do. -/
theorem run_of_readFile {environment : Option (List UInt8)} {args : List (List UInt8)}
    {i : Invocation} {file : Path} {cause : IoError} (hparse : parse environment args = .ok i)
    (hfile : i.key = some file) (hread : readFile opener file = .error cause) :
    run opener environment args build =
      ⟨1, "", errorText ("Failed to read public key " ++ file.display) (some cause)⟩ := by
  have hload : (loadKey opener i.key build.key).result = .error ⟨file, cause⟩ := by
    rw [hfile]
    simp [loadKey, hread]
  rw [run, hparse]
  dsimp only
  rw [runInvocation, hload]
  rfl

/-- An accepted command line ends with zero or one; two is for those that are not accepted. -/
theorem exitCode_runInvocation_le (embedded : KeyResource) (opener : Opener) (i : Invocation) :
    (runInvocation embedded opener i).exitCode ≤ 1 := by
  rw [runInvocation]
  cases (loadKey opener i.key embedded).result with
  | ok key => exact exitCode_runCommand_le opener key i.quiet i.command
  | error fault => exact Nat.le_refl 1

/-- No command and no key exits with two. -/
theorem exitCode_run_eq_two_iff {environment : Option (List UInt8)} {args : List (List UInt8)} :
    (run opener environment args build).exitCode = 2 ↔ parse environment args = .error .usage := by
  rw [run]
  cases parse environment args with
  | ok i =>
      have hle := exitCode_runInvocation_le build.key opener i
      have hne : (runInvocation build.key opener i).exitCode ≠ 2 := by omega
      simpa using hne
  | error stop =>
      cases stop with
      | usage => simp [stopped]
      | help => simp [stopped]
      | version => simp [stopped]

/-- **Exit codes**: two for arguments that cannot be used and for nothing else, and zero for
help and the version. An accepted run whose key cannot be read reports that and nothing
else, so the same for every command. One with a key exits with zero exactly if
the command did all that it was asked to do, and else with one; and what it reports
for a signature's path, or for hashes of files that open to the same, is what it reports
under any other key. -/
theorem run_exit_status (build : Build) (opener : Opener) (environment : Option (List UInt8))
    (args : List (List UInt8)) :
    let report := run opener environment args build
    (report.exitCode = 2 ↔ parse environment args = .error .usage) ∧
    (parse environment args = .error .help ∨ parse environment args = .error .version →
      report.exitCode = 0) ∧
    ∀ i, parse environment args = .ok i →
      ((∀ key, ¬ Loads build.key opener i.key key) →
        ∃ file cause, i.key = some file ∧ readFile opener file = .error cause ∧
          report = ⟨1, "", errorText ("Failed to read public key " ++ file.display) (some cause)⟩ ∧
          ∀ build' environment' args' i', parse environment' args' = .ok i' → i'.key = i.key →
            run opener environment' args' build' = report) ∧
      ∀ key, Loads build.key opener i.key key →
        (report.exitCode = 0 ↔ Succeeds opener key i.command) ∧
        (report.exitCode = 1 ↔ ¬ Succeeds opener key i.command) ∧
        ∀ build' opener' environment' args' i' key', parse environment' args' = .ok i' →
          Loads build'.key opener' i'.key key' → i'.command = i.command →
          (∀ path, i.command = .signaturePath path →
            run opener' environment' args' build' = report) ∧
          ∀ files, i.command = .hash files → (∀ file ∈ files, opener' file = opener file) →
            run opener' environment' args' build' = report := by
  dsimp only
  refine ⟨exitCode_run_eq_two_iff, ?_, ?_⟩
  · rintro (h | h)
    · simp [run, h, stopped]
    · simp [run, h, stopped]
  · intro i hparse
    constructor
    · intro hkey
      obtain ⟨file, cause, hfile, hread⟩ := exists_of_not_loads hkey
      have hreport := @run_of_readFile build opener environment args i file cause hparse hfile hread
      refine ⟨file, cause, hfile, hread, hreport, ?_⟩
      intro build' environment' args' i' hparse' hsame
      rw [hreport, run_of_readFile hparse' (hsame.trans hfile) hread]
    · intro key hkey
      rw [run_eq_runCommand hparse hkey]
      refine ⟨runCommand_succeeds_iff, runCommand_fails_iff, ?_⟩
      intro build' opener' environment' args' i' key' hparse' hkey' hcommand
      rw [run_eq_runCommand hparse' hkey', hcommand]
      constructor
      · intro path hpath
        rw [hpath, runCommand, runCommand]
      · intro files hfiles hsame
        rw [hfiles, runCommand, runCommand, runHash_congr hsame]

end Sidecar.Program
