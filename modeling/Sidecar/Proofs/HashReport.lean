import Sidecar.Proofs.Bytes
import Sidecar.Proofs.Program

/-!
# Sidecar.Proofs.HashReport

What a run that hashes files prints. Each file that can be read adds its own line
(`exists_runHash_cons`), and so do all files in front of the first one that cannot
(`exists_runHash_dropWhile`). That one ends the run with its error (`exists_runHash_stop`),
so nothing is said of the files after it (`run_hash_leading`).
-/

namespace Sidecar.Program

open CommandLine

variable {build : Build} {opener : Opener} {file : Path}

/-! ## One file -/

/-- Whether a file can be opened and read to its end. -/
def isReadable (opener : Opener) (file : Path) : Bool :=
  match opener file with
  | .ok (.file _) => true
  | _ => false

/-- The line of a file: the 64 digits of the hash of its whole content, two blanks, and its
path. -/
def IsHashLine (opener : Opener) (file : Path) (line : String) : Prop :=
  ∃ (content : List UInt8) (digits : String), opener file = .ok (.file content) ∧
    digits.length = 64 ∧ SpellsHex (Sha256.digest content).bytes digits.toList ∧
      line = digits ++ "  " ++ file.display ++ "\n"

/-- What ends a run at a file: it does not open, or it opens and cannot be read. -/
def StopsAt (opener : Opener) (file : Path) (failure : Failure) (cause : IoError) : Prop :=
  (failure = .openTarget file cause ∧ opener file = .error cause) ∨
    (failure = .readTarget file cause ∧
      ∃ reading, opener file = .ok (.unreadable reading) ∧ reading.error = cause)

/-- A path is readable if it opens to a file. -/
theorem isReadable_iff :
    isReadable opener file = true ↔ ∃ content, opener file = .ok (.file content) := by
  rw [isReadable]
  split <;> simp_all

/-- The line that is printed of a readable file is its hash line. -/
theorem isHashLine_digest {content : List UInt8} (h : opener file = .ok (.file content)) :
    IsHashLine opener file ((Sha256.digest content).hex ++ "  " ++ file.display ++ "\n") := by
  have hspells := spellsHex_hex (Sha256.digest content).bytes
  refine ⟨content, (Sha256.digest content).hex, h, ?_, hspells, rfl⟩
  rw [← String.length_toList, Sha256.Digest.hex, hspells.length_eq,
    (Sha256.digest content).length_bytes]

/-- A file that can be read adds its line to what is printed, and the run goes on. -/
theorem exists_runHash_cons (h : isReadable opener file = true) :
    ∃ line, IsHashLine opener file line ∧
      ∀ printed files, runHash opener printed (file :: files) =
        runHash opener (printed ++ line) files := by
  obtain ⟨content, hcontent⟩ := isReadable_iff.mp h
  refine ⟨_, isHashLine_digest hcontent, ?_⟩
  intro printed files
  rw [runHash, hashFile_file hcontent]
  simp only [String.append_assoc]

/-- The report of an error has its message, and after a blank line what is behind it. -/
theorem errorText_some (message : String) (cause : IoError) :
    errorText message (some cause) =
      "Error: " ++ message ++ "\n\nCaused by:\n    " ++ cause.text ++ "\n" := by
  have hgap : "\n\nCaused by:\n    " = "\n" ++ "\nCaused by:\n    " := by decide
  simp only [errorText, hgap, String.append_assoc]

/-- A file that cannot be read ends the run, whatever is left to do. -/
theorem exists_runHash_stop (h : isReadable opener file = false) :
    ∃ failure cause, StopsAt opener file failure cause ∧
      ∀ printed files, runHash opener printed (file :: files) =
        ⟨1, printed, errorText failure.message (some cause)⟩ := by
  cases hopen : opener file with
  | error cause =>
      refine ⟨_, cause, Or.inl ⟨rfl, hopen⟩, ?_⟩
      intro printed files
      rw [runHash, hashFile_of_error hopen]
      rfl
  | ok handle =>
      cases handle with
      | file content => simp [isReadable, hopen] at h
      | unreadable reading =>
          refine ⟨_, reading.error, Or.inr ⟨rfl, reading, hopen, rfl⟩, ?_⟩
          intro printed files
          rw [runHash, hashFile_unreadable hopen]
          rfl

/-! ## Whole runs -/

/-- A run comes to the first file that cannot be read with the lines of those before it. -/
theorem exists_runHash_dropWhile (opener : Opener) (files : List Path) :
    ∃ lines, List.Forall₂ (IsHashLine opener) (files.takeWhile (isReadable opener)) lines ∧
      ∀ printed, runHash opener printed files =
        runHash opener (printed ++ String.join lines) (files.dropWhile (isReadable opener)) := by
  induction files with
  | nil => exact ⟨[], .nil, by simp⟩
  | cons file files ih =>
      rw [List.takeWhile_cons, List.dropWhile_cons]
      by_cases hfile : isReadable opener file = true
      · obtain ⟨line, hline, hstep⟩ := exists_runHash_cons hfile
        obtain ⟨lines, hlines, hrun⟩ := ih
        rw [if_pos hfile, if_pos hfile]
        refine ⟨line :: lines, .cons hline hlines, ?_⟩
        intro printed
        rw [hstep, hrun, String.join_cons, String.append_assoc]
      · rw [if_neg hfile, if_neg hfile]
        exact ⟨[], .nil, by simp⟩

theorem isReadable_of_dropWhile {files later : List Path}
    (h : files.dropWhile (isReadable opener) = file :: later) : isReadable opener file = false := by
  have hhead := List.head_dropWhile_not (isReadable opener) (l := files) (by simp [h])
  simpa only [h, List.head_cons] using hhead

/-- An accepted command line that hashes files, with a key that can be loaded. -/
def Hashes (build : Build) (opener : Opener) (files : List Path)
    (environment : Option (List UInt8)) (args : List (List UInt8)) : Prop :=
  ∃ file? quiet key, parse environment args = .ok ⟨file?, quiet, .hash files⟩ ∧
    Loads build.key opener file? key

/-- A command line for `hash` runs that command. -/
theorem run_of_hashes {files : List Path} {environment : Option (List UInt8)}
    {args : List (List UInt8)} (h : Hashes build opener files environment args) :
    run opener environment args build = runHash opener "" files := by
  obtain ⟨file?, quiet, key, hparse, hkey⟩ := h
  rw [run_eq_runCommand hparse hkey, runCommand]

/-- **Hashes of the leading files**: a run that hashes files prints the lines of those in
front of the first that cannot be read, and of no other. If all can be read, that is all;
else the run fails with the error of the first that cannot, and what the system said of it. -/
theorem run_hash_leading {files : List Path} {environment : Option (List UInt8)}
    {args : List (List UInt8)} (h : Hashes build opener files environment args) :
    let report := run opener environment args build
    let leading := files.takeWhile (isReadable opener)
    let left := files.dropWhile (isReadable opener)
    (∃ lines, List.Forall₂ (IsHashLine opener) leading lines ∧
      report.stdout = String.join lines) ∧
    (left = [] → report.exitCode = 0 ∧ report.stderr = "") ∧
    ∀ file later, left = file :: later → report.exitCode = 1 ∧
      ∃ failure cause, StopsAt opener file failure cause ∧
        report.stderr =
          "Error: " ++ failure.message ++ "\n\nCaused by:\n    " ++ cause.text ++ "\n" := by
  intro report leading left
  obtain ⟨lines, hlines, hrun⟩ := exists_runHash_dropWhile opener files
  have hreport : report = runHash opener (String.join lines) left := by
    have hrun := hrun ""
    rw [String.empty_append] at hrun
    rw [← hrun]
    exact run_of_hashes h
  cases hleft : left with
  | nil =>
      rw [hleft, runHash] at hreport
      rw [hreport]
      exact ⟨⟨lines, hlines, rfl⟩, fun _ => ⟨rfl, rfl⟩, nofun⟩
  | cons next rest =>
      obtain ⟨failure, cause, hstops, hstop⟩ := exists_runHash_stop (isReadable_of_dropWhile hleft)
      rw [hleft, hstop, errorText_some] at hreport
      rw [hreport]
      refine ⟨⟨lines, hlines, rfl⟩, nofun, ?_⟩
      intro file later hfile
      obtain ⟨rfl, -⟩ := List.cons.inj hfile
      exact ⟨rfl, failure, cause, hstops, rfl⟩

/-- The second of three files is missing: the hash of the first is printed, the third is
there and not looked at. -/
theorem run_hash_leading_tool_gone :
    let opener := ExampleKey.files [0x00] [0x01] []
    let gone : Path := ⟨ascii "gone"⟩
    let args := [ascii "hash", ascii "tool", ascii "gone", ascii "tool.bin"]
    let report := run opener none args
    Hashes .bare opener [ExampleKey.tool, gone, ExampleKey.toolBin] none args ∧
      isReadable opener ExampleKey.toolBin = true ∧
      IsHashLine opener ExampleKey.tool report.stdout ∧ report.exitCode = 1 ∧
      report.stderr = "Error: " ++ (Failure.openTarget gone .notFound).message ++
        "\n\nCaused by:\n    " ++ IoError.notFound.text ++ "\n" := by
  intro opener gone args report
  have hhashes : Hashes .bare opener [ExampleKey.tool, gone, ExampleKey.toolBin] none args :=
    ⟨none, false, KeyResource.embedded, rfl, rfl⟩
  have htool : isReadable opener ExampleKey.tool = true :=
    isReadable_iff.mpr ⟨_, ExampleKey.files_tool _ _ _⟩
  have hbin : isReadable opener ExampleKey.toolBin = true :=
    isReadable_iff.mpr ⟨_, ExampleKey.files_toolBin _ _ _⟩
  have hopen : opener gone = .error .notFound := by
    simp only [opener, ExampleKey.files]
    rw [if_neg (by decide), if_neg (by decide), if_neg (by decide)]
  have hgone : isReadable opener gone = false := by rw [isReadable, hopen]
  obtain ⟨⟨lines, hlines, hstdout⟩, -, hstop⟩ := run_hash_leading hhashes
  rw [List.takeWhile_cons_of_pos htool, List.takeWhile_cons_of_neg (by simp [hgone])] at hlines
  rw [List.dropWhile_cons_of_pos htool, List.dropWhile_cons_of_neg (by simp [hgone])] at hstop
  obtain ⟨hexit, failure, cause, hstops, hstderr⟩ := hstop _ _ rfl
  obtain ⟨rfl, hcause⟩ | ⟨-, hcause⟩ := hstops
  · rw [hopen] at hcause
    cases hcause
    refine ⟨hhashes, hbin, ?_, hexit, hstderr⟩
    cases hlines with
    | cons hline hnil =>
        cases hnil
        rwa [hstdout, String.join_cons, String.join_nil, String.append_empty]
  · obtain ⟨reading, hreading, -⟩ := hcause
    rw [hopen] at hreading
    cases hreading

end Sidecar.Program
