import Sidecar.Program
import Sidecar.Proofs.CommandLine
import Sidecar.Proofs.Signing
import Sidecar.Proofs.Trace

/-!
# Sidecar.Proofs.Program

Whole runs that verify files. The key is settled first (`run_eq_runCommand`);
then each file adds its own entry to what is printed and its own verdict to the
run's, whatever the files before it gave (`runVerify_eq`).
-/

namespace Sidecar.Program

open CommandLine

variable {build : Build} {opener : Opener} {key : KeyResource}

/-! ## The key -/

/-- Whether a run has a key: that of the file it names, or the one embedded in the program. -/
def Loads (embedded : KeyResource) (opener : Opener) (file? : Option Path) (key : KeyResource) :
    Prop :=
  match file? with
  | none => key = embedded
  | some file => opener file = .ok (.file key.bytes)

theorem readFile_eq_ok_iff {path : Path} {content : List UInt8} :
    readFile opener path = .ok content ↔ opener path = .ok (.file content) := by
  rw [readFile]
  cases opener path with
  | error e => simp
  | ok handle => cases handle <;> simp [Handle.readAll]

/-- The key that is loaded, by the file that is named. -/
theorem loadKey_eq_ok_iff {embedded : KeyResource} {file? : Option Path} :
    (loadKey opener file? embedded).result = .ok key ↔ Loads embedded opener file? key := by
  cases file? with
  | none => simp [loadKey, Loads, eq_comm]
  | some file =>
      obtain ⟨bytes⟩ := key
      simp [loadKey, Loads, mapError_eq_ok_iff, bind_eq_ok_iff, readFile_eq_ok_iff]

/-- An accepted run with a key is that of its command. -/
theorem run_eq_runCommand {environment : Option (List UInt8)} {args : List (List UInt8)}
    {i : Invocation} (hparse : parse environment args = .ok i)
    (hkey : Loads build.key opener i.key key) :
    run opener environment args build = runCommand opener key i.quiet i.command := by
  rw [run, hparse]
  dsimp only
  rw [runInvocation, loadKey_eq_ok_iff.mpr hkey]

/-! ## Verifying files -/

/-- What is printed for a file: that it passes, unless passing files are left out,
or why it does not. -/
def entry (opener : Opener) (key : KeyResource) (quiet : Bool) (path : Path) : String :=
  if (check opener key path).result = .ok () then
    if quiet then "" else path.display ++ ": ok\n"
  else path.display ++ ": FAILED: " ++ (verify opener key path).2.diagnostic ++ "\n"

/-- What the command prints of a path is its entry. -/
theorem verifyLine_verify (quiet : Bool) (path : Path) :
    verifyLine quiet path (verify opener key path).2 = entry opener key quiet path := by
  simp only [verifyLine, entry, isOk_verify_iff]

/-- A file adds its entry and its verdict, and nothing else of what came before is
looked at or changed. -/
theorem runVerify_cons (quiet passed : Bool) (printed : String) (path : Path)
    (paths : List Path) :
    runVerify opener key quiet passed printed (path :: paths) =
      runVerify opener key quiet (passed && decide ((check opener key path).result = .ok ()))
        (printed ++ entry opener key quiet path) paths := by
  rw [runVerify, verifyLine_verify]
  simp only [← isOk_verify_iff, Bool.decide_eq_true]

/-- The loop over the paths, from whatever has been printed and found before. -/
theorem runVerify_eq (quiet passed : Bool) (printed : String) (paths : List Path) :
    runVerify opener key quiet passed printed paths =
      ⟨if passed = true ∧ ∀ path ∈ paths, (check opener key path).result = .ok () then 0 else 1,
        printed ++ String.join (paths.map (entry opener key quiet)), ""⟩ := by
  induction paths generalizing passed printed with
  | nil => simp [runVerify]
  | cons path paths ih =>
      rw [runVerify_cons, ih]
      simp [String.append_assoc, and_assoc]

/-- An accepted command line that verifies files under a key. -/
def Verifies (build : Build) (opener : Opener) (key : KeyResource) (quiet : Bool)
    (paths : List Path) (environment : Option (List UInt8)) (args : List (List UInt8)) : Prop :=
  ∃ file?, parse environment args = .ok ⟨file?, quiet, .verify paths⟩ ∧
    Loads build.key opener file? key

/-- A command line for `verify` runs that loop from the start. -/
theorem run_of_verifies {quiet : Bool} {paths : List Path} {environment : Option (List UInt8)}
    {args : List (List UInt8)} (h : Verifies build opener key quiet paths environment args) :
    run opener environment args build =
      ⟨if ∀ path ∈ paths, (check opener key path).result = .ok () then 0 else 1,
        String.join (paths.map (entry opener key quiet)), ""⟩ := by
  obtain ⟨file?, hparse, hkey⟩ := h
  rw [run_eq_runCommand hparse hkey, runCommand, runVerify_eq]
  simp

/-- **Pointwise runs**: a run that verifies files succeeds exactly if every file
passes, and prints the entries of the files in their order. So the run on some
files and then others prints what the two runs print, and succeeds if both do; other
orders of the files put the entries in other orders; and the verdict depends on
the set of the files alone. -/
theorem run_verify_pointwise {quiet : Bool} {paths : List Path}
    {environment : Option (List UInt8)} {args : List (List UInt8)}
    (h : Verifies build opener key quiet paths environment args) :
    let report := run opener environment args build
    (report.exitCode = 0 ↔ ∀ path ∈ paths, (check opener key path).result = .ok ()) ∧
    (report.exitCode = 1 ↔ ∃ path ∈ paths, (check opener key path).result ≠ .ok ()) ∧
    report.stdout = String.join (paths.map (entry opener key quiet)) ∧
    ∀ paths' environment' args', Verifies build opener key quiet paths' environment' args' →
      let report' := run opener environment' args' build
      (∀ environment₂ args₂, Verifies build opener key quiet (paths ++ paths') environment₂ args₂ →
        (run opener environment₂ args₂ build).stdout = report.stdout ++ report'.stdout ∧
        ((run opener environment₂ args₂ build).exitCode = 0 ↔
          report.exitCode = 0 ∧ report'.exitCode = 0)) ∧
      (paths'.Perm paths → ∃ entries, entries.Perm (paths.map (entry opener key quiet)) ∧
        report'.stdout = String.join entries) ∧
      ((∀ path, path ∈ paths' ↔ path ∈ paths) → report'.exitCode = report.exitCode) := by
  have hzero (p : Prop) [Decidable p] : (if p then 0 else 1) = 0 ↔ p := by simp
  dsimp only
  rw [run_of_verifies h]
  refine ⟨hzero _, ?_, rfl, ?_⟩
  · simp
  · intro paths' environment' args' h'
    rw [run_of_verifies h']
    refine ⟨?_, ?_, ?_⟩
    · intro environment₂ args₂ h₂
      rw [run_of_verifies h₂]
      simp [or_imp, forall_and]
    · intro hperm
      exact ⟨_, hperm.map _, rfl⟩
    · intro hmem
      simp only [hmem]

theorem parse_tool_gone :
    parse none [ascii "--key=tool.bin", ascii "verify", ascii "tool", ascii "gone"] =
      .ok ⟨some ExampleKey.toolBin, false, .verify [ExampleKey.tool, ⟨ascii "gone"⟩]⟩ := by
  let line : Line :=
    ⟨[.key true (ascii "tool.bin")], .verify, [.path (ascii "tool"), .path (ascii "gone")], none⟩
  have hline : line.WellFormed := by
    refine ⟨?_, ?_, List.not_mem_nil, rfl, by decide, by decide, by decide, by decide,
      Nat.le_of_ble_eq_true rfl⟩
    · simp only [line, List.cons_append, List.nil_append, List.forall_mem_cons]
      exact ⟨trivial, Or.inr (by decide), Or.inr (by decide), List.forall_mem_nil _⟩
    · simp only [line, List.cons_append, List.nil_append, List.forall_mem_cons]
      exact ⟨List.cons_ne_nil _ _, List.cons_ne_nil _ _, List.cons_ne_nil _ _,
        List.forall_mem_nil _⟩
  have hargs : line.args =
      [ascii "--key=tool.bin", ascii "verify", ascii "tool", ascii "gone"] := rfl
  rw [← hargs]
  exact parse_eq_ok_iff_parts.mpr
    ⟨line.parts, parts_args hline, Or.inl nofun, ⟨rfl, rfl, hline.count⟩, rfl, rfl⟩

/-- A signed file passes, and the missing one after it has its own entry. -/
theorem run_verify_pointwise_tool_gone :
    let opener := ExampleKey.files [0x00] ExampleKey.resource.bytes (ExampleKey.signed [0x00])
    let gone : Path := ⟨ascii "gone"⟩
    let report :=
      run opener none [ascii "--key=tool.bin", ascii "verify", ascii "tool", ascii "gone"]
    Verifies .bare opener ExampleKey.resource false [ExampleKey.tool, gone] none
        [ascii "--key=tool.bin", ascii "verify", ascii "tool", ascii "gone"] ∧
      report.exitCode = 1 ∧
      report.stdout = ExampleKey.tool.display ++ ": ok\n" ++
        (gone.display ++ ": FAILED: " ++ (Failure.openTarget gone .notFound).message ++ "\n") := by
  intro opener gone report
  have hverifies : Verifies .bare opener ExampleKey.resource false [ExampleKey.tool, gone] none
      [ascii "--key=tool.bin", ascii "verify", ascii "tool", ascii "gone"] :=
    ⟨some ExampleKey.toolBin, parse_tool_gone, ExampleKey.files_toolBin _ _ _⟩
  have htool : (check opener ExampleKey.resource ExampleKey.tool).result = .ok () :=
    ExampleKey.check_tool _ _
  have hgone : (check opener ExampleKey.resource gone).result =
      .error (.openTarget gone .notFound) := by
    have hopen : opener gone = .error .notFound := by
      simp only [opener, ExampleKey.files]
      rw [if_neg (by decide), if_neg (by decide), if_neg (by decide)]
    rw [result_check, ExampleKey.usableKey_resource, ok_bind, hashFile, hopen, error_bind]
  obtain ⟨-, hone, hstdout, -⟩ := run_verify_pointwise hverifies
  refine ⟨hverifies, hone.mpr ⟨gone, by simp, by simp [hgone]⟩, ?_⟩
  rw [hstdout]
  simp [entry, htool, hgone, snd_verify, Verification.ofResult, Verification.diagnostic,
    Verification.reasons]

end Sidecar.Program
