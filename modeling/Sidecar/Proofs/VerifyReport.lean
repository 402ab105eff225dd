import Sidecar.Proofs.Failure.Wording
import Sidecar.Proofs.Program

/-!
# Sidecar.Proofs.VerifyReport

What a run that verifies files tells who reads it line by line. Paths are printed as they
are, line feeds in them included, so a path can bring lines of its own into the report
(`run_verify_forged_line`), and it is the only thing that can (`run_verify_lines`): the
messages have no line feed but those of the file's path (`infix_bytes_of_infix_failed`), not
even where they name the signature's path, and none ends as the line of a passing file.
-/

namespace Sidecar

open Text

/-! ## Line ends of paths -/

def lineFeed : UInt8 := 0x0A

/-- Whether a word ends a line, and has none of the signs that keep it on one side of a path
in a message or of a name in a path, nor the one that ill-formed bytes are shown as. -/
def IsLineEnd (word : List Char) : Prop :=
  word.getLast? = some '\n' ∧ '(' ∉ word ∧ '\uFFFD' ∉ word ∧
    (Utf8.encode word).getLast? = some lineFeed ∧ Path.slash ∉ Utf8.encode word

instance (word : List Char) : Decidable (IsLineEnd word) := inferInstanceAs (Decidable (_ ∧ _))

variable {word : List Char} {path p : Path} {message : String}

/-- What ends a line in a path that a message names, ends one in the file's own path. -/
theorem infix_bytes_of_infix_display (hword : IsLineEnd word)
    (hp : p = path ∨ path.signaturePath = .ok p) (h : word <:+: p.display.toList) :
    Utf8.encode word <:+: path.bytes := by
  obtain ⟨-, -, hmark, hlast, hslash⟩ := hword
  rw [Path.display, String.toList_ofList] at h
  have hbytes : Utf8.encode word <:+: p.bytes := Utf8.encode_infix_of_decodeLossy hmark h
  obtain rfl | hsidecar := hp
  · exact hbytes
  · exact Path.infix_of_infix_signaturePath hsidecar hslash hlast (by decide) (by decide) hbytes

/-- What ends a line in a report of a failure, ends one in the file's path: it does not reach
the inert texts after it. -/
theorem infix_bytes_of_infix_failed (hword : IsLineEnd word) (hwording : Wording path message)
    (h : word <:+: (path.display ++ (": FAILED: " ++ message)).toList) :
    Utf8.encode word <:+: path.bytes := by
  have hmark : Inert ": FAILED: " := by decide
  have hdisplay {text : String} (htext : Inert text)
      (h : word <:+: (path.display ++ (": FAILED: " ++ text)).toList) :
      Utf8.encode word <:+: path.bytes := by
    rw [String.toList_append] at h
    exact infix_bytes_of_infix_display hword (Or.inl rfl)
      (infix_of_infix_append hword.1 (hmark.append htext).1 h)
  cases hwording with
  | plain htext => exact hdisplay htext h
  | @about p hp opening closing hopening hbracket hclosing hne =>
      have hsplit : (path.display ++ (": FAILED: " ++ (opening ++ p.display ++ closing))).toList =
          ((path.display ++ (": FAILED: " ++ opening)).toList ++ p.display.toList) ++
            closing.toList := by
        simp only [String.toList_append, List.append_assoc]
      have hbracket' : (path.display ++ (": FAILED: " ++ opening)).toList.getLast? = some '(' := by
        simp only [String.toList_append, List.getLast?_append, hbracket, Option.some_or]
      rw [hsplit] at h
      obtain hfront | hpath := (infix_append_of_getLast? hbracket' hword.2.1).mp
        (infix_of_infix_append hword.1 hclosing.1 h)
      · exact hdisplay hopening hfront
      · exact infix_bytes_of_infix_display hword hp hpath

/-- A report of a failure does not end as the line of a passing file. -/
theorem getLast?_failed_ne (hwording : Wording path message) :
    (path.display ++ (": FAILED: " ++ message)).toList.getLast? ≠ some 'k' := by
  have hend {text : String} (htext : Inert text) (hne : text ≠ "") (front : String) :
      (front ++ text).toList.getLast? ≠ some 'k' := by
    rw [String.toList_append, List.getLast?_append_of_ne_nil _ (by simpa using hne)]
    exact htext.2
  cases hwording with
  | plain htext => exact hend (Inert.append (by decide) htext) (by simp) _
  | about _ _ _ hclosing hne =>
      simp only [← String.append_assoc]
      exact hend hclosing hne _

/-! ## A tree with a signed file -/

namespace ExampleKey

/-- The file `tool` with its signature, beside the text of the key. -/
def signedTree : FileTree where
  root := [(ascii "tool", .file [0x00]), (ascii "tool.bin", .file resource.bytes),
    (ascii "signatures", .directory [(ascii "tool.sig", .file (signed [0x00]))])]
  workingDirectory := []

theorem resolve_signedTree_tool : signedTree.resolve tool = .ok (.file [0x00]) := by
  show signedTree.walk .use 40 [] [ascii "tool"] >>= FileTree.Place.entry = _
  rw [FileTree.walk_file (by decide) rfl]
  rfl

theorem resolve_signedTree_toolBin : signedTree.resolve toolBin = .ok (.file resource.bytes) := by
  show signedTree.walk .use 40 [] [ascii "tool.bin"] >>= FileTree.Place.entry = _
  rw [FileTree.walk_file (by decide) rfl]
  rfl

theorem resolve_signedTree_sidecar : signedTree.resolve sidecar = .ok (.file (signed [0x00])) := by
  show signedTree.walk .use 40 [] [ascii "signatures", ascii "tool.sig"] >>=
    FileTree.Place.entry = _
  rw [FileTree.walk_directory (by decide) rfl, FileTree.walk_file (by decide) rfl]
  rfl

theorem resolve_signedTree_gone : signedTree.resolve ⟨ascii "gone"⟩ = .error .notFound := by
  show signedTree.walk .use 40 [] [ascii "gone"] >>= FileTree.Place.entry = _
  rw [FileTree.walk_vacant (by decide) rfl]
  rfl

theorem check_signedTree_tool : (check signedTree.opener resource tool).result = .ok () := by
  have htool : signedTree.opener tool = .ok (.file [0x00]) := by
    rw [FileTree.opener_eq_map, resolve_signedTree_tool]
    rfl
  have hsidecar : signedTree.opener sidecar =
      .ok (.file (PublicKey.sign (p * q) d (Sha256.digest [0x00])).bytes) := by
    rw [FileTree.opener_eq_map, resolve_signedTree_sidecar, signed_eq_sign]
    rfl
  exact check_signed prime_p prime_q p_ne_q three_mul_d usableKey_resource htool
    signaturePath_tool hsidecar

theorem check_signedTree_gone : (check signedTree.opener resource ⟨ascii "gone"⟩).result =
    .error (.openTarget ⟨ascii "gone"⟩ .notFound) := by
  have hopen := FileTree.opener_eq_error_iff.mpr resolve_signedTree_gone
  exact ((check_course _ _ _).openTarget_iff usableKey_resource).mpr ⟨rfl, hopen⟩

end ExampleKey

namespace Program

open CommandLine

variable {build : Build} {t : FileTree} {key : KeyResource} {quiet : Bool}

/-! ## Lines of one file -/

/-- The line of a file, without the line feed at its end. -/
def verdict (opener : Opener) (key : KeyResource) (path : Path) : String :=
  if (check opener key path).result = .ok () then path.display ++ ": ok"
  else path.display ++ (": FAILED: " ++ (verify opener key path).2.diagnostic)

/-- Whether a file's line is printed: it does not pass, or passing files are not left out. -/
def isShown (opener : Opener) (key : KeyResource) (quiet : Bool) (path : Path) : Bool :=
  !quiet || decide ((check opener key path).result ≠ .ok ())

/-- What is printed of a path is its verdict on a line of its own, or nothing under `--quiet` if
it passes. -/
theorem entry_eq (opener : Opener) (key : KeyResource) (quiet : Bool) (path : Path) :
    entry opener key quiet path =
      if isShown opener key quiet path = true then verdict opener key path ++ "\n" else "" := by
  rw [entry, isShown, verdict]
  by_cases hpass : (check opener key path).result = .ok ()
  · have hline : ": ok\n" = ": ok" ++ "\n" := by decide
    cases quiet <;> simp [hpass, hline, String.append_assoc]
  · simp [hpass, String.append_assoc]

/-- The printed text of a path ends with its last line. -/
theorem endsLine_entry (opener : Opener) (key : KeyResource) (quiet : Bool) (path : Path) :
    EndsLine (entry opener key quiet path).toList := by
  rw [entry_eq]
  split
  · exact Or.inr ⟨(verdict opener key path).toList, by rw [String.toList_append]; rfl⟩
  · exact Or.inl rfl

/-- The verdict on a path that passes. -/
theorem verdict_of_ok {opener : Opener} (h : (check opener key path).result = .ok ()) :
    verdict opener key path = path.display ++ ": ok" := if_pos h

/-- The verdict on a path that fails. -/
theorem verdict_of_error {opener : Opener} {failure : Failure}
    (h : (check opener key path).result = .error failure) :
    verdict opener key path = path.display ++ (": FAILED: " ++ failure.message) := by
  rw [verdict, if_neg (by simp [h]), diagnostic_verify h]

/-- Without a line feed in its path a file has one line. -/
theorem newline_not_mem_verdict (hfeed : lineFeed ∉ path.bytes) :
    '\n' ∉ (verdict t.opener key path).toList := by
  have hword : IsLineEnd ['\n'] := by decide
  intro hmem
  apply hfeed
  rw [← List.singleton_infix_iff] at hmem ⊢
  cases hresult : (check t.opener key path).result with
  | ok =>
      rw [verdict_of_ok hresult, String.toList_append] at hmem
      exact infix_bytes_of_infix_display hword (Or.inl rfl)
        (infix_of_infix_append hword.1 (by decide) hmem)
  | error failure =>
      rw [verdict_of_error hresult] at hmem
      exact infix_bytes_of_infix_failed hword (wording_message hresult) hmem

/-- A path without line feeds is printed as one line at most. -/
theorem lines_entry (hfeed : lineFeed ∉ path.bytes) :
    lines (entry t.opener key quiet path).toList =
      if isShown t.opener key quiet path = true then [(verdict t.opener key path).toList] else [] := by
  rw [entry_eq]
  split
  · rw [String.toList_append]
    exact lines_append_cons_of_not_mem (newline_not_mem_verdict hfeed) []
  · rfl

/-- The line of a passing file among those of one file is the end of that file's, or
there is one before it. -/
theorem of_ok_mem_lines {x : String}
    (h : (x ++ ": ok").toList ∈ lines (entry t.opener key quiet path).toList) :
    (x ++ ": ok").toList <:+ (verdict t.opener key path).toList ∨
      ": ok\n".toList <:+: (verdict t.opener key path).toList := by
  have hok : ": ok\n".toList <:+ (x ++ ": ok").toList ++ ['\n'] :=
    ⟨x.toList, by rw [String.toList_append, List.append_assoc]; rfl⟩
  rw [entry_eq] at h
  split at h
  · rw [String.toList_append] at h
    obtain hend | hinner := List.infix_concat_iff.mp (infix_of_mem_lines h)
    · exact Or.inl (List.suffix_append_self_iff.mp hend)
    · exact Or.inr (hok.isInfix.trans hinner)
  · exact absurd h List.not_mem_nil

/-- A file that brings the line of a passing file passes and has what the line names at the
end of its path, which is all of it unless there is a line feed; or it has such a line's end
in its path. -/
theorem of_ok_mem_lines_entry {x : String}
    (h : (x ++ ": ok").toList ∈ lines (entry t.opener key quiet path).toList) :
    ((check t.opener key path).result = .ok () ∧
      (x = path.display ∨ lineFeed ∈ path.bytes ∧ x.toList <:+ path.display.toList)) ∨
        ascii ": ok\n" <:+: path.bytes := by
  have hword : IsLineEnd ": ok\n".toList := by decide
  cases hresult : (check t.opener key path).result with
  | error failure =>
      have hends := of_ok_mem_lines h
      rw [verdict_of_error hresult] at hends
      obtain ⟨front, hfront⟩ | hinner := hends
      · have hlast := getLast?_failed_ne (wording_message hresult)
        rw [← hfront] at hlast
        simp [String.toList_append] at hlast
      · exact Or.inr (infix_bytes_of_infix_failed hword (wording_message hresult) hinner)
  | ok =>
      by_cases hfeed : lineFeed ∈ path.bytes
      · have hends := of_ok_mem_lines h
        rw [verdict_of_ok hresult, String.toList_append, String.toList_append,
          List.suffix_append_self_iff] at hends
        obtain hend | hinner := hends
        · exact Or.inl ⟨rfl, Or.inr ⟨hfeed, hend⟩⟩
        · exact Or.inr (infix_bytes_of_infix_display hword (Or.inl rfl)
            (infix_of_infix_append hword.1 (by decide) hinner))
      · rw [lines_entry hfeed] at h
        split at h
        · rw [List.mem_singleton, String.toList_inj, verdict_of_ok hresult,
            String.append_left_inj] at h
          exact Or.inl ⟨rfl, Or.inl h⟩
        · exact absurd h List.not_mem_nil

/-- A file that fails under a name that goes on after such an end, prints such a line. -/
theorem ok_mem_lines_entry {x rest : String} {failure : Failure}
    (hpath : path = .ofText (x ++ ": ok\n" ++ rest).toList) (hx : '\n' ∉ x.toList)
    (hresult : (check t.opener key path).result = .error failure) :
    (x ++ ": ok").toList ∈ lines (entry t.opener key quiet path).toList := by
  have hdisplay : path.display = x ++ ": ok" ++ ("\n" ++ rest) := by
    have hline : ": ok\n" = ": ok" ++ "\n" := by decide
    rw [hpath, Path.display, Path.ofText, Utf8.decodeLossy_encode, String.ofList_toList, hline]
    simp only [String.append_assoc]
  have hentry : (entry t.opener key quiet path).toList = (x ++ ": ok").toList ++ '\n' ::
      (rest ++ (": FAILED: " ++ failure.message) ++ "\n").toList := by
    rw [entry_eq, if_pos (by simp [isShown, hresult]), verdict_of_error hresult, hdisplay]
    simp [String.toList_append]
  have hone : '\n' ∉ (x ++ ": ok").toList := by simp [String.toList_append, hx]
  rw [hentry, lines_append_cons_of_not_mem hone]
  exact List.mem_cons_self

/-! ## Whole runs -/

/-- The lines of a run are those of its paths, one after the other. -/
theorem lines_run {paths : List Path} {environment : Option (List UInt8)}
    {args : List (List UInt8)} (h : Verifies build t.opener key quiet paths environment args) :
    lines (run t.opener environment args build).stdout.toList =
      paths.flatMap fun path => lines (entry t.opener key quiet path).toList := by
  rw [run_of_verifies h]
  simp only [String.toList_join, List.flatMap_map]
  exact lines_flatMap fun path _ => endsLine_entry t.opener key quiet path

/-- Without line feeds in the paths these are the verdicts that are shown. -/
theorem flatMap_lines_entry {paths : List Path} (h : ∀ path ∈ paths, lineFeed ∉ path.bytes) :
    (paths.flatMap fun path => lines (entry t.opener key quiet path).toList) =
      (paths.filter (isShown t.opener key quiet)).map
        fun path => (verdict t.opener key path).toList := by
  induction paths with
  | nil => rfl
  | cons path paths ih =>
      rw [List.forall_mem_cons] at h
      rw [List.flatMap_cons, lines_entry h.1, ih h.2, List.filter_cons]
      split
      · rw [List.map_cons, List.singleton_append]
      · rw [List.nil_append]

/-- **Lines of a report**: a run that verifies files in a tree prints a line of a passing file
only for one that passes, unless a path has the end of such a line in it. What the line names
is that file's path, or its end if there is a line feed in it. And if no path has a line feed
in it, then there is one line for each file that is shown, in their order. -/
theorem run_verify_lines {paths : List Path} {environment : Option (List UInt8)}
    {args : List (List UInt8)} (h : Verifies build t.opener key quiet paths environment args) :
    let printed := lines (run t.opener environment args build).stdout.toList
    (∀ x : String, (x ++ ": ok").toList ∈ printed →
      (∃ path ∈ paths, (check t.opener key path).result = .ok () ∧
        (x = path.display ∨ lineFeed ∈ path.bytes ∧ x.toList <:+ path.display.toList)) ∨
        ∃ path ∈ paths, ascii ": ok\n" <:+: path.bytes) ∧
    ((∀ path ∈ paths, lineFeed ∉ path.bytes) →
      printed = (paths.filter (isShown t.opener key quiet)).map
        fun path => (verdict t.opener key path).toList) := by
  intro printed
  have hprinted : printed = _ := lines_run h
  rw [hprinted]
  refine ⟨?_, flatMap_lines_entry⟩
  intro x hx
  obtain ⟨path, hpath, hline⟩ := List.mem_flatMap.mp hx
  obtain hpass | hend := of_ok_mem_lines_entry hline
  · exact Or.inl ⟨path, hpath, hpass⟩
  · exact Or.inr ⟨path, hpath, hend⟩

/-- A signed file and a missing one have a line each. -/
theorem run_verify_lines_tool_gone :
    let opener := ExampleKey.signedTree.opener
    let gone : Path := ⟨ascii "gone"⟩
    let args := [ascii "--key=tool.bin", ascii "verify", ascii "tool", ascii "gone"]
    Verifies .bare opener ExampleKey.resource false [ExampleKey.tool, gone] none args ∧
      lines (run opener none args).stdout.toList =
        [(ExampleKey.tool.display ++ ": ok").toList,
          (gone.display ++ (": FAILED: " ++ (Failure.openTarget gone .notFound).message)).toList] := by
  intro opener gone args
  have hkey : opener ExampleKey.toolBin = .ok (.file ExampleKey.resource.bytes) := by
    simp only [opener]
    rw [FileTree.opener_eq_map, ExampleKey.resolve_signedTree_toolBin]
    rfl
  have hverifies : Verifies .bare opener ExampleKey.resource false [ExampleKey.tool, gone] none args :=
    ⟨some ExampleKey.toolBin, parse_tool_gone, hkey⟩
  have htool := verdict_of_ok ExampleKey.check_signedTree_tool
  have hgone := verdict_of_error ExampleKey.check_signedTree_gone
  obtain ⟨-, hlines⟩ := run_verify_lines hverifies
  refine ⟨hverifies, ?_⟩
  have hfeed : ∀ path ∈ [ExampleKey.tool, gone], lineFeed ∉ path.bytes := by decide
  have hshown : [ExampleKey.tool, gone].filter (isShown opener ExampleKey.resource false) =
      [ExampleKey.tool, gone] := List.filter_eq_self.mpr fun _ _ => rfl
  rw [hlines hfeed, hshown, List.map_cons, List.map_cons, List.map_nil, htool, hgone]

/-- A path with such an end in it brings the line of a passing file into the report of a run
that no file passes. -/
theorem run_verify_forged_line :
    let path : Path := ⟨ascii "a: ok\nb"⟩
    let report := run FileTree.empty.opener none [ascii "verify", path.bytes]
    Verifies .bare FileTree.empty.opener KeyResource.embedded false [path] none
        [ascii "verify", path.bytes] ∧
      ("a" ++ ": ok").toList ∈ lines report.stdout.toList ∧
      ¬ ∃ file ∈ [path], (check FileTree.empty.opener KeyResource.embedded file).result = .ok () := by
  intro path report
  have hverifies : Verifies .bare FileTree.empty.opener KeyResource.embedded false [path] none
      [ascii "verify", path.bytes] := ⟨none, rfl, rfl⟩
  have hresult : (check FileTree.empty.opener KeyResource.embedded path).result =
      .error (.keyUnreadable KeyResource.Fault.empty.message) := by
    rw [check_of_usableKey rfl]
  refine ⟨hverifies, ?_, by simp [hresult]⟩
  rw [lines_run hverifies, List.flatMap_cons, List.mem_append]
  exact Or.inl (@ok_mem_lines_entry path _ _ _ "a" "b" _ (by decide) (by decide) hresult)

end Program

end Sidecar
