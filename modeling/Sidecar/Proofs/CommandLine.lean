import Sidecar.Proofs.CommandLine.Sides

/-!
# Sidecar.Proofs.CommandLine

The parser accepts exactly its grammar (`parse_accepts_iff`), but for what an
empty key file in the environment rules out. The lines that it rejects are told apart in
`Sidecar.Proofs.CommandLine.Requests`.
-/

namespace Sidecar.CommandLine

/-- A verb and its paths make a command if there are as many as it takes. -/
theorem command?_eq_some_iff {verb : Verb} {paths : List Path} {command : Command} :
    verb.command? paths = some command ↔
      command.verb = verb ∧ command.paths = paths ∧ verb.Takes paths.length := by
  constructor
  · intro h
    unfold Verb.command? at h
    split at h
    · cases h
      exact ⟨rfl, rfl, Nat.succ_pos _⟩
    · cases h
      exact ⟨rfl, rfl, rfl⟩
    · cases h
      exact ⟨rfl, rfl, Nat.succ_pos _⟩
    · cases h
      exact ⟨rfl, rfl, rfl⟩
    · cases h
  · rintro ⟨rfl, rfl, h⟩
    cases command with
    | verify paths =>
        obtain ⟨path, paths, rfl⟩ := List.exists_cons_of_ne_nil (List.length_pos_iff.mp h)
        rfl
    | hash paths =>
        obtain ⟨path, paths, rfl⟩ := List.exists_cons_of_ne_nil (List.length_pos_iff.mp h)
        rfl
    | signaturePath path => rfl
    | keyInfo => rfl

theorem takesUpTo_of_takes {verb : Verb} {count : Nat} (h : verb.Takes count) :
    verb.TakesUpTo 0 count := by
  intro n _ hlt
  cases verb with
  | verify | hash => rfl
  | signaturePath =>
      have hn : n = 0 := by
        have hcount : count = 1 := h
        omega
      rw [hn]
      rfl
  | keyInfo =>
      have hcount : count = 0 := h
      omega

/-! ## Lines and their parts -/

/-- What taking a line apart has to give. -/
def Line.parts (line : Line) : Parts :=
  ⟨.ofItems line.before, line.verb, .ofItems line.after, line.paths⟩

/-- **Completeness**: the parser takes every well-formed line apart as it was put together. -/
theorem parts_args {line : Line} (h : line.WellFormed) :
    parts .none false line.args = .ok line.parts := by
  obtain ⟨hbefore, hafter⟩ := List.forall_mem_append.mp h.unambiguous
  obtain ⟨hbefore', hafter'⟩ := List.forall_mem_append.mp h.nonEmpty
  have hadds := Options.adds_none_iff.mpr ⟨h.quiet_before, h.key_before, rfl⟩
  have hadds' := Options.adds_none_iff.mpr ⟨h.quiet_after, h.key_after, rfl⟩
  have hafterCommand : afterCommand line.verb .none []
      (line.after.flatMap Item.args ++ trailer line.rest) =
        .ok (.ofItems line.after, line.paths) :=
    afterCommand_eq_ok_iff.mpr ⟨line.after, line.rest, rfl, hafter, hafter', h.rest_nonEmpty,
      hadds', rfl, takesUpTo_of_takes h.count⟩
  exact parts_eq_ok_iff.mpr
    ⟨line.before, _, rfl, hbefore, hbefore', h.path_before, hadds, hafterCommand⟩

/-- **Soundness**: what the parser takes apart is a well-formed line. -/
theorem exists_line_of_parts {args : List (List UInt8)} {p : Parts}
    (h : parts .none false args = .ok p) (hcount : p.verb.Takes p.paths.length) :
    ∃ line : Line, line.WellFormed ∧ line.args = args ∧ line.parts = p := by
  obtain ⟨before, args', rfl, hbefore, hbefore', hoptions, hadds, hafterCommand⟩ :=
    parts_eq_ok_iff.mp h
  obtain ⟨after, rest, rfl, hafter, hafter', hrest, hadds', hpaths, -⟩ :=
    afterCommand_eq_ok_iff.mp hafterCommand
  obtain ⟨hbeforeQuiet, hbeforeKey, hbeforeOptions⟩ := Options.adds_none_iff.mp hadds
  obtain ⟨hafterQuiet, hafterKey, hafterOptions⟩ := Options.adds_none_iff.mp hadds'
  rw [List.nil_append] at hpaths
  rw [hpaths] at hcount
  refine ⟨⟨before, p.verb, after, rest⟩, ?_, rfl, ?_⟩
  · exact {
      unambiguous := List.forall_mem_append.mpr ⟨hbefore, hafter⟩
      nonEmpty := List.forall_mem_append.mpr ⟨hbefore', hafter'⟩
      rest_nonEmpty := hrest
      path_before := hoptions
      quiet_before := hbeforeQuiet
      quiet_after := hafterQuiet
      key_before := hbeforeKey
      key_after := hafterKey
      count := hcount }
  · obtain ⟨_, _, _, _⟩ := p
    rw [Line.parts, ← hbeforeOptions, ← hafterOptions, Parts.mk.injEq]
    exact ⟨rfl, rfl, rfl, hpaths.symm⟩

/-! ## Lines and their invocations -/

/-- What follows the taking apart: an empty variable is refused unless both sides name a key file,
and the key option after the command wins over the one before it, that over the variable. -/
theorem parse_eq_ok_iff_parts {environment : Option (List UInt8)} {args : List (List UInt8)}
    {i : Invocation} :
    parse environment args = .ok i ↔
      ∃ p, parts .none false args = .ok p ∧
        (environment ≠ some [] ∨ p.before.key ≠ none ∧ p.after.key ≠ none) ∧
        (i.command.verb = p.verb ∧ i.command.paths = p.paths ∧ p.verb.Takes p.paths.length) ∧
        i.quiet = (p.before.quiet || p.after.quiet) ∧
        i.key = (p.after.key <|> p.before.key <|> environment.map Path.mk) := by
  rw [parse, bind_eq_ok_iff]
  refine exists_congr fun p => and_congr_right fun _ => ?_
  rw [ite_error_eq_ok_iff, not_and_or, not_or, Option.isNone_iff_eq_none,
    Option.isNone_iff_eq_none]
  refine and_congr_right fun _ => ?_
  obtain ⟨key, quiet, command⟩ := i
  dsimp only
  constructor
  · intro h
    split at h
    · cases h
    · next hcommand =>
        cases h
        exact ⟨command?_eq_some_iff.mp hcommand, rfl, rfl⟩
  · rintro ⟨hcommand, rfl, rfl⟩
    rw [command?_eq_some_iff.mpr hcommand]
    rfl

/-- **The grammar**: the arguments that are accepted are those of a well-formed
line, unless the environment names an empty key file and the line leaves a side
of the command without a key file. -/
theorem parse_accepts_iff (environment : Option (List UInt8)) (args : List (List UInt8))
    (i : Invocation) :
    parse environment args = .ok i ↔
      ∃ line : Line, line.WellFormed ∧ line.args = args ∧
        (environment ≠ some [] ∨ line.before.filterMap Item.key? ≠ [] ∧
          line.after.filterMap Item.key? ≠ []) ∧
        i.command.verb = line.verb ∧ i.command.paths = line.paths ∧
        i.quiet = (line.before ++ line.after).any Item.isQuiet ∧
        i.key = ((line.after.filterMap Item.key?).head? <|>
          (line.before.filterMap Item.key?).head? <|> environment.map Path.mk) := by
  have hempty (items : List Item) :
      (Options.ofItems items).key ≠ none ↔ items.filterMap Item.key? ≠ [] := by
    rw [Options.ofItems, ne_eq, List.head?_eq_none_iff]
  rw [parse_eq_ok_iff_parts]
  constructor
  · rintro ⟨p, hparts, henvironment, ⟨hverb, hpaths, hcount⟩, hquiet, hkey⟩
    obtain ⟨line, h, rfl, rfl⟩ := exists_line_of_parts hparts hcount
    simp only [Line.parts, hempty] at henvironment
    refine ⟨line, h, rfl, henvironment, hverb, hpaths, ?_, hkey⟩
    rw [hquiet, List.any_append]
    rfl
  · rintro ⟨line, h, rfl, henvironment, hverb, hpaths, hquiet, hkey⟩
    refine ⟨line.parts, parts_args h, ?_, ⟨hverb, hpaths, h.count⟩, ?_, hkey⟩
    · simp only [Line.parts, hempty]
      exact henvironment
    · rw [hquiet, List.any_append]
      rfl

/-- A line with a key file on either side is accepted whatever the environment names. -/
theorem parse_empty_environment_accepts :
    ¬ ∀ (environment : Option (List UInt8)) (args : List (List UInt8)),
      (∃ i, parse environment args = .ok i) ↔
        environment ≠ some [] ∧ ∃ line : Line, line.WellFormed ∧ line.args = args := by
  intro h
  let line : Line :=
    ⟨[.key true (ascii "a")], .verify, [.key true (ascii "b"), .path (ascii "x")], none⟩
  have hargs : line.args = [ascii "--key=a", ascii "verify", ascii "--key=b", ascii "x"] := rfl
  have hline : line.WellFormed := by
    refine ⟨?_, ?_, List.not_mem_nil, rfl, by decide, by decide, by decide, by decide,
      Nat.le_refl 1⟩
    · simp only [line, List.cons_append, List.nil_append, List.forall_mem_cons]
      exact ⟨trivial, trivial, Or.inr (by decide), List.forall_mem_nil _⟩
    · simp only [line, List.cons_append, List.nil_append, List.forall_mem_cons]
      exact ⟨List.cons_ne_nil _ _, List.cons_ne_nil _ _, List.cons_ne_nil _ _,
        List.forall_mem_nil _⟩
  have haccepted : ∃ i, parse (some []) line.args = .ok i := by
    refine ⟨⟨some ⟨ascii "b"⟩, false, .verify [⟨ascii "x"⟩]⟩, ?_⟩
    refine parse_eq_ok_iff_parts.mpr ⟨line.parts, parts_args hline, Or.inr ?_,
      ⟨rfl, rfl, hline.count⟩, rfl, rfl⟩
    exact ⟨by decide, by decide⟩
  rw [hargs] at haccepted
  exact absurd rfl ((h _ _).mp haccepted).1

end Sidecar.CommandLine
