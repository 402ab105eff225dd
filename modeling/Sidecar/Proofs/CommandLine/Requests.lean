import Sidecar.Proofs.CommandLine

/-!
# Sidecar.Proofs.CommandLine.Requests

The command lines that come to no invocation. Some ask for help or for the version
(`Asks`): what stands before such a request has to be readable, and what comes after it is
not looked at. Each other line that is not accepted is unusable (`parse_eq_error_iff`). The
environment has no part in a request, since it is looked at after all arguments.
-/

namespace Sidecar.CommandLine

/-! ## Requests -/

/-- What a command line can ask for. -/
inductive Request where
  | help
  | version
  deriving DecidableEq, Repr

namespace Request

/-- What a line with the request comes to. -/
def stop : Request → Stop
  | .help => .help
  | .version => .version

def name : Request → String
  | .help => "help"
  | .version => "version"

def letter : Request → UInt8
  | .help => 0x68
  | .version => 0x56

/-- Whether the request can be made on a side of the command. -/
def isMade (beforeCommand : Bool) : Request → Bool
  | .help => true
  | .version => beforeCommand

/-- The arguments that make a request, after others that may have the quiet option among
them: its name, or its letter at the front of any letters or behind that of the quiet option. -/
inductive Arg (request : Request) (quiet : Bool) : List UInt8 → Prop where
  | name : Arg request quiet (ascii "--" ++ ascii request.name)
  | letter (letters : List UInt8) : Arg request quiet (0x2D :: request.letter :: letters)
  | quietLetter (letters : List UInt8) (hquiet : quiet = false) :
      Arg request quiet (0x2D :: 0x71 :: request.letter :: letters)

end Request

/-! ## Lines with a request -/

/-- Items that are taken on one side of a command, one after another. -/
structure Readable (items : List Item) : Prop where
  unambiguous : ∀ item ∈ items, item.Unambiguous
  nonEmpty : ∀ item ∈ items, item.NonEmpty
  quiet : items.countP Item.isQuiet ≤ 1
  key : (items.filterMap Item.key?).length ≤ 1

/-- What asks for help from the command on: the help command, for itself or for one other, or
a command and a request for help after items that it can take. -/
inductive AsksFrom : List (List UInt8) → Prop where
  | helpCommand {names : List (List UInt8)}
      (hnames : names = [] ∨ names = [ascii "help"] ∨ ∃ verb : Verb, names = [ascii verb.name]) :
      AsksFrom (ascii "help" :: names)
  | command {verb : Verb} {items : List Item} {arg : List UInt8} (rest : List (List UInt8))
      (hitems : Readable items)
      (hcount : ∃ more, verb.Takes ((items.filterMap Item.path?).length + more))
      (harg : Request.help.Arg (items.any Item.isQuiet) arg) :
      AsksFrom (ascii verb.name :: (items.flatMap Item.args ++ arg :: rest))

/-- Nothing, or a key file in an argument of its own that is empty or comes after another one.
A line is not refused for that before its end or the next option. -/
def Late (key : Option Path) (late : List (List UInt8)) : Prop :=
  late = [] ∨ ∃ file, late = [ascii "--key", file] ∧ Plain file ∧ (file = [] ∨ key ≠ none)

/-- The command lines that make a request: before the command, after options, or from the
command on. -/
inductive Asks : Request → List (List UInt8) → Prop where
  | before {request : Request} {items : List Item} {arg : List UInt8} (rest : List (List UInt8))
      (hitems : Readable items) (hoptions : items.filterMap Item.path? = [])
      (harg : request.Arg (items.any Item.isQuiet) arg) :
      Asks request (items.flatMap Item.args ++ arg :: rest)
  | command {items : List Item} {late args : List (List UInt8)} (hitems : Readable items)
      (hoptions : items.filterMap Item.path? = [])
      (hlate : Late (items.filterMap Item.key?).head? late) (hargs : AsksFrom args) :
      Asks .help (items.flatMap Item.args ++ (late ++ args))

/-! ## Single arguments -/

section

variable {request : Request} {o : Options}

/-- What is refused makes no request. -/
@[simp] theorem usage_ne_stop : .usage ≠ request.stop := by
  cases request <;> simp [Request.stop]

/-- Repeating the quiet option is a usage error, and no request. -/
theorem addQuiet_ne_stop : o.addQuiet ≠ .error request.stop := by
  rw [Options.addQuiet]
  split
  · simp
  · simp

/-- So is an empty or a second key file. -/
theorem addKey_ne_stop {file : List UInt8} : o.addKey file ≠ .error request.stop := by
  rw [Options.addKey]
  split
  · simp
  · simp

/-- So is an empty path or one too many. -/
theorem addPath_ne_stop {verb : Verb} {paths : List Path} {path : List UInt8} :
    addPath verb paths path ≠ .error request.stop := by
  rw [addPath]
  split
  · simp
  · simp

/-- A letter other than the quiet option's makes a request if it is that of the request. -/
theorem addLetters_cons_eq_stop_iff {beforeCommand : Bool} {letter : UInt8} {letters : List UInt8}
    (h : letter ≠ 0x71) :
    o.addLetters beforeCommand (letter :: letters) = .error request.stop ↔
      request.isMade beforeCommand = true ∧ letter = request.letter := by
  rw [Options.addLetters, if_neg h]
  cases request with
  | help =>
      by_cases hhelp : letter = 0x68
      · simp [hhelp, Request.stop, Request.isMade, Request.letter]
      · rw [if_neg hhelp]
        split <;> simp [hhelp, Request.stop, Request.letter]
  | version =>
      by_cases hhelp : letter = 0x68
      · simp [hhelp, Request.stop, Request.letter]
      · rw [if_neg hhelp]
        split
        · next hversion => simp [hversion, Request.stop, Request.isMade, Request.letter]
        · next hversion =>
          simp only [Request.stop, Request.isMade, Request.letter, reduceCtorEq, false_iff,
            Except.error.injEq]
          exact fun h => hversion h.symm

/-- The quiet option's letter is refused where the option has been given. -/
theorem addLetters_quiet_of_quiet {beforeCommand : Bool} {letters : List UInt8}
    (h : o.quiet = true) : o.addLetters beforeCommand (0x71 :: letters) = .error .usage := by
  rw [Options.addLetters, if_pos rfl, Options.addQuiet, if_pos h, error_bind]

/-- Letters make a request if its letter is the first, or the first behind that of the
quiet option where that can be taken. -/
theorem addLetters_eq_stop_iff {beforeCommand : Bool} {letters : List UInt8} :
    o.addLetters beforeCommand letters = .error request.stop ↔
      request.isMade beforeCommand = true ∧
        ((∃ rest, letters = request.letter :: rest) ∨
          o.quiet = false ∧ ∃ rest, letters = 0x71 :: request.letter :: rest) := by
  have hletter : 0x71 ≠ request.letter := by cases request <;> decide
  match letters with
  | [] => simp [Options.addLetters]
  | letter :: letters =>
    by_cases hquiet : letter = 0x71
    · subst hquiet
      cases hgiven : o.quiet with
      | true => simp [addLetters_quiet_of_quiet hgiven, hletter]
      | false =>
          have hadd : o.addQuiet = .ok { o with quiet := true } := by
            rw [Options.addQuiet, hgiven]
            rfl
          rw [Options.addLetters, if_pos rfl, hadd, ok_bind]
          match letters with
          | [] => simp [Options.addLetters, hletter]
          | letter :: letters =>
            by_cases hagain : letter = 0x71
            · subst hagain
              simp [addLetters_quiet_of_quiet, hletter]
            · rw [addLetters_cons_eq_stop_iff hagain]
              simp [hletter]
    · rw [addLetters_cons_eq_stop_iff hquiet]
      simp [hquiet]

/-- A name makes a request if it is that of the request, and nothing is attached to it. -/
theorem addLong_eq_stop_iff {beforeCommand : Bool} {name : List UInt8}
    {value? : Option (List UInt8)} :
    o.addLong beforeCommand name value? = .error request.stop ↔
      request.isMade beforeCommand = true ∧ value? = none ∧ name = ascii request.name := by
  cases value? with
  | some value =>
      rw [Options.addLong]
      split
      · simp [addKey_ne_stop]
      · simp
  | none =>
      have hquiet : ascii "quiet" ≠ ascii request.name := by cases request <;> decide
      have hnames : ascii "help" ≠ ascii "version" := by decide
      rw [Options.addLong]
      split
      · next hname => simp [addQuiet_ne_stop, hname, hquiet]
      split
      · next hname =>
        cases request <;> simp [hname, hnames, Request.stop, Request.isMade, Request.name]
      split
      · next hhelp hname =>
        cases request <;> simp [hname, hnames.symm, Request.stop, Request.isMade, Request.name]
      · next hhelp hversion =>
        simp only [Except.error.injEq, usage_ne_stop, false_iff]
        cases request with
        | help => simp [hhelp, Request.name]
        | version =>
            rintro ⟨hmade, -, hname⟩
            exact hversion ⟨hname, hmade⟩

/-- **Requests**: the options in one argument are refused with a request if the argument makes
it. -/
theorem refuses_stop_iff {beforeCommand : Bool} {arg : List UInt8} :
    o.Refuses beforeCommand arg request.stop ↔
      request.isMade beforeCommand = true ∧ request.Arg o.quiet arg := by
  have harg := Token.bytes_ofBytes arg
  constructor
  · rintro (⟨letters, htoken, h⟩ | ⟨name, value?, htoken, -, h⟩)
    · rw [htoken] at harg
      rw [← harg]
      obtain ⟨hmade, ⟨rest, rfl⟩ | ⟨hquiet, rest, rfl⟩⟩ := addLetters_eq_stop_iff.mp h
      · exact ⟨hmade, .letter rest⟩
      · exact ⟨hmade, .quietLetter rest hquiet⟩
    · rw [htoken] at harg
      rw [← harg]
      obtain ⟨hmade, rfl, rfl⟩ := addLong_eq_stop_iff.mp h
      exact ⟨hmade, .name⟩
  · rintro ⟨hmade, h⟩
    cases h with
    | name =>
        have htoken : Token.ofBytes (ascii "--" ++ ascii request.name) =
            .long (ascii request.name) none := by cases request <;> rfl
        have hkey : ¬ (ascii request.name = ascii "key" ∧ (none : Option (List UInt8)) = none) := by
          cases request <;> decide
        exact Or.inr ⟨_, _, htoken, hkey, addLong_eq_stop_iff.mpr ⟨hmade, rfl, rfl⟩⟩
    | letter rest =>
        have htoken : Token.ofBytes (0x2D :: request.letter :: rest) =
            .short (request.letter :: rest) := by cases request <;> rfl
        exact Or.inl ⟨_, htoken, addLetters_eq_stop_iff.mpr ⟨hmade, Or.inl ⟨rest, rfl⟩⟩⟩
    | quietLetter rest hquiet =>
        exact Or.inl ⟨_, rfl, addLetters_eq_stop_iff.mpr ⟨hmade, Or.inr ⟨hquiet, rest, rfl⟩⟩⟩

end

/-! ## After the command -/

section

variable {request : Request} {verb : Verb} {o o₁ : Options} {paths : List Path}

/-- An item after the command asks for nothing. -/
theorem step_ne_stop {item : Item} : item.step verb o paths ≠ .error request.stop := by
  cases item with
  | quiet =>
      simp [Item.step, bind_eq_error_iff, addQuiet_ne_stop]
  | key =>
      simp [Item.step, bind_eq_error_iff, addKey_ne_stop]
  | path =>
      simp [Item.step, bind_eq_error_iff, addPath_ne_stop]

/-- Nor does an argument after the terminator. -/
theorem foldlM_addPath_ne_stop {rest : List (List UInt8)} :
    rest.foldlM (addPath verb) paths ≠ .error request.stop := by
  induction rest generalizing paths with
  | nil => simp
  | cons path rest ih => simp [bind_eq_error_iff, addPath_ne_stop, ih]

/-- A request ends the arguments after a command, whatever comes after it. -/
theorem afterCommand_of_arg {arg : List UInt8} (h : Request.help.Arg o.quiet arg)
    (rest : List (List UInt8)) : afterCommand verb o paths (arg :: rest) = .error .help :=
  afterCommand_of_refuses ((@refuses_stop_iff .help o false arg).mpr ⟨rfl, h⟩) rest

/-- Where the arguments after a command come to a request, the first one makes it or is that
of an item. -/
theorem of_afterCommand_eq_stop {arg : List UInt8} {args : List (List UInt8)}
    (h : afterCommand verb o paths (arg :: args) = .error request.stop) :
    request = .help ∧ Request.help.Arg o.quiet arg ∨
      ∃ (item : Item) (args' : _), item.Unambiguous ∧ arg :: args = item.args ++ args' := by
  cases o.front false arg args with
  | terminator htoken =>
      rw [afterCommand.eq_def] at h
      simp [htoken, bind_eq_error_iff, foldlM_addPath_ne_stop] at h
  | word htoken => exact Or.inr ⟨.path arg, args, plain_of_ofBytes_eq_word htoken, rfl⟩
  | item hitem _ hargs => exact Or.inr ⟨_, _, hitem, hargs⟩
  | refused hrefused =>
      rw [afterCommand_of_refuses hrefused, Except.error.injEq] at h
      rw [h, refuses_stop_iff] at hrefused
      obtain ⟨hmade, harg⟩ := hrefused
      cases request with
      | help => exact Or.inl ⟨rfl, harg⟩
      | version => cases hmade
  | missing htoken hvalue =>
      rw [afterCommand_of_missing htoken hvalue] at h
      exact absurd (Except.error.inj h) usage_ne_stop

/-- **Requests after the command**: help is asked for behind items that are taken. -/
theorem afterCommand_eq_stop_iff {args : List (List UInt8)} :
    afterCommand verb o paths args = .error request.stop ↔
      request = .help ∧ ∃ (items : List Item) (o₁ : Options) (arg : List UInt8) (rest : _),
        args = items.flatMap Item.args ++ arg :: rest ∧ (∀ item ∈ items, item.Unambiguous) ∧
        (∀ item ∈ items, item.NonEmpty) ∧ o.Adds items o₁ ∧
        verb.TakesUpTo paths.length (paths ++ items.filterMap Item.path?).length ∧
        Request.help.Arg o₁.quiet arg := by
  constructor
  · intro h
    induction hlength : args.length using Nat.strongRecOn generalizing o paths args with
    | ind n ih =>
      match args with
      | [] => simp [afterCommand] at h
      | arg :: args =>
        obtain ⟨rfl, harg⟩ | ⟨item, args', hitem, hargs⟩ := of_afterCommand_eq_stop h
        · have hself := takesUpTo_self verb paths.length
          exact ⟨rfl, [], o, arg, args, rfl, by simp, by simp, Options.adds_nil_iff.mpr rfl,
            by simpa using hself, harg⟩
        rw [hargs, afterCommand_append hitem, bind_eq_error_iff] at h
        obtain hstep | ⟨⟨o₂, paths₂⟩, hstep, h⟩ := h
        · exact absurd hstep step_ne_stop
        obtain ⟨hitem', hadds, rfl, htakes⟩ := step_eq_ok_iff.mp hstep
        have hlt : args'.length < n := hlength ▸ length_lt_of_eq_append hargs
        obtain ⟨rfl, items, o₁, arg', rest, hargs', hitems, hitems', hadds', htakes', harg'⟩ :=
          ih _ hlt h rfl
        rw [List.append_assoc] at htakes'
        refine ⟨rfl, item :: items, o₁, arg', rest, ?_, List.forall_mem_cons.mpr ⟨hitem, hitems⟩,
          List.forall_mem_cons.mpr ⟨hitem', hitems'⟩, Options.adds_cons_iff.mpr ⟨o₂, hadds, hadds'⟩,
          ?_, harg'⟩
        · rw [hargs, hargs', List.flatMap_cons, List.append_assoc]
        · rw [filterMap_path?_cons item items]
          exact takesUpTo_append_iff.mpr ⟨htakes, htakes'⟩
  · rintro ⟨rfl, items, o₁, arg, rest, rfl, hunambiguous, hnonEmpty, hadds, htakes, harg⟩
    rw [afterCommand_flatMap hunambiguous,
      foldlM_step_eq_ok_iff.mpr ⟨hnonEmpty, hadds, rfl, htakes⟩, ok_bind]
    exact afterCommand_of_arg harg rest

/-- A command takes so many paths if more of them can make their number right. -/
theorem takesUpTo_zero_iff {count : Nat} :
    verb.TakesUpTo 0 count ↔ ∃ more, verb.Takes (count + more) := by
  constructor
  · intro h
    cases verb with
    | verify | hash => exact ⟨1, Nat.succ_pos _⟩
    | signaturePath =>
        by_cases hcount : count ≤ 1
        · exact ⟨1 - count, Nat.add_sub_of_le hcount⟩
        · exact absurd (h 1 (Nat.zero_le 1) (by omega)) (by decide)
    | keyInfo =>
        by_cases hcount : count = 0
        · exact ⟨0, hcount⟩
        · exact absurd (h 0 (Nat.le_refl 0) (by omega)) (by decide)
  · rintro ⟨more, hmore⟩ n hle hlt
    exact takesUpTo_of_takes hmore n hle (by omega)

/-- A command asks for help if its arguments make a request. -/
theorem afterCommand_none_eq_stop_iff {args : List (List UInt8)} :
    afterCommand verb .none [] args = .error request.stop ↔
      request = .help ∧ AsksFrom (ascii verb.name :: args) := by
  rw [afterCommand_eq_stop_iff]
  refine and_congr_right fun _ => ?_
  simp only [List.length_nil, List.nil_append, takesUpTo_zero_iff]
  constructor
  · rintro ⟨items, o₁, arg, rest, rfl, hunambiguous, hnonEmpty, hadds, htakes, harg⟩
    obtain ⟨hquiet, hkey, rfl⟩ := Options.adds_none_iff.mp hadds
    exact .command rest ⟨hunambiguous, hnonEmpty, hquiet, hkey⟩ htakes harg
  · intro h
    generalize hargs : ascii verb.name :: args = line at h
    cases h with
    | helpCommand =>
        have hname := (List.cons.inj hargs).1
        exact absurd hname (by cases verb <;> decide)
    | @command verb' items arg rest hitems hcount harg =>
        obtain ⟨hname, rfl⟩ := List.cons.inj hargs
        have hverb : verb = verb' := by
          have hsome := ofName?_eq_some_iff.mpr hname
          rw [ofName?_eq_some_iff.mpr rfl] at hsome
          exact Option.some.inj hsome
        subst hverb
        have hadds := Options.adds_none_iff.mpr ⟨hitems.quiet, hitems.key, rfl⟩
        exact ⟨items, .ofItems items, arg, rest, rfl, hitems.unambiguous, hitems.nonEmpty, hadds,
          hcount, harg⟩

end

/-! ## Before the command -/

section

variable {request : Request} {o o₁ : Options} {args : List (List UInt8)}

/-- The help command takes the name of a command, its own among them. -/
theorem helpCommand_eq_stop_iff :
    helpCommand args = request.stop ↔ request = .help ∧ AsksFrom (ascii "help" :: args) := by
  have hcommand : AsksFrom (ascii "help" :: args) ↔
      args = [] ∨ args = [ascii "help"] ∨ ∃ verb : Verb, args = [ascii verb.name] := by
    constructor
    · intro h
      generalize hargs : ascii "help" :: args = line at h
      cases h with
      | helpCommand hnames =>
          cases hargs
          exact hnames
      | @command verb =>
          have hname := (List.cons.inj hargs).1
          exact absurd hname (by cases verb <;> decide)
    · exact .helpCommand
  have hhelp : .help = request.stop ↔ request = .help := by cases request <;> decide
  rw [hcommand]
  match args with
  | [] => simp [helpCommand, hhelp]
  | [name] =>
    have hname : (Verb.ofName? name).isSome = true ↔ ∃ verb : Verb, name = ascii verb.name := by
      simp only [Option.isSome_iff_exists, ofName?_eq_some_iff]
    rw [helpCommand]
    split
    · next h =>
      rw [hname] at h
      simp [hhelp, h]
    · next h =>
      rw [hname] at h
      simp [h]
  | _ :: _ :: _ => simp [helpCommand]

/-- A word before the command is the help command or a command, or there is no request. -/
theorem parts_word_eq_stop_iff {unusable : Bool} {arg : List UInt8}
    (htoken : Token.ofBytes arg = .word arg) :
    parts o unusable (arg :: args) = .error request.stop ↔
      request = .help ∧ AsksFrom (arg :: args) := by
  rw [parts.eq_def]
  simp only [htoken]
  split
  · next hhelp => rw [Except.error.injEq, helpCommand_eq_stop_iff, hhelp]
  · next hhelp =>
    split
    · next hverb =>
      simp only [Except.error.injEq, usage_ne_stop, false_iff, not_and]
      rintro - h
      cases h with
      | helpCommand => exact hhelp rfl
      | command => simp [ofName?_eq_some_iff.mpr rfl] at hverb
    · next verb hverb =>
      rw [ofName?_eq_some_iff.mp hverb, ← afterCommand_none_eq_stop_iff, bind_eq_error_iff]
      constructor
      · rintro (h | ⟨_, -, h⟩)
        · exact h
        · split at h
          · exact absurd (Except.error.inj h) usage_ne_stop
          · cases h
      · exact Or.inl

/-- From the command on, it does not matter what came before. -/
theorem parts_of_asksFrom {unusable : Bool} (h : AsksFrom args) :
    parts o unusable args = .error .help := by
  have hword : ∀ {arg args}, AsksFrom (arg :: args) → Token.ofBytes arg = .word arg →
      parts o unusable (arg :: args) = .error .help := by
    intro arg args h htoken
    exact (@parts_word_eq_stop_iff .help o args unusable arg htoken).mpr ⟨rfl, h⟩
  cases h with
  | helpCommand hnames => exact hword (.helpCommand hnames) rfl
  | @command verb items arg rest hitems hcount harg =>
      exact hword (.command rest hitems hcount harg) (by cases verb <;> rfl)

/-- Behind a key file that cannot be taken there is no request but from the command on. -/
theorem asksFrom_of_parts_true (h : parts o true args = .error request.stop) :
    request = .help ∧ AsksFrom args := by
  match args with
  | [] => exact absurd (Except.error.inj h) usage_ne_stop
  | arg :: args =>
    cases htoken : Token.ofBytes arg with
    | word bytes =>
        have harg := Token.bytes_ofBytes arg
        rw [htoken, Token.bytes] at harg
        rw [harg] at htoken
        exact (parts_word_eq_stop_iff htoken).mp h
    | terminator | short letters | long name value? =>
        rw [parts.eq_def] at h
        simp [htoken] at h

/-- A request ends the options before a command, whatever comes after it. -/
theorem parts_of_arg {arg : List UInt8} (h : request.Arg o.quiet arg) (rest : List (List UInt8)) :
    parts o false (arg :: rest) = .error request.stop := by
  have hmade : request.isMade true = true := by cases request <;> rfl
  exact parts_of_refuses (refuses_stop_iff.mpr ⟨hmade, h⟩) rest

/-- Where a line comes to a request, its first argument makes it, is the command that it is
made from on, or is that of an option. -/
theorem of_parts_eq_stop {arg : List UInt8}
    (h : parts o false (arg :: args) = .error request.stop) :
    request.Arg o.quiet arg ∨ request = .help ∧ AsksFrom (arg :: args) ∨
      ∃ (item : Item) (args' : _), item.Unambiguous ∧ item.path? = none ∧
        arg :: args = item.args ++ args' := by
  cases o.front true arg args with
  | terminator htoken =>
      rw [parts.eq_def] at h
      simp only [htoken] at h
      exact absurd (Except.error.inj h) usage_ne_stop
  | word htoken => exact Or.inr (Or.inl ((parts_word_eq_stop_iff htoken).mp h))
  | item hitem hoption hargs => exact Or.inr (Or.inr ⟨_, _, hitem, hoption, hargs⟩)
  | refused hrefused =>
      rw [parts_of_refuses hrefused, Except.error.injEq] at h
      rw [h, refuses_stop_iff] at hrefused
      exact Or.inl hrefused.2
  | missing htoken hvalue =>
      rw [parts_of_missing htoken hvalue] at h
      exact absurd (Except.error.inj h) usage_ne_stop

/-- A key file that comes late does not keep a request from the command on from being made. -/
theorem parts_of_late {late : List (List UInt8)} (hlate : Late o.key late) (h : AsksFrom args) :
    parts o false (late ++ args) = .error .help := by
  obtain rfl | ⟨file, rfl, hplain, hfile⟩ := hlate
  · exact parts_of_asksFrom h
  · have hadd : (Item.key false file).add o = .error .usage := by
      rw [Item.add, Options.addKey, if_pos]
      rwa [Option.isSome_iff_ne_none]
    have hitem : (Item.key false file).Unambiguous := hplain
    have hline : [ascii "--key", file] ++ args = (Item.key false file).args ++ args := rfl
    rw [hline, parts_append hitem rfl, hadd]
    exact parts_of_asksFrom h

theorem add_ne_stop {item : Item} : item.add o ≠ .error request.stop := by
  cases item with
  | quiet => exact addQuiet_ne_stop
  | key => exact addKey_ne_stop
  | path => nofun

/-- An option that is not refused at once is a key file in an argument of its own. -/
theorem late_of_isDetached {item : Item} {stop : Stop} (hitem : item.Unambiguous)
    (hadd : item.add o = .error stop) (h : item.isDetached = true) : Late o.key item.args := by
  match item with
  | .key false file =>
    refine Or.inr ⟨file, rfl, hitem, ?_⟩
    by_contra! hfile
    rw [Item.add, Options.addKey, if_neg (by simpa using hfile)] at hadd
    cases hadd

/-- **Requests before the command**: a request is made behind options that are taken, or from
the command on. -/
theorem exists_items_of_parts_eq_stop (h : parts o false args = .error request.stop) :
    ∃ (items : List Item) (o₁ : Options) (args' : _),
      args = items.flatMap Item.args ++ args' ∧ (∀ item ∈ items, item.Unambiguous) ∧
      (∀ item ∈ items, item.NonEmpty) ∧ items.filterMap Item.path? = [] ∧ o.Adds items o₁ ∧
      ((∃ arg rest, args' = arg :: rest ∧ request.Arg o₁.quiet arg) ∨
        request = .help ∧
          ∃ late rest, args' = late ++ rest ∧ Late o₁.key late ∧ AsksFrom rest) := by
  induction hlength : args.length using Nat.strongRecOn generalizing o args with
  | ind n ih =>
    match args with
    | [] => exact absurd (Except.error.inj h) usage_ne_stop
    | arg :: args =>
      have hself := Options.adds_nil_iff.mpr (rfl : o = o)
      obtain harg | ⟨rfl, hargs⟩ | ⟨item, args', hitem, hoption, hargs⟩ := of_parts_eq_stop h
      · exact ⟨[], o, _, rfl, by simp, by simp, rfl, hself, Or.inl ⟨arg, args, rfl, harg⟩⟩
      · exact ⟨[], o, _, rfl, by simp, by simp, rfl, hself,
          Or.inr ⟨rfl, [], _, rfl, Or.inl rfl, hargs⟩⟩
      rw [hargs, parts_append hitem hoption] at h
      cases hadd : item.add o with
      | ok o₂ =>
          rw [hadd] at h
          obtain ⟨hitem', hadds⟩ := (add_eq_ok_iff hoption).mp hadd
          have hlt : args'.length < n := hlength ▸ length_lt_of_eq_append hargs
          obtain ⟨items, o₁, rest, hargs', hitems, hitems', hoptions, hadds', hrest⟩ :=
            ih _ hlt h rfl
          refine ⟨item :: items, o₁, rest, ?_, List.forall_mem_cons.mpr ⟨hitem, hitems⟩,
            List.forall_mem_cons.mpr ⟨hitem', hitems'⟩, ?_,
            Options.adds_cons_iff.mpr ⟨o₂, hadds, hadds'⟩, hrest⟩
          · rw [hargs, hargs', List.flatMap_cons, List.append_assoc]
          · rw [List.filterMap_cons_none hoption, hoptions]
      | error stop =>
          rw [hadd] at h
          cases hdetached : item.isDetached with
          | true =>
              simp only [hdetached, if_true] at h
              obtain ⟨rfl, hasks⟩ := asksFrom_of_parts_true h
              exact ⟨[], o, _, rfl, by simp, by simp, rfl, hself, Or.inr ⟨rfl, item.args, args',
                hargs, late_of_isDetached hitem hadd hdetached, hasks⟩⟩
          | false =>
              simp only [hdetached, Bool.false_eq_true, if_false] at h
              rw [Except.error.inj h] at hadd
              exact absurd hadd add_ne_stop

/-- Taking a line apart ends with a request exactly if the line asks. -/
theorem parts_eq_stop_iff : parts .none false args = .error request.stop ↔ Asks request args := by
  constructor
  · intro h
    obtain ⟨items, o₁, _, rfl, hunambiguous, hnonEmpty, hoptions, hadds, hrest⟩ :=
      exists_items_of_parts_eq_stop h
    obtain ⟨hquiet, hkey, rfl⟩ := Options.adds_none_iff.mp hadds
    have hitems : Readable items := ⟨hunambiguous, hnonEmpty, hquiet, hkey⟩
    obtain ⟨arg, rest, rfl, harg⟩ | ⟨rfl, late, rest, rfl, hlate, hargs⟩ := hrest
    · exact .before rest hitems hoptions harg
    · exact .command hitems hoptions hlate hargs
  · intro h
    have hadds {items : List Item} (hitems : Readable items) :
        Options.none.Adds items (.ofItems items) :=
      Options.adds_none_iff.mpr ⟨hitems.quiet, hitems.key, rfl⟩
    cases h with
    | before rest hitems hoptions harg =>
        rw [parts_flatMap hitems.unambiguous hitems.nonEmpty hoptions (hadds hitems)]
        exact parts_of_arg harg rest
    | command hitems hoptions hlate hargs =>
        rw [parts_flatMap hitems.unambiguous hitems.nonEmpty hoptions (hadds hitems)]
        exact parts_of_late hlate hargs

end

/-! ## The whole line -/

/-- **Rejected lines**: a line comes to help or the version exactly if it asks for them, whatever
the environment names, and it is unusable exactly if it is neither accepted nor asks for either. -/
theorem parse_eq_error_iff (environment : Option (List UInt8)) (args : List (List UInt8)) :
    (parse environment args = .error .help ↔ Asks .help args) ∧
    (parse environment args = .error .version ↔ Asks .version args) ∧
    (parse environment args = .error .usage ↔
      (¬ ∃ i, parse environment args = .ok i) ∧ ∀ request, ¬ Asks request args) := by
  have hrequest (request : Request) :
      parse environment args = .error request.stop ↔ Asks request args := by
    rw [← parts_eq_stop_iff, parse, bind_eq_error_iff]
    constructor
    · rintro (h | ⟨p, -, h⟩)
      · exact h
      · split at h
        · exact absurd (Except.error.inj h) usage_ne_stop
        · split at h
          · exact absurd (Except.error.inj h) usage_ne_stop
          · cases h
    · exact Or.inl
  refine ⟨hrequest .help, hrequest .version, ?_⟩
  simp only [← hrequest]
  cases parse environment args with
  | ok i => simp
  | error stop =>
      cases stop with
      | usage => simp
      | help => simpa using ⟨Request.help, rfl⟩
      | version => simpa using ⟨Request.version, rfl⟩

end Sidecar.CommandLine
