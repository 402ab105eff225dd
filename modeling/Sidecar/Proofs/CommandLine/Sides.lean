import Sidecar.Proofs.CommandLine.Options

/-!
# Sidecar.Proofs.CommandLine.Sides

The two sides of a command (`afterCommand_eq_ok_iff`, `parts_eq_ok_iff`). On
either side `…_append` says what one item does, `exists_item_of_…` that nothing
but an item is accepted, and a whole side is an induction on its items.
-/

namespace Sidecar.CommandLine

theorem Item.length_args_pos (item : Item) : 0 < item.args.length := by
  match item with
  | .quiet true | .quiet false | .key true _ | .key false _ | .path _ => exact Nat.succ_pos _

/-- What follows an item is shorter than what it stands at the front of. -/
theorem length_lt_of_eq_append {item : Item} {args args' : List (List UInt8)}
    (h : args = item.args ++ args') : args'.length < args.length := by
  have hpos := item.length_args_pos
  rw [h, List.length_append]
  omega

/-! ## After the command -/

section

variable {verb : Verb} {o o' : Options} {paths paths' : List Path}

/-- Whether a command that has `m` paths takes more of them until there are `n`. -/
def Verb.TakesUpTo (verb : Verb) (m n : Nat) : Prop :=
  ∀ count, m ≤ count → count < n → verb.takesMore count = true

theorem takesUpTo_self (verb : Verb) (n : Nat) : verb.TakesUpTo n n := by
  intro count hle hlt
  omega

/-- Paths are counted as they come, so two runs of them are not too many if neither is, each after
those before it. -/
theorem takesUpTo_append_iff {xs ys zs : List Path} :
    verb.TakesUpTo xs.length (xs ++ (ys ++ zs)).length ↔
      verb.TakesUpTo xs.length (xs ++ ys).length ∧
        verb.TakesUpTo (xs ++ ys).length (xs ++ (ys ++ zs)).length := by
  simp only [List.length_append]
  constructor
  · intro h
    exact ⟨fun count hle hlt => h count hle (by omega), fun count hle hlt => h count (by omega) hlt⟩
  · rintro ⟨h, h'⟩ count hle hlt
    by_cases hcount : count < xs.length + ys.length
    · exact h count hle hcount
    · exact h' count (by omega) hlt

/-- A path is taken if it has text and is not one too many. -/
theorem addPath_eq_ok_iff {bytes : List UInt8} :
    addPath verb paths bytes = .ok paths' ↔
      bytes ≠ [] ∧ paths' = paths ++ [Path.mk bytes] ∧
        verb.TakesUpTo paths.length (paths ++ [Path.mk bytes]).length := by
  have htakes : verb.TakesUpTo paths.length (paths ++ [Path.mk bytes]).length ↔
      verb.takesMore paths.length = true := by
    rw [List.length_append, List.length_singleton]
    constructor
    · intro h
      exact h paths.length (Nat.le_refl _) (Nat.lt_succ_self _)
    · intro h count hle hlt
      rwa [Nat.le_antisymm (Nat.le_of_lt_succ hlt) hle]
  rw [addPath, htakes]
  constructor
  · intro h
    split at h
    · next hpath =>
        cases h
        exact ⟨hpath.1, rfl, hpath.2⟩
    · cases h
  · rintro ⟨hpath, rfl, hmore⟩
    rw [if_pos ⟨hpath, hmore⟩]

/-- After the terminator every argument is a path. -/
theorem foldlM_addPath_eq_ok_iff {rest : List (List UInt8)} :
    rest.foldlM (addPath verb) paths = .ok paths' ↔
      [] ∉ rest ∧ paths' = paths ++ rest.map Path.mk ∧
        verb.TakesUpTo paths.length (paths ++ rest.map Path.mk).length := by
  induction rest generalizing paths with
  | nil =>
      have hself := takesUpTo_self verb paths.length
      simp [eq_comm, hself]
  | cons bytes rest ih =>
      have hsplit : paths ++ (bytes :: rest).map Path.mk =
          paths ++ ([⟨bytes⟩] ++ rest.map Path.mk) := rfl
      simp only [List.foldlM_cons, bind_eq_ok_iff, addPath_eq_ok_iff, ih, hsplit,
        takesUpTo_append_iff, List.mem_cons, not_or]
      constructor
      · rintro ⟨_, ⟨hbytes, rfl, hmore⟩, hrest, hpaths, hmore'⟩
        rw [List.append_assoc] at hpaths hmore'
        exact ⟨⟨Ne.symm hbytes, hrest⟩, hpaths, hmore, hmore'⟩
      · rintro ⟨⟨hbytes, hrest⟩, hpaths, hmore, hmore'⟩
        rw [← List.append_assoc] at hpaths hmore'
        exact ⟨_, ⟨Ne.symm hbytes, rfl, hmore⟩, hrest, hpaths, hmore'⟩

/-- Takes an item after the command. -/
def Item.step (verb : Verb) (o : Options) (paths : List Path) :
    Item → Except Stop (Options × List Path)
  | .quiet _ => do return (← o.addQuiet, paths)
  | .key _ file => do return (← o.addKey file, paths)
  | .path bytes => do return (o, ← addPath verb paths bytes)

/-- An item after the command adds to the options or to the paths. -/
theorem step_eq_ok_iff {item : Item} :
    item.step verb o paths = .ok (o', paths') ↔
      item.NonEmpty ∧ o.Adds [item] o' ∧ paths' = paths ++ [item].filterMap Item.path? ∧
        verb.TakesUpTo paths.length (paths ++ [item].filterMap Item.path?).length := by
  have hself := takesUpTo_self verb paths.length
  cases item with
  | quiet long =>
      have hnone : [Item.quiet long].filterMap Item.path? = [] := rfl
      simp only [Item.step, bind_eq_ok_iff, pure_eq_ok, Except.ok.injEq, Prod.mk.injEq,
        Options.addQuiet_eq_ok_iff long, hnone, List.append_nil, Item.NonEmpty, true_and]
      constructor
      · rintro ⟨_, hadds, rfl, rfl⟩
        exact ⟨hadds, rfl, hself⟩
      · rintro ⟨hadds, rfl, -⟩
        exact ⟨_, hadds, rfl, rfl⟩
  | key attached file =>
      have hnone : [Item.key attached file].filterMap Item.path? = [] := rfl
      simp only [Item.step, bind_eq_ok_iff, pure_eq_ok, Except.ok.injEq, Prod.mk.injEq,
        Options.addKey_eq_ok_iff attached, hnone, List.append_nil, Item.NonEmpty]
      constructor
      · rintro ⟨_, ⟨hfile, hadds⟩, rfl, rfl⟩
        exact ⟨hfile, hadds, rfl, hself⟩
      · rintro ⟨hfile, hadds, rfl, -⟩
        exact ⟨_, ⟨hfile, hadds⟩, rfl, rfl⟩
  | path bytes =>
      have hone : [Item.path bytes].filterMap Item.path? = [⟨bytes⟩] := rfl
      have hadds : o.Adds [.path bytes] o' ↔ o' = o := by
        rw [← Options.adds_nil_iff]
        exact ⟨fun h => ⟨h.key, h.quiet⟩, fun h => ⟨h.key, h.quiet⟩⟩
      simp only [Item.step, bind_eq_ok_iff, pure_eq_ok, Except.ok.injEq, Prod.mk.injEq,
        addPath_eq_ok_iff, hone, hadds, Item.NonEmpty]
      constructor
      · rintro ⟨_, ⟨hbytes, rfl, hmore⟩, rfl, rfl⟩
        exact ⟨hbytes, rfl, rfl, hmore⟩
      · rintro ⟨hbytes, rfl, rfl, hmore⟩
        exact ⟨_, ⟨hbytes, rfl, hmore⟩, rfl, rfl⟩

/-- What one item does. -/
theorem afterCommand_append {item : Item} (h : item.Unambiguous) (args : List (List UInt8)) :
    afterCommand verb o paths (item.args ++ args) =
      (item.step verb o paths >>= fun r => afterCommand verb r.1 r.2 args) := by
  match item with
  | .quiet true =>
      have htoken : Token.ofBytes (ascii "--quiet") = .long (ascii "quiet") none := rfl
      have hname : ascii "quiet" ≠ ascii "key" := by decide
      rw [Item.args, List.singleton_append, afterCommand.eq_def]
      simp [htoken, Options.addLong, Item.step, hname]
  | .quiet false =>
      have htoken : Token.ofBytes (ascii "-q") = .short [0x71] := rfl
      rw [Item.args, List.singleton_append, afterCommand.eq_def]
      simp [htoken, Options.addLetters, Item.step]
  | .key true file =>
      have htoken : Token.ofBytes (ascii "--key=" ++ file) = .long (ascii "key") (some file) := rfl
      rw [Item.args, List.singleton_append, afterCommand.eq_def]
      simp [htoken, Options.addLong, Item.step]
  | .key false file =>
      have htoken : Token.ofBytes (ascii "--key") = .long (ascii "key") none := rfl
      rw [Item.args, List.cons_append, List.singleton_append, afterCommand.eq_def]
      simp [htoken, Item.step, isValue_iff.mpr h]
  | .path bytes =>
      rw [Item.args, List.singleton_append, afterCommand.eq_def]
      simp [ofBytes_of_plain h, Item.step]

/-- What options refuse ends the arguments after a command. -/
theorem afterCommand_of_refuses {arg : List UInt8} {stop : Stop} (h : o.Refuses false arg stop)
    (args : List (List UInt8)) : afterCommand verb o paths (arg :: args) = .error stop := by
  rw [afterCommand.eq_def]
  obtain ⟨letters, htoken, hletters⟩ | ⟨name, value?, htoken, hkey, hlong⟩ := h
  · simp [htoken, hletters]
  · simp [htoken, hkey, hlong]

/-- So does a key option with no file after it. -/
theorem afterCommand_of_missing {arg : List UInt8} {args : List (List UInt8)}
    (htoken : Token.ofBytes arg = .long (ascii "key") none)
    (hvalue : ∀ file ∈ args.head?, isValue file = false) :
    afterCommand verb o paths (arg :: args) = .error .usage := by
  rw [afterCommand.eq_def]
  cases args with
  | nil => simp [htoken]
  | cons file args =>
      have hfile : isValue file = false := hvalue file rfl
      simp [htoken, hfile]

/-- Nothing but an item is taken before `--`. -/
theorem exists_item_of_afterCommand {arg : List UInt8} {args : List (List UInt8)}
    {r : Options × List Path} (h : afterCommand verb o paths (arg :: args) = .ok r) :
    arg = ascii "--" ∨
      ∃ (item : Item) (args' : _), item.Unambiguous ∧ arg :: args = item.args ++ args' := by
  cases o.front false arg args with
  | terminator htoken =>
      have harg := Token.bytes_ofBytes arg
      rw [htoken] at harg
      exact Or.inl harg.symm
  | word htoken => exact Or.inr ⟨.path arg, args, plain_of_ofBytes_eq_word htoken, rfl⟩
  | item hitem _ hargs => exact Or.inr ⟨_, _, hitem, hargs⟩
  | refused hrefused =>
      rw [afterCommand_of_refuses hrefused] at h
      cases h
  | missing htoken hvalue =>
      rw [afterCommand_of_missing htoken hvalue] at h
      cases h

/-- What the items of a side do, one after another. -/
theorem afterCommand_flatMap {items : List Item} (h : ∀ item ∈ items, item.Unambiguous)
    (args : List (List UInt8)) :
    afterCommand verb o paths (items.flatMap Item.args ++ args) =
      (items.foldlM (fun r item => item.step verb r.1 r.2) (o, paths) >>= fun r =>
        afterCommand verb r.1 r.2 args) := by
  induction items generalizing o paths with
  | nil => simp
  | cons item items ih =>
      obtain ⟨hitem, hitems⟩ := List.forall_mem_cons.mp h
      rw [List.flatMap_cons, List.append_assoc, afterCommand_append hitem, List.foldlM_cons,
        bind_assoc]
      simp only [ih hitems]

theorem filterMap_path?_cons (item : Item) (items : List Item) :
    (item :: items).filterMap Item.path? =
      [item].filterMap Item.path? ++ items.filterMap Item.path? := by
  rw [← List.filterMap_append, List.singleton_append]

/-- Items after the command add to the options and to the paths. -/
theorem foldlM_step_eq_ok_iff {items : List Item} :
    items.foldlM (fun r item => item.step verb r.1 r.2) (o, paths) = .ok (o', paths') ↔
      (∀ item ∈ items, item.NonEmpty) ∧ o.Adds items o' ∧
        paths' = paths ++ items.filterMap Item.path? ∧
        verb.TakesUpTo paths.length (paths ++ items.filterMap Item.path?).length := by
  induction items generalizing o paths with
  | nil =>
      have hself := takesUpTo_self verb paths.length
      simp [Options.adds_nil_iff, hself, eq_comm]
  | cons item items ih =>
      have hcons : o.Adds (item :: items) o' ↔ _ := Options.adds_cons_iff
      simp only [List.foldlM_cons, bind_eq_ok_iff, Prod.exists, step_eq_ok_iff, ih,
        filterMap_path?_cons item items, takesUpTo_append_iff, List.forall_mem_cons, hcons]
      constructor
      · rintro ⟨o₁, _, ⟨hitem, hadds, rfl, htakes⟩, hitems, hadds', hpaths, htakes'⟩
        rw [List.append_assoc] at hpaths htakes'
        exact ⟨⟨hitem, hitems⟩, ⟨o₁, hadds, hadds'⟩, hpaths, htakes, htakes'⟩
      · rintro ⟨⟨hitem, hitems⟩, ⟨o₁, hadds, hadds'⟩, hpaths, htakes, htakes'⟩
        rw [← List.append_assoc] at hpaths htakes'
        exact ⟨o₁, _, ⟨hitem, hadds, rfl, htakes⟩, hitems, hadds', hpaths, htakes'⟩

/-- What is accepted after the command is items that are unambiguous, and a trailer. -/
theorem exists_items_of_afterCommand {args : List (List UInt8)} {r : Options × List Path}
    (h : afterCommand verb o paths args = .ok r) :
    ∃ (items : List Item) (rest : _),
      (∀ item ∈ items, item.Unambiguous) ∧ args = items.flatMap Item.args ++ trailer rest := by
  induction hlength : args.length using Nat.strongRecOn generalizing o paths args with
  | ind n ih =>
    match args with
    | [] => exact ⟨[], none, by simp, rfl⟩
    | arg :: args =>
      obtain rfl | ⟨item, args', hitem, hargs⟩ := exists_item_of_afterCommand h
      · exact ⟨[], some args, by simp, rfl⟩
      rw [hargs, afterCommand_append hitem, bind_eq_ok_iff] at h
      obtain ⟨_, -, h⟩ := h
      have hlt : args'.length < n := hlength ▸ length_lt_of_eq_append hargs
      obtain ⟨items, rest, hitems, hargs'⟩ := ih _ hlt h rfl
      refine ⟨item :: items, rest, List.forall_mem_cons.mpr ⟨hitem, hitems⟩, ?_⟩
      rw [hargs, hargs', List.flatMap_cons, List.append_assoc]

/-- A trailer adds its paths and ends the line. -/
theorem afterCommand_trailer_eq_ok_iff {rest : Option (List (List UInt8))} :
    afterCommand verb o paths (trailer rest) = .ok (o', paths') ↔
      [] ∉ rest.getD [] ∧ o' = o ∧ paths' = paths ++ (rest.getD []).map Path.mk ∧
        verb.TakesUpTo paths.length (paths ++ (rest.getD []).map Path.mk).length := by
  cases rest with
  | none =>
      have hself := takesUpTo_self verb paths.length
      rw [trailer, afterCommand]
      simp [hself, eq_comm]
  | some rest =>
      have htoken : Token.ofBytes (ascii "--") = .terminator := rfl
      have hfold : afterCommand verb o paths (trailer (some rest)) =
          (rest.foldlM (addPath verb) paths >>= fun paths => pure (o, paths)) := by
        rw [trailer, afterCommand.eq_def]
        simp [htoken]
      rw [hfold]
      simp only [bind_eq_ok_iff, foldlM_addPath_eq_ok_iff, pure_eq_ok, Except.ok.injEq,
        Prod.mk.injEq, Option.getD_some]
      constructor
      · rintro ⟨_, ⟨hrest, rfl, htakes⟩, rfl, rfl⟩
        exact ⟨hrest, rfl, rfl, htakes⟩
      · rintro ⟨hrest, rfl, rfl, htakes⟩
        exact ⟨_, ⟨hrest, rfl, htakes⟩, rfl, rfl⟩

/-- **After the command**: what is accepted there are items, and paths after `--`. -/
theorem afterCommand_eq_ok_iff {args : List (List UInt8)} :
    afterCommand verb o paths args = .ok (o', paths') ↔
      ∃ (items : List Item) (rest : _),
        args = items.flatMap Item.args ++ trailer rest ∧
        (∀ item ∈ items, item.Unambiguous) ∧ (∀ item ∈ items, item.NonEmpty) ∧
        [] ∉ rest.getD [] ∧ o.Adds items o' ∧
        paths' = paths ++ (items.filterMap Item.path? ++ (rest.getD []).map Path.mk) ∧
        verb.TakesUpTo paths.length paths'.length := by
  constructor
  · intro h
    obtain ⟨items, rest, hunambiguous, rfl⟩ := exists_items_of_afterCommand h
    rw [afterCommand_flatMap hunambiguous, bind_eq_ok_iff] at h
    obtain ⟨⟨o₁, paths₁⟩, hitems, h⟩ := h
    obtain ⟨hnonEmpty, hadds, rfl, htakes⟩ := foldlM_step_eq_ok_iff.mp hitems
    obtain ⟨hrest, rfl, rfl, htakes'⟩ := afterCommand_trailer_eq_ok_iff.mp h
    rw [List.append_assoc] at htakes' ⊢
    exact ⟨items, rest, rfl, hunambiguous, hnonEmpty, hrest, hadds, rfl,
      takesUpTo_append_iff.mpr ⟨htakes, htakes'⟩⟩
  · rintro ⟨items, rest, rfl, hunambiguous, hnonEmpty, hrest, hadds, rfl, htakes⟩
    obtain ⟨htakes, htakes'⟩ := takesUpTo_append_iff.mp htakes
    rw [← List.append_assoc] at htakes' ⊢
    rw [afterCommand_flatMap hunambiguous,
      foldlM_step_eq_ok_iff.mpr ⟨hnonEmpty, hadds, rfl, htakes⟩, ok_bind]
    exact afterCommand_trailer_eq_ok_iff.mpr ⟨hrest, rfl, rfl, htakes'⟩

end

/-! ## Before the command -/

theorem ofName?_eq_some_iff {name : List UInt8} {verb : Verb} :
    Verb.ofName? name = some verb ↔ name = ascii verb.name := by
  constructor
  · intro h
    rw [Verb.ofName?] at h
    have hname := List.find?_some h
    exact (beq_iff_eq.mp hname).symm
  · rintro rfl
    cases verb <;> rfl

section

variable {o : Options} {p : Parts}

/-- No line is accepted whose key file has been found unusable. -/
theorem parts_true_ne_ok (args : List (List UInt8)) : parts o true args ≠ .ok p := by
  cases args with
  | nil => nofun
  | cons arg args =>
      rw [parts.eq_def]
      dsimp only
      split
      · nofun
      · split
        · nofun
        split
        · nofun
        · simp [bind_eq_ok_iff]
      · nofun
      · nofun

/-- Takes an option before the command. -/
def Item.add (o : Options) : Item → Except Stop Options
  | .quiet _ => o.addQuiet
  | .key _ file => o.addKey file
  | .path _ => .ok o

/-- Whether an option has its value in an argument of its own. -/
def Item.isDetached : Item → Bool
  | .key false _ => true
  | _ => false

/-- An option before the command adds to the options. -/
theorem add_eq_ok_iff {item : Item} (hoption : item.path? = none) {o₁ : Options} :
    item.add o = .ok o₁ ↔ item.NonEmpty ∧ o.Adds [item] o₁ := by
  cases item with
  | quiet long => simp [Item.add, Options.addQuiet_eq_ok_iff long, Item.NonEmpty]
  | key attached file => rw [Item.add, Options.addKey_eq_ok_iff attached, Item.NonEmpty]
  | path => cases hoption

/-- What one option before the command does: a key file in an argument of its own does not
end the line at once if it cannot be taken. -/
theorem parts_append {item : Item} (h : item.Unambiguous) (hoption : item.path? = none)
    (args : List (List UInt8)) :
    parts o false (item.args ++ args) =
      match item.add o with
      | .ok o₁ => parts o₁ false args
      | .error stop => if item.isDetached then parts o true args else .error stop := by
  match item with
  | .quiet true =>
      have htoken : Token.ofBytes (ascii "--quiet") = .long (ascii "quiet") none := rfl
      have hname : ascii "quiet" ≠ ascii "key" := by decide
      rw [Item.args, List.singleton_append, parts.eq_def, Item.add]
      cases hadd : o.addQuiet <;> simp [htoken, hname, Options.addLong, hadd, Item.isDetached]
  | .quiet false =>
      have htoken : Token.ofBytes (ascii "-q") = .short [0x71] := rfl
      rw [Item.args, List.singleton_append, parts.eq_def, Item.add]
      cases hadd : o.addQuiet <;> simp [htoken, Options.addLetters, hadd, Item.isDetached]
  | .key true file =>
      have htoken : Token.ofBytes (ascii "--key=" ++ file) = .long (ascii "key") (some file) := rfl
      rw [Item.args, List.singleton_append, parts.eq_def, Item.add]
      cases hadd : o.addKey file <;> simp [htoken, Options.addLong, hadd, Item.isDetached]
  | .key false file =>
      have htoken : Token.ofBytes (ascii "--key") = .long (ascii "key") none := rfl
      rw [Item.args, List.cons_append, List.singleton_append, parts.eq_def, Item.add]
      simp only [htoken, isValue_iff.mpr h]
      cases o.addKey file <;> rfl

/-- An option at the front is added before the rest is taken apart. -/
theorem parts_append_eq_ok_iff {item : Item} (h : item.Unambiguous) (hoption : item.path? = none)
    (args : List (List UInt8)) :
    parts o false (item.args ++ args) = .ok p ↔
      item.NonEmpty ∧ ∃ o₁, o.Adds [item] o₁ ∧ parts o₁ false args = .ok p := by
  have hadd : item.NonEmpty ∧ (∃ o₁, o.Adds [item] o₁ ∧ parts o₁ false args = .ok p) ↔
      ∃ o₁, item.add o = .ok o₁ ∧ parts o₁ false args = .ok p := by
    simp only [add_eq_ok_iff hoption, and_assoc, exists_and_left]
  rw [hadd, parts_append h hoption]
  cases item.add o with
  | ok => simp
  | error stop =>
      have hlate := @parts_true_ne_ok o p args
      cases item.isDetached <;> simp [hlate]

/-- What options refuse ends the arguments before a command. -/
theorem parts_of_refuses {arg : List UInt8} {stop : Stop} (h : o.Refuses true arg stop)
    (args : List (List UInt8)) : parts o false (arg :: args) = .error stop := by
  rw [parts.eq_def]
  obtain ⟨letters, htoken, hletters⟩ | ⟨name, value?, htoken, hkey, hlong⟩ := h
  · simp [htoken, hletters]
  · simp [htoken, hkey, hlong]

/-- So does a key option with no file after it. -/
theorem parts_of_missing {arg : List UInt8} {args : List (List UInt8)}
    (htoken : Token.ofBytes arg = .long (ascii "key") none)
    (hvalue : ∀ file ∈ args.head?, isValue file = false) :
    parts o false (arg :: args) = .error .usage := by
  rw [parts.eq_def]
  cases args with
  | nil => simp [htoken]
  | cons file args =>
      have hfile : isValue file = false := hvalue file rfl
      simp [htoken, hfile]

/-- Nothing but an option or a command's name is accepted there. -/
theorem exists_item_of_parts {arg : List UInt8} {args : List (List UInt8)}
    (h : parts o false (arg :: args) = .ok p) :
    (∃ verb : Verb, arg = ascii verb.name) ∨
      ∃ (item : Item) (args' : _), item.Unambiguous ∧ item.path? = none ∧
        arg :: args = item.args ++ args' := by
  cases o.front true arg args with
  | terminator htoken =>
      rw [parts.eq_def] at h
      simp only [htoken] at h
      cases h
  | word htoken =>
      rw [parts.eq_def] at h
      simp only [htoken] at h
      split at h
      · cases h
      split at h
      · cases h
      · next verb hverb => exact Or.inl ⟨verb, ofName?_eq_some_iff.mp hverb⟩
  | item hitem hoption hargs => exact Or.inr ⟨_, _, hitem, hoption, hargs⟩
  | refused hrefused =>
      rw [parts_of_refuses hrefused] at h
      cases h
  | missing htoken hvalue =>
      rw [parts_of_missing htoken hvalue] at h
      cases h

/-- The command's name ends the first side. -/
theorem parts_verb_eq_ok_iff {verb : Verb} {args : List (List UInt8)} :
    parts o false (ascii verb.name :: args) = .ok p ↔
      p.before = o ∧ p.verb = verb ∧ afterCommand verb .none [] args = .ok (p.after, p.paths) := by
  have hword : Token.ofBytes (ascii verb.name) = .word (ascii verb.name) := by cases verb <;> rfl
  have hhelp : ascii verb.name ≠ ascii "help" := by cases verb <;> decide
  have hverb : Verb.ofName? (ascii verb.name) = some verb := ofName?_eq_some_iff.mpr rfl
  rw [parts.eq_def]
  simp only [hword, hhelp, if_false, hverb, Bool.false_eq_true, bind_eq_ok_iff, Prod.exists,
    pure_eq_ok, Except.ok.injEq]
  constructor
  · rintro ⟨after, paths, h, rfl⟩
    exact ⟨rfl, rfl, h⟩
  · rintro ⟨rfl, rfl, h⟩
    exact ⟨_, _, h, rfl⟩

/-- Options that can be taken are taken, and what comes after them goes on from there. -/
theorem parts_flatMap {o₁ : Options} {items : List Item}
    (hunambiguous : ∀ item ∈ items, item.Unambiguous)
    (hnonEmpty : ∀ item ∈ items, item.NonEmpty) (hoptions : items.filterMap Item.path? = [])
    (hadds : o.Adds items o₁) (args : List (List UInt8)) :
    parts o false (items.flatMap Item.args ++ args) = parts o₁ false args := by
  induction items generalizing o with
  | nil =>
      rw [Options.adds_nil_iff] at hadds
      rw [hadds, List.flatMap_nil, List.nil_append]
  | cons item items ih =>
      obtain ⟨hitem, hitems⟩ := List.forall_mem_cons.mp hunambiguous
      obtain ⟨hitem', hitems'⟩ := List.forall_mem_cons.mp hnonEmpty
      obtain ⟨hoption, hoptions⟩ := List.forall_mem_cons.mp (List.filterMap_eq_nil_iff.mp hoptions)
      obtain ⟨o₂, hadds₂, hadds₁⟩ := Options.adds_cons_iff.mp hadds
      have hadd : item.add o = .ok o₂ := (add_eq_ok_iff hoption).mpr ⟨hitem', hadds₂⟩
      rw [List.flatMap_cons, List.append_assoc, parts_append hitem hoption, hadd]
      exact ih hitems hitems' (List.filterMap_eq_nil_iff.mpr hoptions) hadds₁

/-- What is taken apart has options, then the command's name, and then the second side. -/
theorem exists_items_of_parts {args : List (List UInt8)} (h : parts o false args = .ok p) :
    ∃ (items : List Item) (args' : _),
      args = items.flatMap Item.args ++ ascii p.verb.name :: args' ∧
      (∀ item ∈ items, item.Unambiguous) ∧ (∀ item ∈ items, item.NonEmpty) ∧
      items.filterMap Item.path? = [] ∧ o.Adds items p.before ∧
      afterCommand p.verb .none [] args' = .ok (p.after, p.paths) := by
  induction hlength : args.length using Nat.strongRecOn generalizing o args with
  | ind n ih =>
    match args with
    | [] => cases h
    | arg :: args =>
      obtain ⟨verb, rfl⟩ | ⟨item, args', hitem, hoption, hargs⟩ := exists_item_of_parts h
      · obtain ⟨hbefore, rfl, hcommand⟩ := parts_verb_eq_ok_iff.mp h
        exact ⟨[], args, rfl, by simp, by simp, rfl, Options.adds_nil_iff.mpr hbefore, hcommand⟩
      rw [hargs, parts_append_eq_ok_iff hitem hoption] at h
      obtain ⟨hitem', o₁, hadds, h⟩ := h
      have hlt : args'.length < n := hlength ▸ length_lt_of_eq_append hargs
      obtain ⟨items, rest, hargs', hitems, hitems', hoptions, hadds', hcommand⟩ := ih _ hlt h rfl
      refine ⟨item :: items, rest, ?_, List.forall_mem_cons.mpr ⟨hitem, hitems⟩,
        List.forall_mem_cons.mpr ⟨hitem', hitems'⟩, ?_,
        Options.adds_cons_iff.mpr ⟨o₁, hadds, hadds'⟩, hcommand⟩
      · rw [hargs, hargs', List.flatMap_cons, List.append_assoc]
      · rw [List.filterMap_cons_none hoption, hoptions]

/-- **Before the command**: what is accepted there are options. -/
theorem parts_eq_ok_iff {args : List (List UInt8)} :
    parts o false args = .ok p ↔
      ∃ (items : List Item) (args' : _),
        args = items.flatMap Item.args ++ ascii p.verb.name :: args' ∧
        (∀ item ∈ items, item.Unambiguous) ∧ (∀ item ∈ items, item.NonEmpty) ∧
        items.filterMap Item.path? = [] ∧ o.Adds items p.before ∧
        afterCommand p.verb .none [] args' = .ok (p.after, p.paths) := by
  constructor
  · exact exists_items_of_parts
  · rintro ⟨items, args', rfl, hunambiguous, hnonEmpty, hoptions, hadds, h⟩
    rw [parts_flatMap hunambiguous hnonEmpty hoptions hadds]
    exact parts_verb_eq_ok_iff.mpr ⟨rfl, rfl, h⟩

end

end Sidecar.CommandLine
