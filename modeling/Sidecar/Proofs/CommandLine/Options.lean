import Mathlib.Data.List.Basic
import Sidecar.Proofs.CommandLine.Grammar
import Sidecar.Proofs.Outcome

/-!
# Sidecar.Proofs.CommandLine.Options

The options on one side of a command. `Adds` says what items add to options, in
two equations that also keep each option from being repeated; each step of the
parser that takes an option is one item more (`addQuiet_eq_ok_iff`,
`addKey_eq_ok_iff`, `addLetters_eq_ok_iff`, `addLong_eq_ok_iff`).

What an argument is, the parser decides alike on both sides of a command (`Options.front`).
-/

namespace Sidecar.CommandLine

/-! ## Tokens -/

/-- The argument of a shape. -/
def Token.bytes : Token → List UInt8
  | .terminator => [0x2D, 0x2D]
  | .long name none => 0x2D :: 0x2D :: name
  | .long name (some value) => 0x2D :: 0x2D :: (name ++ 0x3D :: value)
  | .short letters => 0x2D :: letters
  | .word bytes => bytes

/-- The shape of an argument loses none of its bytes. -/
theorem Token.bytes_ofBytes (arg : List UInt8) : (Token.ofBytes arg).bytes = arg := by
  unfold Token.ofBytes
  split
  · rfl
  · next text _ =>
      have htext := List.takeWhile_append_dropWhile (p := (· != 0x3D)) (l := text)
      split
      · next hdrop =>
          rw [hdrop, List.append_nil] at htext
          rw [Token.bytes, htext]
      · next c value hdrop =>
          have hc : c = 0x3D := by
            have := List.head?_dropWhile_not (· != 0x3D) text
            simpa [hdrop] using this
          rw [hdrop, hc] at htext
          rw [Token.bytes, htext]
  · rfl
  · rfl

/-- An argument that is read as a word begins with no dash, or is a dash alone: whatever a first
dash is followed by makes letters, a long option or the terminator. -/
theorem plain_of_ofBytes_eq_word {arg bytes : List UInt8} (h : Token.ofBytes arg = .word bytes) :
    Plain arg := by
  unfold Token.ofBytes at h
  split at h
  · cases h
  · cases h
  · cases h
  · next hshort =>
      match arg with
      | [] => exact Or.inr (by simp)
      | [c] =>
          by_cases hc : c = 0x2D
          · exact Or.inl (by rw [hc]; rfl)
          · exact Or.inr (by simpa using hc)
      | c :: letter :: letters =>
          refine Or.inr ?_
          rw [List.head?_cons, ne_eq, Option.some.injEq]
          rintro rfl
          exact hshort letter letters rfl

/-- Conversely, every argument of that form is read as a word. -/
theorem ofBytes_of_plain {arg : List UInt8} (h : Plain arg) : Token.ofBytes arg = .word arg := by
  rcases h with rfl | h
  · rfl
  · match arg with
    | [] => rfl
    | c :: bytes =>
        have hc : c ≠ 0x2D := by simpa using h
        unfold Token.ofBytes
        split
        · next heq => exact absurd (List.cons.inj heq).1 hc
        · next heq => exact absurd (List.cons.inj heq).1 hc
        · next heq => exact absurd (List.cons.inj heq).1 hc
        · rfl

theorem ne_nil_of_ofBytes_eq_short {arg letters : List UInt8}
    (h : Token.ofBytes arg = .short letters) : letters ≠ [] := by
  unfold Token.ofBytes at h
  split at h
  · cases h
  · cases h
  · cases h
    exact List.cons_ne_nil _ _
  · cases h

/-- The arguments that an option takes as its value are those that are read as words. -/
theorem isValue_iff {arg : List UInt8} : isValue arg = true ↔ Plain arg := by
  simp only [isValue, Plain, Bool.or_eq_true, beq_iff_eq, bne_iff_ne]
  rfl

/-! ## Options -/

/-- What items add to the options before them: at most one option of each kind. -/
structure Options.Adds (o : Options) (items : List Item) (o' : Options) : Prop where
  key : o'.key.toList = o.key.toList ++ items.filterMap Item.key?
  quiet : o'.quiet.toNat = o.quiet.toNat + items.countP Item.isQuiet

namespace Options

variable {o o' : Options} {items : List Item}

theorem toList_inj {key key' : Option Path} (h : key.toList = key'.toList) : key = key' := by
  cases key <;> cases key' <;> simp_all

theorem toNat_inj {quiet quiet' : Bool} (h : quiet.toNat = quiet'.toNat) : quiet = quiet' := by
  cases quiet <;> cases quiet' <;> simp_all

/-- The options that come out are determined. -/
theorem Adds.unique {o₁ o₂ : Options} (h₁ : o.Adds items o₁) (h₂ : o.Adds items o₂) : o₁ = o₂ := by
  obtain ⟨key₁, quiet₁⟩ := o₁
  obtain ⟨key₂, quiet₂⟩ := o₂
  rw [Options.mk.injEq]
  exact ⟨toList_inj (h₁.key.trans h₂.key.symm), toNat_inj (h₁.quiet.trans h₂.quiet.symm)⟩

/-- No items add nothing. -/
theorem adds_nil_iff : o.Adds [] o' ↔ o' = o := by
  have hself : o.Adds [] o := ⟨by simp, by simp⟩
  constructor
  · intro h
    exact h.unique hself
  · rintro rfl
    exact hself

/-- Taking `-q` or `--quiet` is one item more; it is refused after the first. -/
theorem addQuiet_eq_ok_iff (long : Bool) : o.addQuiet = .ok o' ↔ o.Adds [.quiet long] o' := by
  obtain ⟨key, quiet⟩ := o
  cases quiet with
  | false =>
      have hadds : (⟨key, false⟩ : Options).Adds [.quiet long] ⟨key, true⟩ := ⟨by simp, rfl⟩
      constructor
      · intro h
        cases h
        exact hadds
      · intro h
        rw [h.unique hadds]
        rfl
  | true =>
      constructor
      · intro h
        cases h
      · rintro ⟨-, hquiet⟩
        have hle := Bool.toNat_le o'.quiet
        have htwo : o'.quiet.toNat = 1 + 1 := hquiet
        omega

theorem Adds.quiet_eq_true {long : Bool} (h : o.Adds [.quiet long] o') : o'.quiet = true := by
  have hle := Bool.toNat_le o'.quiet
  have hquiet : o'.quiet.toNat = o.quiet.toNat + 1 := h.quiet
  rw [← Bool.toNat_eq_one]
  omega

/-- Taking a key file is one item more; it is refused if empty, and after the first. -/
theorem addKey_eq_ok_iff (attached : Bool) {file : List UInt8} :
    o.addKey file = .ok o' ↔ file ≠ [] ∧ o.Adds [.key attached file] o' := by
  obtain ⟨key, quiet⟩ := o
  rw [addKey, ite_error_eq_ok_iff, not_or, and_assoc]
  cases key with
  | none =>
      have hadds : (⟨.none, quiet⟩ : Options).Adds [.key attached file] ⟨some ⟨file⟩, quiet⟩ :=
        ⟨rfl, rfl⟩
      simp only [Option.isSome_none, Bool.false_eq_true, not_false_eq_true, true_and,
        Except.ok.injEq]
      constructor
      · rintro ⟨hfile, rfl⟩
        exact ⟨hfile, hadds⟩
      · rintro ⟨hfile, h⟩
        exact ⟨hfile, hadds.unique h⟩
  | some key =>
      constructor
      · rintro ⟨-, hsome, -⟩
        exact absurd rfl hsome
      · rintro ⟨-, hkey, -⟩
        have hle := Option.length_toList_le (o := o'.key)
        simp [hkey] at hle

/-- Items are added one after the other, each to the options that the ones before it have left. -/
theorem adds_cons_iff {item : Item} :
    o.Adds (item :: items) o' ↔ ∃ o₁, o.Adds [item] o₁ ∧ o₁.Adds items o' := by
  constructor
  · rintro ⟨hkey, hquiet⟩
    obtain ⟨key, quiet⟩ := o
    cases item with
    | quiet long =>
        have hle := Bool.toNat_le o'.quiet
        simp only [List.countP_cons, Item.isQuiet, if_true] at hquiet
        have hfalse : quiet = false := by
          rw [← Bool.toNat_eq_zero]
          omega
        subst hfalse
        refine ⟨⟨key, true⟩, ⟨by simp, rfl⟩, hkey, ?_⟩
        simp only [Bool.toNat_false, Bool.toNat_true] at hquiet ⊢
        omega
    | key attached file =>
        have hcons : (Item.key attached file :: items).filterMap Item.key? =
            ⟨file⟩ :: items.filterMap Item.key? := rfl
        have hle := Option.length_toList_le (o := o'.key)
        rw [hkey, List.length_append, hcons, List.length_cons] at hle
        have hnone : key = .none := by
          rw [← Option.toList_eq_nil_iff, ← List.length_eq_zero_iff]
          dsimp only at hle
          omega
        subst hnone
        exact ⟨⟨some ⟨file⟩, quiet⟩, ⟨rfl, rfl⟩, hkey, hquiet⟩
    | path bytes => exact ⟨⟨key, quiet⟩, ⟨by simp, rfl⟩, hkey, hquiet⟩
  · rintro ⟨o₁, ⟨hkey, hquiet⟩, hkey', hquiet'⟩
    constructor
    · rw [hkey', hkey, List.append_assoc, ← List.filterMap_append, List.singleton_append]
    · rw [hquiet', hquiet, Nat.add_assoc, ← List.countP_append, List.singleton_append]

/-- The only cluster that options are taken from is `-q`: another letter after it either repeats
the option, which is refused, or ends the parse. -/
theorem addLetters_eq_ok_iff {beforeCommand : Bool} {letters : List UInt8} (hne : letters ≠ []) :
    o.addLetters beforeCommand letters = .ok o' ↔
      letters = [0x71] ∧ o.Adds [.quiet false] o' := by
  obtain ⟨letter, letters, rfl⟩ := List.exists_cons_of_ne_nil hne
  rw [addLetters]
  by_cases hletter : letter = 0x71
  · rw [if_pos hletter, hletter, bind_eq_ok_iff]
    simp only [addQuiet_eq_ok_iff false, List.cons.injEq, true_and]
    cases letters with
    | nil => simp [addLetters]
    | cons letter letters =>
        have hstop : ∀ o₁, o.Adds [.quiet false] o₁ →
            o₁.addLetters beforeCommand (letter :: letters) ≠ .ok o' := by
          intro o₁ h
          rw [addLetters]
          split
          · rw [addQuiet, if_pos h.quiet_eq_true]
            nofun
          split
          · nofun
          split <;> nofun
        simp only [reduceCtorEq, false_and, iff_false, not_exists, not_and]
        exact hstop
  · rw [if_neg hletter]
    constructor
    · intro h
      split at h
      · cases h
      split at h <;> cases h
    · rintro ⟨h, -⟩
      exact absurd (List.cons.inj h).1 hletter

/-- The long options taken from one argument are `--quiet`, without a value, and `--key=` with a
file. -/
theorem addLong_eq_ok_iff {beforeCommand : Bool} {name : List UInt8}
    {value? : Option (List UInt8)} :
    o.addLong beforeCommand name value? = .ok o' ↔
      name = ascii "quiet" ∧ value? = .none ∧ o.Adds [.quiet true] o' ∨
        ∃ file, name = ascii "key" ∧ value? = some file ∧ file ≠ [] ∧
          o.Adds [.key true file] o' := by
  cases value? with
  | none =>
      rw [addLong]
      by_cases hquiet : name = ascii "quiet"
      · rw [if_pos hquiet, addQuiet_eq_ok_iff true]
        simp [hquiet]
      · rw [if_neg hquiet]
        simp only [hquiet, false_and, reduceCtorEq, and_false, exists_const, or_self, iff_false]
        split
        · nofun
        · split <;> nofun
  | some value =>
      rw [addLong]
      by_cases hkey : name = ascii "key"
      · rw [if_pos hkey, addKey_eq_ok_iff true]
        simp [hkey]
      · rw [if_neg hkey]
        simp [hkey]

/-- A cluster that is taken is an item whose one argument it is. -/
theorem exists_item_of_addLetters {beforeCommand : Bool} {arg letters : List UInt8}
    (htoken : Token.ofBytes arg = .short letters)
    (h : o.addLetters beforeCommand letters = .ok o') :
    ∃ item : Item, item.Unambiguous ∧ item.path? = .none ∧ item.args = [arg] := by
  have harg := Token.bytes_ofBytes arg
  rw [addLetters_eq_ok_iff (ne_nil_of_ofBytes_eq_short htoken)] at h
  rw [htoken, h.1] at harg
  rw [← harg]
  exact ⟨.quiet false, trivial, rfl, rfl⟩

/-- A long option that is taken is an item whose one argument it is. -/
theorem exists_item_of_addLong {beforeCommand : Bool} {arg name : List UInt8}
    {value? : Option (List UInt8)} (htoken : Token.ofBytes arg = .long name value?)
    (h : o.addLong beforeCommand name value? = .ok o') :
    ∃ item : Item, item.Unambiguous ∧ item.path? = .none ∧ item.args = [arg] := by
  have harg := Token.bytes_ofBytes arg
  rw [htoken] at harg
  rw [addLong_eq_ok_iff] at h
  obtain ⟨rfl, rfl, -⟩ | ⟨file, rfl, rfl, -⟩ := h
  · rw [← harg]
    exact ⟨.quiet true, trivial, rfl, rfl⟩
  · rw [← harg]
    exact ⟨.key true file, trivial, rfl, rfl⟩

/-- The options in one argument, which end the parse with `stop`. -/
def Refuses (o : Options) (beforeCommand : Bool) (arg : List UInt8) (stop : Stop) : Prop :=
  (∃ letters, Token.ofBytes arg = .short letters ∧
    o.addLetters beforeCommand letters = .error stop) ∨
  ∃ name value?, Token.ofBytes arg = .long name value? ∧
    ¬ (name = ascii "key" ∧ value? = .none) ∧ o.addLong beforeCommand name value? = .error stop

/-- What can stand at the front of arguments: the terminator, a word, an item that is an option,
options that end the parse, or the key option in an argument of its own with no file after it. -/
inductive Front (o : Options) (beforeCommand : Bool) (arg : List UInt8)
    (args : List (List UInt8)) : Prop where
  | terminator (htoken : Token.ofBytes arg = .terminator)
  | word (htoken : Token.ofBytes arg = .word arg)
  | item {item : Item} {args' : List (List UInt8)} (hitem : item.Unambiguous)
      (hoption : item.path? = .none) (hargs : arg :: args = item.args ++ args')
  | refused {stop : Stop} (h : o.Refuses beforeCommand arg stop)
  | missing (htoken : Token.ofBytes arg = .long (ascii "key") .none)
      (hvalue : ∀ file ∈ args.head?, isValue file = false)

/-- Nothing else can stand there. -/
theorem front (o : Options) (beforeCommand : Bool) (arg : List UInt8) (args : List (List UInt8)) :
    o.Front beforeCommand arg args := by
  have harg := Token.bytes_ofBytes arg
  cases htoken : Token.ofBytes arg with
  | terminator => exact .terminator htoken
  | word bytes =>
      rw [htoken, Token.bytes] at harg
      rw [harg] at htoken
      exact .word htoken
  | short letters =>
      cases hletters : o.addLetters beforeCommand letters with
      | error stop => exact .refused (Or.inl ⟨letters, htoken, hletters⟩)
      | ok o₁ =>
          obtain ⟨item, hitem, hoption, hargs⟩ := exists_item_of_addLetters htoken hletters
          exact .item hitem hoption (by rw [hargs, List.singleton_append])
  | long name value? =>
      by_cases hkey : name = ascii "key" ∧ value? = .none
      · obtain ⟨rfl, rfl⟩ := hkey
        rw [htoken] at harg
        match args with
        | [] => exact .missing htoken (by simp)
        | file :: args =>
          cases hvalue : isValue file with
          | true =>
              have hitem : (Item.key false file).Unambiguous := isValue_iff.mp hvalue
              have hargs : arg :: file :: args = (Item.key false file).args ++ args := by
                rw [← harg]
                rfl
              exact .item hitem rfl hargs
          | false => exact .missing htoken (by simpa using hvalue)
      · cases hlong : o.addLong beforeCommand name value? with
        | error stop => exact .refused (Or.inr ⟨name, value?, htoken, hkey, hlong⟩)
        | ok o₁ =>
            obtain ⟨item, hitem, hoption, hargs⟩ := exists_item_of_addLong htoken hlong
            exact .item hitem hoption (by rw [hargs, List.singleton_append])

end Options

/-! ## One side -/

/-- What the quiet flag says of items that may not repeat it. -/
theorem toNat_eq_countP_iff {quiet : Bool} {items : List Item} :
    quiet.toNat = items.countP Item.isQuiet ↔
      items.countP Item.isQuiet ≤ 1 ∧ quiet = items.any Item.isQuiet := by
  have hany : items.any Item.isQuiet = true ↔ 0 < items.countP Item.isQuiet := by
    rw [List.any_eq_true, List.countP_pos_iff]
  cases quiet with
  | false =>
      rw [Bool.toNat_false, @eq_comm _ false, ← Bool.not_eq_true, hany]
      omega
  | true =>
      rw [Bool.toNat_true, @eq_comm _ true, hany]
      omega

/-- An optional value lists one value at most, which is the first. -/
theorem toList_eq_iff {key : Option Path} {keys : List Path} :
    key.toList = keys ↔ keys.length ≤ 1 ∧ key = keys.head? := by
  constructor
  · rintro rfl
    cases key <;> simp
  · rintro ⟨hlength, rfl⟩
    match keys with
    | [] | [_] => rfl
    | _ :: _ :: _ => simp at hlength

/-- The options among items: the first key file, and whether the quiet option is there. -/
def Options.ofItems (items : List Item) : Options :=
  ⟨(items.filterMap Item.key?).head?, items.any Item.isQuiet⟩

/-- The options of one side are those among its items, if none is repeated. -/
theorem Options.adds_none_iff {items : List Item} {o : Options} :
    Options.none.Adds items o ↔
      items.countP Item.isQuiet ≤ 1 ∧ (items.filterMap Item.key?).length ≤ 1 ∧
        o = .ofItems items := by
  have hadds : Options.none.Adds items o ↔
      o.key.toList = items.filterMap Item.key? ∧ o.quiet.toNat = items.countP Item.isQuiet := by
    constructor
    · rintro ⟨hkey, hquiet⟩
      exact ⟨hkey, hquiet.trans (Nat.zero_add _)⟩
    · rintro ⟨hkey, hquiet⟩
      exact ⟨hkey, hquiet.trans (Nat.zero_add _).symm⟩
  obtain ⟨key, quiet⟩ := o
  rw [hadds, toList_eq_iff, toNat_eq_countP_iff, Options.ofItems, Options.mk.injEq]
  constructor
  · rintro ⟨⟨hlength, hkey⟩, hcount, hquiet⟩
    exact ⟨hcount, hlength, hkey, hquiet⟩
  · rintro ⟨hcount, hlength, hkey, hquiet⟩
    exact ⟨⟨hlength, hkey⟩, hcount, hquiet⟩

end Sidecar.CommandLine
