import Sidecar.Path

/-!
# Sidecar.CommandLine

The command line, from argument bytes to an invocation:

```
[options] verify   [options] path…      [options] sig-path [options] path
[options] hash     [options] path…      [options] key-info [options]
```

The options `--key FILE` and `-q`, `--quiet` may stand before the command and
after it, once on each side; after `--` every argument is a path. Arguments act
in the order in which they stand, so the first one that asks for help, asks for
the version or cannot be used decides.
-/

namespace Sidecar.CommandLine

/-! ## Results -/

/-- What a command line can come to instead of an invocation: a request for help or for the
version, or a usage error. -/
inductive Stop where
  | help
  | version
  | usage
  deriving DecidableEq, Repr

inductive Command where
  | verify (paths : List Path)
  | signaturePath (path : Path)
  | hash (files : List Path)
  | keyInfo
  deriving DecidableEq, Repr

/-- What is to be done, with which key file, if it is not the program's own key, and whether
passing files are left out of the output. -/
structure Invocation where
  key : Option Path
  quiet : Bool
  command : Command
  deriving DecidableEq, Repr

/-! ## Commands -/

/-- The commands without their paths. -/
inductive Verb where
  | verify
  | signaturePath
  | hash
  | keyInfo
  deriving DecidableEq, Repr

namespace Verb

def name : Verb → String
  | .verify => "verify"
  | .signaturePath => "sig-path"
  | .hash => "hash"
  | .keyInfo => "key-info"

def all : List Verb := [.verify, .signaturePath, .hash, .keyInfo]

def ofName? (name : List UInt8) : Option Verb := all.find? fun verb => ascii verb.name == name

/-- Whether a command takes a path more, after `count` of them. -/
def takesMore : Verb → (count : Nat) → Bool
  | .verify, _ | .hash, _ => true
  | .signaturePath, count => count == 0
  | .keyInfo, _ => false

/-- The command with its paths, if their number is right. -/
def command? : Verb → List Path → Option Command
  | .verify, path :: paths => some (.verify (path :: paths))
  | .signaturePath, [path] => some (.signaturePath path)
  | .hash, file :: files => some (.hash (file :: files))
  | .keyInfo, [] => some .keyInfo
  | _, _ => none

end Verb

/-! ## Tokens -/

/-- An argument, by its shape: two dashes alone; two dashes and a name, with what follows an
equals sign; one dash and letters; or anything else, one dash alone included. -/
inductive Token where
  | terminator
  | long (name : List UInt8) (value? : Option (List UInt8))
  | short (letters : List UInt8)
  | word (bytes : List UInt8)
  deriving DecidableEq, Repr

def Token.ofBytes (arg : List UInt8) : Token :=
  match arg with
  | 0x2D :: 0x2D :: [] => .terminator
  | 0x2D :: 0x2D :: text =>
      .long (text.takeWhile (· != 0x3D))
        (match text.dropWhile (· != 0x3D) with
          | [] => none
          | _ :: value => some value)
  | 0x2D :: letter :: letters => .short (letter :: letters)
  | bytes => .word bytes

/-! ## Options -/

/-- The options on one side of the command. -/
structure Options where
  key : Option Path
  quiet : Bool
  deriving DecidableEq, Repr

namespace Options

def none : Options := ⟨.none, false⟩

def addQuiet (o : Options) : Except Stop Options :=
  if o.quiet then .error .usage else .ok { o with quiet := true }

/-- Adds a key file, which may be neither empty nor a second one. -/
def addKey (o : Options) (file : List UInt8) : Except Stop Options :=
  if file = [] ∨ o.key.isSome then .error .usage else .ok { o with key := some ⟨file⟩ }

/-- Takes the letters of an argument one by one. The version can be asked for
only before the command. -/
def addLetters (beforeCommand : Bool) (o : Options) : List UInt8 → Except Stop Options
  | [] => .ok o
  | letter :: letters =>
      if letter = 0x71 then do (← o.addQuiet).addLetters beforeCommand letters
      else if letter = 0x68 then .error .help
      else if letter = 0x56 ∧ beforeCommand then .error .version
      else .error .usage

/-- Takes an option by its name and the value attached to it; a key file has to be attached. -/
def addLong (beforeCommand : Bool) (o : Options) (name : List UInt8)
    (value? : Option (List UInt8)) : Except Stop Options :=
  match value? with
  | some value => if name = ascii "key" then o.addKey value else .error .usage
  | .none =>
      if name = ascii "quiet" then o.addQuiet
      else if name = ascii "help" then .error .help
      else if name = ascii "version" ∧ beforeCommand then .error .version
      else .error .usage

end Options

/-- Whether an argument can be the value of the option before it. -/
def isValue (arg : List UInt8) : Bool := arg == [0x2D] || arg.head? != some 0x2D

/-! ## After the command -/

def addPath (verb : Verb) (paths : List Path) (path : List UInt8) : Except Stop (List Path) :=
  if path ≠ [] ∧ verb.takesMore paths.length then .ok (paths ++ [⟨path⟩]) else .error .usage

/-- Takes the arguments after the command: options and paths. -/
def afterCommand (verb : Verb) (o : Options) (paths : List Path) :
    List (List UInt8) → Except Stop (Options × List Path)
  | [] => .ok (o, paths)
  | arg :: args =>
      match Token.ofBytes arg with
      | .terminator => do return (o, ← args.foldlM (addPath verb) paths)
      | .word path => do afterCommand verb o (← addPath verb paths path) args
      | .short letters => do afterCommand verb (← o.addLetters false letters) paths args
      | .long name value? =>
          if name = ascii "key" ∧ value? = .none then
            match args with
            | file :: args =>
                if isValue file then do afterCommand verb (← o.addKey file) paths args
                else .error .usage
            | [] => .error .usage
          else do afterCommand verb (← o.addLong false name value?) paths args

/-! ## Before the command -/

/-- Takes the arguments of the help command: at most one command's name. -/
def helpCommand : List (List UInt8) → Stop
  | [] => .help
  | [name] => if name = ascii "help" ∨ (Verb.ofName? name).isSome then .help else .usage
  | _ => .usage

/-- What stands on both sides of a command. -/
structure Parts where
  before : Options
  verb : Verb
  after : Options
  paths : List Path
  deriving DecidableEq, Repr

/-- Takes the arguments from the first one to the last. A key file in an
argument of its own is judged late: one that is empty, or the second, makes the
line unusable (`unusable`) with the next option before the command, or after
the last argument, but help that is asked for until then is given. -/
def parts (o : Options) (unusable : Bool) : List (List UInt8) → Except Stop Parts
  | [] => .error .usage
  | arg :: args =>
      match Token.ofBytes arg with
      | .terminator => .error .usage
      | .word name =>
          if name = ascii "help" then .error (helpCommand args)
          else
            match Verb.ofName? name with
            | .none => .error .usage
            | some verb => do
                let (after, paths) ← afterCommand verb .none [] args
                if unusable then .error .usage else return ⟨o, verb, after, paths⟩
      | .short letters =>
          if unusable then .error .usage
          else do parts (← o.addLetters true letters) false args
      | .long name value? =>
          if unusable then .error .usage
          else if name = ascii "key" ∧ value? = .none then
            match args with
            | file :: args =>
                if !isValue file then .error .usage
                else
                  match o.addKey file with
                  | .ok o => parts o false args
                  | .error _ => parts o true args
            | [] => .error .usage
          else do parts (← o.addLong true name value?) false args

/-! ## The whole line -/

/-- The invocation of the arguments, where `environment` is the key file that
the environment names. The last key file counts, and that of the environment
if the arguments name none. The environment is looked at for each side of the
command that names no key file, and an empty one there is a mistake. -/
def parse (environment : Option (List UInt8)) (args : List (List UInt8)) :
    Except Stop Invocation := do
  let p ← parts .none false args
  if environment = some [] ∧ (p.before.key.isNone ∨ p.after.key.isNone) then .error .usage
  else
    match p.verb.command? p.paths with
    | none => .error .usage
    | some command =>
        return {
          key := p.after.key <|> p.before.key <|> environment.map Path.mk
          quiet := p.before.quiet || p.after.quiet
          command := command }

end Sidecar.CommandLine
