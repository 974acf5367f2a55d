/-
Commands.

There are two commands: one checks a module, one lists the types a module declares.  Both take the
name of a file.  How much is reported on the way is asked for in front of the command, everything
else behind it.  Without a command there is nothing to do but to show help.
-/
import TreeTyping.CommandLine.Options
import TreeTyping.Text.Blank
import TreeTyping.Text.Digit

namespace TreeTyping.CommandLine

/-- What the command to check a module is given. -/
structure CheckArgs where
  file : String := ""
  config : Option String := none
  workers : Option Int := none
  wordBits : Option Int := none
  warnUnreachable : Bool := false
  json : Bool := false

inductive Action where
  | check (args : CheckArgs)
  | types (file : String)
  | none

structure Command where
  verbosity : Nat
  action : Action

inductive Stop where
  | help
  | usage

/-! ### Numbers -/

/-- Digits with single underscores between them. -/
def digitGroups (afterDigit : Bool) : List Char → Bool
  | [] => afterDigit
  | '_' :: rest => afterDigit && digitGroups false rest
  | c :: rest => Text.isDigit c && digitGroups true rest

/-- An integer with an optional sign and blanks around it. -/
def integer? (s : String) : Option Int :=
  let cs := (Text.dropTrailingBlanks s.toList).dropWhile Text.isBlank
  let (negative, digits) := match cs with
    | '-' :: rest => (true, rest)
    | '+' :: rest => (false, rest)
    | rest => (false, rest)
  if digits.head? != some '_' && digitGroups false digits then
    let n : Int := Text.readDigits (digits.filter (· != '_'))
    some (if negative then -n else n)
  else Option.none

/-! ### Options -/

def helpOption : OptionSpec := { key := "help", names := ["-h", "--help"] }

def mainOptions : List OptionSpec :=
  [helpOption, { key := "verbose", names := ["-v", "--verbose"] }]

def checkOptions : List OptionSpec :=
  [helpOption,
   { key := "config", names := ["--config"], takesValue := true },
   { key := "workers", names := ["--workers"], takesValue := true },
   { key := "word_bits", names := ["--word-bits"], takesValue := true },
   { key := "warn_unreachable", names := ["--warn-unreachable"] },
   { key := "json", names := ["--json"] }]

def typesOptions : List OptionSpec := [helpOption]

def setSwitch (args : CheckArgs) (spec : OptionSpec) : Except Stop CheckArgs :=
  match spec.key with
  | "help" => .error .help
  | "warn_unreachable" => .ok { args with warnUnreachable := true }
  | _ => .ok { args with json := true }

def setValue (args : CheckArgs) (spec : OptionSpec) (value : String) : Except Stop CheckArgs :=
  match spec.key with
  | "config" => .ok { args with config := some value }
  | "workers" =>
    match integer? value with
    | some n => .ok { args with workers := some n }
    | none => .error .usage
  | _ =>
    match integer? value with
    | some n => if n = 32 ∨ n = 64 then .ok { args with wordBits := some n } else .error .usage
    | none => .error .usage

/-! ### Behind the command -/

/-- What has been read behind a command. -/
structure Reading where
  args : CheckArgs := {}
  file : Option String := none
  /-- Whether the word before was the name of the file. -/
  fileJustRead : Bool := false
  /-- Whether there was something no one asked for. -/
  leftover : Bool := false

/-- Takes in a word that is no option. -/
def Reading.plain (r : Reading) (text : String) : Reading :=
  match r.file with
  | none => { r with file := some text, fileJustRead := true }
  | some _ => { r with leftover := true, fileJustRead := false }

def readWords (specs : List OptionSpec) : List Word → Reading → Except Stop Reading
  | [], r => .ok r
  | .plain text :: rest, r => readWords specs rest (r.plain text)
  | .divider :: rest, r =>
    let stray := r.file.isSome && !r.fileJustRead
    readWords specs rest { r with leftover := r.leftover || stray, fileJustRead := false }
  | .unknownOption :: rest, r =>
    readWords specs rest { r with leftover := true, fileJustRead := false }
  | .option spec name attached :: rest, r =>
    let r := { r with fileJustRead := false }
    if spec.takesValue then
      match attached, rest with
      | some value, rest => do readWords specs rest { r with args := ← setValue r.args spec value }
      | none, .plain value :: rest => do
          readWords specs rest { r with args := ← setValue r.args spec value }
      | none, _ => .error .usage
    else
      match switches? specs spec name attached with
      | none => .error .usage
      | some (found, stray) => do
        let args ← found.foldlM setSwitch r.args
        readWords specs rest { r with args, leftover := r.leftover || stray }

/-- The arguments of a command; what is left over is told apart from mistakes. -/
def readArgs (specs : List OptionSpec) (words : List String) : Except Stop (CheckArgs × Bool) := do
  match classify specs words with
  | none => .error .usage
  | some words =>
    let r ← readWords specs words {}
    match r.file with
    | none => .error .usage
    | some file => return ({ r.args with file }, r.leftover)

def readAction (name : String) (words : List String) : Except Stop (Action × Bool) :=
  match name with
  | "check" => do
    let (args, leftover) ← readArgs checkOptions words
    return (.check args, leftover)
  | "types" => do
    let (args, leftover) ← readArgs typesOptions words
    return (.types args.file, leftover)
  | _ => .error .usage

/-! ### In front of the command -/

/-- The verbosity after a switch in front of the command. -/
def louder (verbosity : Nat) (spec : OptionSpec) : Except Stop Nat :=
  if spec.key = "help" then .error .help else .ok (verbosity + 1)

/-- Reads a command line from its sorted words; `words` are the same words as they were written. -/
def readMain : List Word → (words : List String) → (verbosity : Nat) → (leftover : Bool) →
    Except Stop Command
  | .plain name :: _, _ :: words, verbosity, leftover => do
    let (action, more) ← readAction name words
    if leftover || more then .error .usage else return ⟨verbosity, action⟩
  | .option spec name attached :: rest, _ :: words, verbosity, leftover =>
    match switches? mainOptions spec name attached with
    | none => .error .usage
    | some (found, stray) => do
        readMain rest words (← found.foldlM louder verbosity) (leftover || stray)
  | .unknownOption :: rest, _ :: words, verbosity, _ => readMain rest words verbosity true
  | .divider :: _, _, _, _ => .error .usage
  | _, _, verbosity, leftover => if leftover then .error .usage else .ok ⟨verbosity, .none⟩

def read (words : List String) : Except Stop Command :=
  match classify mainOptions words with
  | none => .error .usage
  | some sorted => readMain sorted words 0 false

end TreeTyping.CommandLine
