/-
Carrying out commands.

A command is a function of the files it can see: it yields an exit code and what goes to the two
output streams.  Diagnostics and results go to the first, complaints about files and notes on the
progress to the second.  Notes are shown by level: warnings always, the rest as far as it was asked
for.
-/
import TreeTyping.Check.Document
import TreeTyping.CommandLine.Command
import TreeTyping.Json.Printer
import TreeTyping.Settings.File
import TreeTyping.Syntax.OfTree
import TreeTyping.Tree.Load

namespace TreeTyping.CommandLine

/-- What a command prints, and its exit code. -/
structure Output where
  exit : Nat
  out : String := ""
  err : String := ""

/-- What ends a command without a proper exit. -/
inductive Crash where
  | failure (f : Failure)
  | load (e : LoadError)
  | settings (e : SettingsError)
  | isDirectory

def lines (ls : List String) : String := String.join (ls.map (· ++ "\n"))

/-! ### Usage -/

def usageText : String :=
  "usage: typecore [-h] [-v] \x7bcheck,types\x7d ...\n\n" ++
  "Static type checker for typecore syntax trees\n\n" ++
  "commands:\n" ++
  "  check FILE    check a module for type errors\n" ++
  "                [--config FILE] [--workers N] [--word-bits \x7b32,64\x7d] [--warn-unreachable] [--json]\n" ++
  "  types FILE    list declared types\n\n" ++
  "options:\n" ++
  "  -h, --help     show this help message and exit\n" ++
  "  -v, --verbose  log progress (-vv for debug output)\n"

/-- The output for a command line that is not carried out. -/
def Stop.output : Stop → Output
  | .help => { exit := 0, out := usageText }
  | .usage => { exit := 2, err := usageText }

/-! ### Notes -/

def noteLines (verbosity : Nat) (notes : List Note) : List String :=
  match verbosity with
  | 0 => (notes.filter fun n => n.level = .warning).map Note.text
  | 1 => (notes.filter fun n => Level.info.rank ≤ n.level.rank).map Note.line
  | _ => notes.map Note.line

/-! ### Files -/

/-- The output that says what is wrong with a file. -/
def complaint (message : String) : Output := { exit := 1, err := lines ["Error: " ++ message] }

/-- The tree in a file; on the left the output when there is none. -/
def loadTree (files : Files) (path : String) : Except Crash (Output ⊕ Tree) :=
  let name := PathName.text path
  match files name with
  | .missing => .ok (.inl (complaint ("File not found: " ++ name)))
  | .directory => .error .isDirectory
  | .text text =>
    match Tree.ofText text with
    | .ok t => .ok (.inr t)
    | .error .unusableClass => .error (.load .unusableClass)
    | .error e => .ok (.inl (complaint e.message))

def moduleOf (t : Tree) : Except Crash Module :=
  match Module.ofTree? (.root 0) t with
  | some m => .ok m
  | none => .error (.failure (.fault .missingPart))

def outcomeOf (s : Settings) (m : Module) : Except Crash Checked :=
  match m.check s with
  | .ok c => .ok c
  | .error f => .error (.failure f)

/-! ### Checking -/

def settingsOf (files : Files) (args : CheckArgs) : Except SettingsError Settings := do
  let base ← match args.config with
    | none => pure {}
    | some path => if path = "" then pure {} else Settings.ofFile files path
  let given (key : String) (value : Option Int) : Keyed Yaml :=
    value.toList.map fun n => (key, .int n)
  base.withOverrides (given "workers" args.workers ++ given "word_bits" args.wordBits
    ++ if args.warnUnreachable then [("warn_unreachable", .bool true)] else [])

def summary (file : String) (m : Module) (c : Checked) : List String :=
  let name := PathName.last file
  let errors := toString c.collector.errorCount
  let warnings := c.collector.warningCount
  if c.accepted then
    ("OK: " ++ name ++ " - " ++ toString m.functions.length ++ " function(s), no errors") ::
      if warnings > 0 then ["  " ++ toString warnings ++ " warning(s)"] else []
  else
    ("FAILED: " ++ name ++ " - " ++ errors ++ " error(s), " ++ toString warnings ++
      " warning(s)") ::
      if c.truncated then ["  error limit reached: " ++ toString c.skipped ++
        " declaration(s) not checked"]
      else []

def checkText (args : CheckArgs) (m : Module) (c : Checked) : String :=
  if args.json then lines [c.toJson.renderIndented]
  else lines (c.diagnostics.map Diagnostic.format ++ summary args.file m c)

def exitOf (c : Checked) : Nat := if c.accepted then 0 else 1

def runCheck (files : Files) (verbosity : Nat) (args : CheckArgs) : Except Crash Output := do
  match settingsOf files args with
  | .error .keyNotText => .error (.settings .keyNotText)
  | .error .isDirectory => .error (.settings .isDirectory)
  | .error e => return complaint e.message
  | .ok s =>
    match ← loadTree files args.file with
    | .inl output => return output
    | .inr t =>
      let m ← moduleOf t
      let c ← outcomeOf s m
      return { exit := exitOf c, out := checkText args m c,
               err := lines (noteLines verbosity c.notes) }

/-! ### Listing types -/

def braced (parts : List String) : String := "\x7b" ++ ", ".intercalate parts ++ "\x7d"

def typeLine (r : Registry) (t : Ty) : List String :=
  match t with
  | .alias n => ["  type " ++ n.name ++ ": " ++ ((r.underlying? n).map Ty.name).getD "None"]
  | .struct n =>
    ["  struct " ++ n.name ++ " " ++
      braced ((r.structFields n).map fun f => f.1 ++ ": " ++ f.2.name)]
  | .interface n =>
    ["  interface " ++ n.name ++ " " ++ braced ((r.required n).map fun m => m.2.describe)]
  | _ => []

def typeLines (r : Registry) (t : Ty) : List String :=
  typeLine r t ++ (r.methodsOf t).map fun m => "    " ++ m.2.describe

def runTypes (files : Files) (verbosity : Nat) (file : String) : Except Crash Output := do
  match ← loadTree files file with
  | .inl output => return output
  | .inr t =>
    let m ← moduleOf t
    let c ← outcomeOf {} m
    let r := c.env.registry
    return { exit := exitOf c
             out := lines (("Module: " ++ m.name.getD "None") :: r.userTypes.flatMap (typeLines r))
             err := lines (noteLines verbosity c.notes) }

/-! ### Commands -/

def Command.paths (c : Command) : List String :=
  match c.action with
  | .check args => PathName.text args.file :: args.config.toList.map PathName.text
  | .types file => [PathName.text file]
  | .none => []

def Command.run (files : Files) (c : Command) : Except Crash Output :=
  match c.action with
  | .check args => runCheck files c.verbosity args
  | .types file => runTypes files c.verbosity file
  | .none => .ok { exit := 1, out := usageText }

def run (files : Files) (words : List String) : Except Crash Output :=
  match read words with
  | .ok command => command.run files
  | .error stop => .ok stop.output

end TreeTyping.CommandLine
