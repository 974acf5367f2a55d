/-
Options on a command line.

An option has names that start with dashes; long names have two, and may be shortened as long as
only one option fits.  A value follows as the next word or, after a long name, behind an equals
sign.  Options of one letter without a value may be written in one word.  Everything behind two
dashes is taken as it is, and so are negative numbers and words with blanks.

Words are sorted first, all of them, and an ambiguous name is refused there.  Reading then goes
through them in order, and the first mistake or request for help in that order decides.
-/
namespace TreeTyping.CommandLine

/-- An option: its key, its names, and whether a value follows. -/
structure OptionSpec where
  key : String
  names : List String
  takesValue : Bool := false

inductive Word where
  /-- An option under one of its full names, with what is attached to it. -/
  | option (spec : OptionSpec) (name : String) (attached : Option String)
  | unknownOption
  | plain (text : String)
  /-- The two dashes behind which there are no options. -/
  | divider

def isNegativeNumber (s : String) : Bool :=
  match s.toList with
  | '-' :: digits =>
    let whole := digits.takeWhile Char.isDigit
    match digits.dropWhile Char.isDigit with
    | [] => !whole.isEmpty
    | '.' :: fraction => !fraction.isEmpty && fraction.all Char.isDigit
    | _ => false
  | _ => false

def named? (specs : List OptionSpec) (name : String) : Option OptionSpec :=
  specs.find? fun spec => spec.names.contains name

/-- A word at its first equals sign. -/
def splitEquals (s : String) : Option (String × String) :=
  match s.toList.dropWhile (· != '=') with
  | _ :: rest => some (String.ofList (s.toList.takeWhile (· != '=')), String.ofList rest)
  | [] => none

/-- All names of options that a long name may be short for, with what is attached. -/
def longMatches (specs : List OptionSpec) (word : String) : List Word :=
  let (stem, attached) := match splitEquals word with
    | some (stem, value) => (stem, some value)
    | none => (word, none)
  specs.flatMap fun spec =>
    (spec.names.filter fun name => name.startsWith stem).map fun name => .option spec name attached

/-- All names of options that a word with one dash may stand for, with what is attached. -/
def shortMatches (specs : List OptionSpec) (word : String) : List Word :=
  let letter := String.ofList (word.toList.take 2)
  let tail := String.ofList (word.toList.drop 2)
  specs.flatMap fun spec =>
    spec.names.filterMap fun name =>
      if name == letter then some (.option spec name (some tail))
      else if name.startsWith word then some (.option spec name none)
      else none

/-- All that a word that starts with a dash may stand for. -/
def possible (specs : List OptionSpec) (word : String) : List Word :=
  if word.startsWith "--" then longMatches specs word else shortMatches specs word

/-- The option in a word with an exact name and an equals sign. -/
def namedWithValue? (specs : List OptionSpec) (word : String) : Option Word := do
  let (name, value) ← splitEquals word
  let spec ← named? specs name
  return .option spec name (some value)

/-- Sorts one word; nothing if it is ambiguous. -/
def classifyWord (specs : List OptionSpec) (word : String) : Option Word :=
  if !word.startsWith "-" || word == "-" then some (.plain word)
  else
    match named? specs word, namedWithValue? specs word, possible specs word with
    | some spec, _, _ => some (.option spec word none)
    | none, some found, _ => some found
    | none, none, [found] => some found
    | none, none, _ :: _ => none
    | none, none, [] =>
      if isNegativeNumber word || word.contains ' ' then some (.plain word) else some .unknownOption

/-- Sorts the words of a command line; nothing if one is ambiguous. -/
def classify (specs : List OptionSpec) : List String → Option (List Word)
  | [] => some []
  | "--" :: rest => some (.divider :: rest.map .plain)
  | word :: rest => do
    let first ← classifyWord specs word
    let others ← classify specs rest
    return first :: others

/--
The options without a value that letters behind one dash stand for, up to the first letter that
stands for none, and whether there is such a letter.
-/
def cluster (specs : List OptionSpec) : List Char → List OptionSpec × Bool
  | [] => ([], false)
  | letter :: rest =>
    match named? specs (String.ofList ['-', letter]) with
    | none => ([], true)
    | some spec =>
      let (others, stray) := cluster specs rest
      (spec :: others, stray)

/-- The options without a value that a word stands for, and whether letters are left over. -/
def switches? (specs : List OptionSpec) (spec : OptionSpec) (name : String)
    (attached : Option String) : Option (List OptionSpec × Bool) :=
  match attached with
  | none => some ([spec], false)
  | some tail =>
    if name.startsWith "--" || tail == "" then none
    else
      let (others, stray) := cluster specs tail.toList
      some (spec :: others, stray)

end TreeTyping.CommandLine
