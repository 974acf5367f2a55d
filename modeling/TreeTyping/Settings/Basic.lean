/-
Settings of a check.

Settings are obtained from a mapping with known keys, and every value is checked: the word size is
32 or 64, limits and worker counts are positive integers, and the switch for warnings is a truth
value.  The word size is compared by value, so a double that equals 32 or 64 passes and stays a
double.  Overrides replace single values of settings and are checked in the same way.
-/
import TreeTyping.Number
import TreeTyping.Yaml.Basic

namespace TreeTyping

structure Settings where
  wordBits : Number := .int 64
  maxErrors : Int := 50
  /-- The number of function bodies checked at a time. -/
  workers : Int := 1
  warnUnreachable : Bool := false
deriving DecidableEq, Repr

inductive SettingsError where
  | unknownKeys (names : List String)
  /-- A key of a mapping that is not a text. -/
  | keyNotText
  /-- An override of a value that settings do not have. -/
  | unknownOverride
  | wordBits (found : Yaml)
  | notPositive (key : String) (found : Yaml)
  | notATruthValue (key : String) (found : Yaml)
  | notFound (path : String)
  /-- A directory where a file is asked for. -/
  | isDirectory
  | unreadable (path : String)
  | notAMapping (kind : String)
deriving Repr

def SettingsError.message : SettingsError → String
  | .unknownKeys names => "unknown configuration key(s): " ++ ", ".intercalate names
  | .keyNotText => "configuration keys must be text"
  | .unknownOverride => "unknown configuration override"
  | .wordBits found => "word_bits must be 32 or 64, got " ++ found.display
  | .notPositive key found => key ++ " must be a positive integer, got " ++ found.display
  | .notATruthValue key found => key ++ " must be true or false, got " ++ found.display
  | .notFound path => "configuration not found: " ++ path
  | .isDirectory => "is a directory"
  | .unreadable path => "cannot parse " ++ path ++ ": malformed document"
  | .notAMapping kind => "configuration must be a mapping, got " ++ kind

namespace Settings

def keys : List String := ["word_bits", "max_errors", "workers", "warn_unreachable"]

def readWordBits : Yaml → Except SettingsError Number
  | .int n => if n == 32 || n == 64 then .ok (.int n) else .error (.wordBits (.int n))
  | .float x => if x.equalsInt 32 || x.equalsInt 64 then
      .ok (.float x) else .error (.wordBits (.float x))
  | found => .error (.wordBits found)

def readPositive (key : String) : Yaml → Except SettingsError Int
  | .int n => if n < 1 then .error (.notPositive key (.int n)) else .ok n
  | found => .error (.notPositive key found)

def readTruth (key : String) : Yaml → Except SettingsError Bool
  | .bool b => .ok b
  | found => .error (.notATruthValue key found)

def toMapping (s : Settings) : List (String × Yaml) :=
  [("word_bits", Yaml.ofJson s.wordBits.toJson), ("max_errors", .int s.maxErrors),
   ("workers", .int s.workers), ("warn_unreachable", .bool s.warnUnreachable)]

/-- Settings with the given values, all of which are checked, in place of those of `base`. -/
def update (base : Settings) (given : List (String × Yaml)) : Except SettingsError Settings := do
  let value (key : String) : Yaml :=
    ((Keyed.find? key given).or (Keyed.find? key base.toMapping)).getD .null
  let wordBits ← readWordBits (value "word_bits")
  let maxErrors ← readPositive "max_errors" (value "max_errors")
  let workers ← readPositive "workers" (value "workers")
  let warnUnreachable ← readTruth "warn_unreachable" (value "warn_unreachable")
  return { wordBits, maxErrors, workers, warnUnreachable }

/-- Settings from a mapping; keys that settings do not have are refused. -/
def ofMapping (given : List (String × Yaml)) : Except SettingsError Settings :=
  let unknown := (given.map Prod.fst).filter fun key => !keys.contains key
  if unknown.isEmpty then update {} given
  else .error (.unknownKeys (unknown.mergeSort fun a b => !(b < a)))

def textKeys : List (Yaml × Yaml) → Option (List (String × Yaml))
  | [] => some []
  | (.str key, value) :: rest => (textKeys rest).map ((key, value) :: ·)
  | _ :: _ => none

def ofYaml : Yaml → Except SettingsError Settings
  | .map entries =>
    match textKeys entries with
    | some given => ofMapping given
    | none => .error .keyNotText
  | found => .error (.notAMapping found.kindName)

/-- Settings with some values replaced; a null leaves its value as it is. -/
def withOverrides (s : Settings) (overrides : List (String × Yaml)) :
    Except SettingsError Settings :=
  let given := overrides.filter fun o => !(o.2 matches .null)
  if given.all fun o => keys.contains o.1 then s.update given
  else .error .unknownOverride

def toJson (s : Settings) : Json :=
  .obj [("word_bits", s.wordBits.toJson), ("max_errors", .int s.maxErrors),
    ("workers", .int s.workers),
        ("warn_unreachable", .bool s.warnUnreachable)]

end Settings

end TreeTyping
