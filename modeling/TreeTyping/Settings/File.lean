/-
Settings from files.

A file whose name ends in `.json` holds a JSON document, any other a YAML document, which may be
empty or say as little as `false`: then all settings have their defaults.
-/
import TreeTyping.PathName
import TreeTyping.Settings.Basic
import TreeTyping.Yaml.Reader

namespace TreeTyping.Settings

/-- The document in a file of settings. -/
def document? (path text : String) : Option Yaml :=
  if PathName.hasEnding ".json" path then (Json.parse? text).map Yaml.ofJson
  else (Yaml.parse? text).map fun doc => if doc.isTruthy then doc else .map []

def ofFile (files : Files) (path : String) : Except SettingsError Settings :=
  let name := PathName.text path
  match files name with
  | .missing => .error (.notFound name)
  | .directory => .error .isDirectory
  | .text text =>
    match document? path text with
    | some doc => ofYaml doc
    | none => .error (.unreadable name)

end TreeTyping.Settings
