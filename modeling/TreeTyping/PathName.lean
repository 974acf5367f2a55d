/-
Names of files.

A name is a sequence of components divided by slashes.  Empty components and single dots say nothing
and are left out of the text of a name; the name without any component is a single dot, the current
directory.  Slashes in front stay: one, or exactly two.
-/
namespace TreeTyping.PathName

/-- The components of a name that say something. -/
def components (path : String) : List String := (path.splitOn "/").filter fun c => c ≠ "" ∧ c ≠ "."

/-- The slashes a name starts with: two stay two, any other number of them is one. -/
def rootText (path : String) : String :=
  match (path.toList.takeWhile (· == '/')).length with
  | 0 => ""
  | 2 => "//"
  | _ => "/"

def text (path : String) : String :=
  match rootText path, components path with
  | "", [] => "."
  | root, parts => root ++ "/".intercalate parts

def last (path : String) : String := (components path).getLastD ""

/-- Whether the last component has something in front of the given ending. -/
def hasEnding (ending path : String) : Bool :=
  let name := last path
  name.endsWith ending && name.length > ending.length

end TreeTyping.PathName

namespace TreeTyping

inductive FileContent where
  | missing
  | directory
  | text (s : String)

/-- The files a command can see, by the text of their names. -/
abbrev Files := String → FileContent

end TreeTyping
