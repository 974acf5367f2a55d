/-
The program.

The command line is read, the files it names are read, the command is carried out, and what it
yields is printed.
-/
import TreeTyping.CommandLine.Run

namespace TreeTyping

open CommandLine

def crashText : Crash → String
  | .failure (.found d) => d.format
  | .failure (.fault f) => f.message?.getD "internal error"
  | .load e => e.message
  | .settings e => e.message
  | .isDirectory => "is a directory"

def readContent (path : String) : IO FileContent := do
  try
    return .text (← IO.FS.readFile path)
  catch e =>
    match e with
    | .noFileOrDirectory _ _ _ => return .missing
    | _ => return .directory

def readFiles (words : List String) : IO (List (String × FileContent)) := do
  match CommandLine.read words with
  | .ok command => command.paths.mapM fun path => do return (path, ← readContent path)
  | .error _ => return []

end TreeTyping

open TreeTyping in
def main (words : List String) : IO UInt32 := do
  let contents ← readFiles words
  let files : Files := fun path =>
    ((contents.find? fun c => c.1 == path).map Prod.snd).getD .missing
  match CommandLine.run files words with
  | .ok output =>
    (← IO.getStderr).putStr output.err
    (← IO.getStdout).putStr output.out
    return UInt32.ofNat output.exit
  | .error crash =>
    (← IO.getStderr).putStrLn (crashText crash)
    return 1
