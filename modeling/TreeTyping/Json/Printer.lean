/-
Writing JSON text.

Text is ASCII only: a character outside the printable ASCII range is written by its UTF-16 code
units, a character beyond the basic plane as a surrogate pair.  Doubles have their shortest text,
and the values that JSON has no number for are written as the words the reader accepts.  The compact
form stands on one line; the indented form gives every element and entry a line of its own.
-/
import TreeTyping.Json.Basic

namespace TreeTyping.Json

def escapeUnit (n : Nat) : String := "\\u" ++ Text.hex 4 n

def escapeChar (c : Char) : String :=
  if c == '"' then "\\\""
  else if c == '\\' then "\\\\"
  else if c == '\n' then "\\n"
  else if c == '\r' then "\\r"
  else if c == '\t' then "\\t"
  else if c.toNat == 8 then "\\b"
  else if c.toNat == 12 then "\\f"
  else if 0x20 ≤ c.toNat && c.toNat ≤ 0x7e then c.toString
  else if c.toNat < 0x10000 then escapeUnit c.toNat
  else
    let n := c.toNat - 0x10000
    escapeUnit (0xd800 + n / 0x400) ++ escapeUnit (0xdc00 + n % 0x400)

def renderString (s : String) : String :=
  "\"" ++ s.foldl (fun out c => out ++ escapeChar c) "" ++ "\""

def renderFloat : Binary64 → String
  | .nan => "NaN"
  | .infinite negative => if negative then "-Infinity" else "Infinity"
  | x => x.text

mutual

def render : Json → String
  | .null => "null"
  | .bool b => if b then "true" else "false"
  | .int n => toString n
  | .float x => renderFloat x
  | .str s => renderString s
  | .arr items => "[" ++ ", ".intercalate (renderItems items) ++ "]"
  | .obj entries => "\x7b" ++ ", ".intercalate (renderEntries entries) ++ "\x7d"

def renderItems : List Json → List String
  | [] => []
  | item :: rest => render item :: renderItems rest

def renderEntries : List (String × Json) → List String
  | [] => []
  | (key, value) :: rest => (renderString key ++ ": " ++ render value) :: renderEntries rest

end

/-- A line break followed by two blanks for every level. -/
def newline (level : Nat) : String := "\n" ++ String.ofList (List.replicate (2 * level) ' ')

/-- A container of the given parts, each on a line of its own; an empty one stays on its line. -/
def layOut (opening closing : String) (level : Nat) (parts : List String) : String :=
  if parts.isEmpty then opening ++ closing
  else opening ++ newline (level + 1) ++ ("," ++ newline (level + 1)).intercalate parts ++
    newline level ++ closing

mutual

def indentAt (level : Nat) : Json → String
  | .arr items => layOut "[" "]" level (indentItems (level + 1) items)
  | .obj entries => layOut "\x7b" "\x7d" level (indentEntries (level + 1) entries)
  | .null => "null"
  | .bool b => if b then "true" else "false"
  | .int n => toString n
  | .float x => renderFloat x
  | .str s => renderString s

def indentItems (level : Nat) : List Json → List String
  | [] => []
  | item :: rest => indentAt level item :: indentItems level rest

def indentEntries (level : Nat) : List (String × Json) → List String
  | [] => []
  | (key, value) :: rest => (renderString key ++ ": " ++ indentAt level value) ::
      indentEntries level rest

end

/-- A value over several lines, indented by two blanks a level. -/
def renderIndented (doc : Json) : String := indentAt 0 doc

end TreeTyping.Json
