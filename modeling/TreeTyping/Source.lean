/-
Places in source text.

A span runs from one position to another in one file.  Documents may give a coordinate as a truth
value, which counts as one or zero and is shown as it was given.  The file of a span is whatever the
document names as its file, null when it names none; it is shown in front of the coordinates when it
is there at all.
-/
import TreeTyping.Json.Basic

namespace TreeTyping

/-- A line or column number. -/
inductive Coord where
  | number (n : Int)
  | flag (b : Bool)
deriving DecidableEq, Repr

namespace Coord

def value : Coord → Int
  | .number n => n
  | .flag b => if b then 1 else 0

def toJson : Coord → Json
  | .number n => .int n
  | .flag b => .bool b

def text (c : Coord) : String := c.toJson.display

def ofJson? : Json → Option Coord
  | .int n => some (.number n)
  | .bool b => some (.flag b)
  | _ => none

end Coord

structure Position where
  line : Coord
  column : Coord
deriving DecidableEq, Repr

namespace Position

def value (p : Position) : Int × Int := (p.line.value, p.column.value)

def text (p : Position) : String := p.line.text ++ ":" ++ p.column.text

def toJson (p : Position) : Json := .obj [("line", p.line.toJson), ("column", p.column.toJson)]

def ofNumbers (line column : Int) : Position := ⟨.number line, .number column⟩

end Position

structure Span where
  start : Position
  stop : Position
  file : Json
deriving Repr

namespace Span

def point (line column : Int) (file : Json) : Span :=
  ⟨.ofNumbers line column, .ofNumbers line column, file⟩

def nowhere : Span := point 0 0 .null

def isNowhere (s : Span) : Bool :=
  s.start.value == (0, 0) && s.stop.value == (0, 0) && s.file matches .null

def fileText (s : Span) : String := if s.file.isTruthy then s.file.plain ++ ":" else ""

def startText (s : Span) : String := s.fileText ++ s.start.text

def text (s : Span) : String := s.startText ++ "-" ++ s.stop.text

def toJson (s : Span) : Json :=
  .obj [("start", s.start.toJson), ("end", s.stop.toJson), ("file", s.file)]

/-- The JSON form of a span in a tree: nothing, two coordinates, or four. -/
def toTreeJson? (s : Span) : Option Json :=
  if s.isNowhere then none
  else if s.start.value == s.stop.value then
    some (.arr [s.start.line.toJson, s.start.column.toJson])
  else
    some (.arr [s.start.line.toJson, s.start.column.toJson, s.stop.line.toJson,
      s.stop.column.toJson])

/-- A span of two or four coordinates in the given file. -/
def ofCoords? (file : Json) : List Json → Option Span
  | [a, b] => do
    let start : Position := ⟨← Coord.ofJson? a, ← Coord.ofJson? b⟩
    return ⟨start, start, file⟩
  | [a, b, c, d] => do
    return ⟨⟨← Coord.ofJson? a, ← Coord.ofJson? b⟩, ⟨← Coord.ofJson? c, ← Coord.ofJson? d⟩, file⟩
  | _ => none

end Span

end TreeTyping
