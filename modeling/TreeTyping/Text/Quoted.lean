/-
Quoted text, as messages show it.

A text stands between single quotes, or between double quotes when it holds a single quote and no
double quote.  The closing quote and the backslash are escaped, line feed, carriage return and tab
have escapes of their own, and every other character that is not printable is written by its code
point in two, four or eight hexadecimal digits.
-/
import TreeTyping.Text.Printable

namespace TreeTyping.Text

/-- A number in hexadecimal, with zeros in front up to the given width. -/
def hex (width n : Nat) : String :=
  let digits := Nat.toDigits 16 n
  String.ofList (List.replicate (width - digits.length) '0' ++ digits)

def quoteFor (cs : List Char) : Char :=
  if cs.contains '\'' && !cs.contains '"' then '"' else '\''

def quoteChar (quote c : Char) : String :=
  if c == quote || c == '\\' then String.ofList ['\\', c]
  else if c == '\n' then "\\n"
  else if c == '\r' then "\\r"
  else if c == '\t' then "\\t"
  else if isPrintable c then c.toString
  else if c.toNat < 0x100 then "\\x" ++ hex 2 c.toNat
  else if c.toNat < 0x10000 then "\\u" ++ hex 4 c.toNat
  else "\\U" ++ hex 8 c.toNat

def quoted (s : String) : String :=
  let quote := quoteFor s.toList
  quote.toString ++ String.join (s.toList.map (quoteChar quote)) ++ quote.toString

end TreeTyping.Text
