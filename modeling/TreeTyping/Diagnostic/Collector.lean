/-
Collections of diagnostics.

A collector keeps diagnostics in the order in which they were found, and a limit on the number of
errors.  Warnings do not count towards the limit.
-/
import TreeTyping.Diagnostic.Basic

namespace TreeTyping

/-- Diagnostics in order, and the number of errors at which to stop. -/
structure Collector where
  limit : Int
  found : List Diagnostic := []
deriving Repr

namespace Collector

def add (c : Collector) (d : Diagnostic) : Collector := { c with found := c.found ++ [d] }

def extend (c : Collector) (ds : List Diagnostic) : Collector := { c with found := c.found ++ ds }

def errors (c : Collector) : List Diagnostic := c.found.filter Diagnostic.isError

def warnings (c : Collector) : List Diagnostic := c.found.filter fun d => !d.isError

def errorCount (c : Collector) : Nat := c.errors.length

def warningCount (c : Collector) : Nat := c.warnings.length

def shouldStop (c : Collector) : Bool := decide ((c.errorCount : Int) ≥ c.limit)

def countOf (kind : ErrorKind) (ds : List Diagnostic) :
    Nat := (ds.filter fun d => d.kind? == some kind).length

/-- The line that counts errors and warnings, if there are any. -/
def summary? (c : Collector) : Option String :=
  if c.errorCount > 0 then
    some ("\n" ++ toString c.errorCount ++ " error(s), " ++ toString c.warningCount ++
      " warning(s)")
  else if c.warningCount > 0 then some ("\n" ++ toString c.warningCount ++ " warning(s)")
  else none

/-- All diagnostics as text, with a count at the end. -/
def format (c : Collector) : String :=
  "\n\n".intercalate (c.found.map Diagnostic.format ++ c.summary?.toList)

def toJson (c : Collector) : Json :=
  .obj [("diagnostics", .arr (c.found.map Diagnostic.toJson)),
        ("error_count", .int c.errorCount),
        ("warning_count", .int c.warningCount)]

end Collector

end TreeTyping
