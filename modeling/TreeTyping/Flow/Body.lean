/-
Flow of function bodies.

A function with a result has to return on every path, so its body must not fall through.  Procedures
may.
-/
import TreeTyping.Flow.Exits
import TreeTyping.Symbols

namespace TreeTyping

/-- What is found out about the flow of a function body. -/
structure BodyFlow where
  /-- The flow, unless a value that is no statement is in the way. -/
  flow : Except Fault Flow
  warnings : List Diagnostic
  /-- The complaint about a function that may end without a result. -/
  complaint : Option Diagnostic

namespace FunctionDef

def bodyFlow (warn : Bool) (f : FunctionDef) (signature : Signature) : BodyFlow :=
  let reach := Reach.ofSequence warn f.body
  let flow := reach.result.map Flow.ofExits
  let complaint := match flow, signature.result with
    | .ok .fallsThrough, some t =>
      some ⟨.nonExhaustive signature.qualifiedName t.name, f.origin.span⟩
    | _, _ => none
  { flow, warnings := reach.warnings, complaint }

end FunctionDef

end TreeTyping
