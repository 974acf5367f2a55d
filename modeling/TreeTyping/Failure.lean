/-
How checking ends early.

A diagnostic is what checking looks for: it ends the check of one declaration and is reported.  A
fault is something else: a hand-made tree asked for a part that a value does not have, a size or a
default value that would never be finished, a write to a table that is closed.  A fault ends
everything.
-/
import TreeTyping.Diagnostic.Basic

namespace TreeTyping

/-- What ends everything. -/
inductive Fault where
  /-- A part was asked of a value that has no such part. -/
  | missingPart
  /-- A literal has a kind that is not one of the literal kinds. -/
  | unknownLiteralKind
  /-- A computation that follows a recursive type without end. -/
  | endless
  /-- An integer too large for a double. -/
  | tooLarge
  | frozenRegistry
  | frozenScope (name : String)
  /-- A node of a class that control flow says nothing about. -/
  | noFlow (cls : String)
deriving DecidableEq, Repr

/-- The text of a fault; faults without one are known by their kind alone. -/
def Fault.message? : Fault → Option String
  | .frozenRegistry => some "type registry is frozen"
  | .frozenScope name => some ("scope '" ++ name ++ "' is frozen")
  | .noFlow cls => some ("No visitor for " ++ cls)
  | _ => none

/-- A diagnostic or a fault.  A warning never ends anything, so the diagnostic is an error. -/
inductive Failure where
  | found (d : Diagnostic) {h : d.isError = true}
  | fault (f : Fault)
deriving Repr

namespace Failure

def of (cause : Cause) (span : Span) (h : cause.kind?.isSome = true := by exact Eq.refl true) :
    Failure :=
  .found ⟨cause, span⟩ (h := h)

end Failure

def complain {α : Type} (cause : Cause) (span : Span)
    (h : cause.kind?.isSome = true := by exact Eq.refl true) : Except Failure α :=
  .error (.of cause span h)

end TreeTyping
