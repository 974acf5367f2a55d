/-
Ways out of statements, and statements that are never reached.

A sequence ends at the first statement that control does not go on behind; what follows is never
reached and does not count.  A conditional or match without a default branch may do nothing.  A loop
whose condition is constantly true ends by a break only, one whose condition is constantly false
never runs its body, and any other loop may run any number of times.

The statements written down on the way are those that start a part that is never reached: the first
behind the end of a sequence, and the first in the body of a loop that never runs.
-/
import TreeTyping.Failure
import TreeTyping.Flow.Basic
import TreeTyping.Logged
import TreeTyping.Syntax.Basic

namespace TreeTyping

/-- The ways out of a statement, and the statements found to be unreachable. -/
abbrev Reach (α : Type) := Logged Stmt Fault α

namespace Reach

/-- Writes down the first of statements that are never reached; it has to have a span. -/
def unreached (warn : Bool) : List Stmt → Reach Unit
  | [] => pure ()
  | s :: _ =>
    if warn then
      match s.span? with
      | some _ => Logged.record s
      | none => Logged.fail .missingPart
    else pure ()

/-- The fault of a value that is no statement. -/
def foreign (f : Foreign) : Fault :=
  match f.span? with
  | some _ => .noFlow f.kind
  | none => .missingPart

/-- The truth value a condition is known to have. -/
def constantCondition? (c : Expr) : Option Bool :=
  match c.constant with
  | .bool b => some b
  | _ => none

mutual

def ofStmt (warn : Bool) : Stmt → Reach Exits
  | .declare _ => pure .onward
  | .assign _ _ _ => pure .onward
  | .expr _ _ => pure .onward
  | .pass _ => pure .onward
  | .ret _ _ => pure { returns := true }
  | .panic _ _ => pure {}
  | .brk _ => pure { breaks := true }
  | .cont _ => pure { continues := true }
  | .cond _ _ body more otherwise => do
    let first ← ofSequence warn body
    let others ← ofBranches warn more
    let last ← ofOptional warn otherwise
    return (first.union others).union last
  | .select _ _ arms otherwise => do
    let first ← ofCases warn arms
    let last ← ofOptional warn otherwise
    return first.union last
  | .loop _ c body =>
    match constantCondition? c with
    | some false => do
      unreached warn body
      return .onward
    | known => do
      return .ofLoop (← ofSequence warn body) (known == some true)
  | .iterate _ _ _ body => do
    return .ofLoop (← ofSequence warn body) false
  | .block _ body => ofSequence warn body
  | .foreign f => Logged.fail (foreign f)
  | .unreadable => Logged.fail .missingPart

def ofSequence (warn : Bool) : List Stmt → Reach Exits
  | [] => pure .onward
  | s :: rest => do
    let e ← ofStmt warn s
    if e.normal then
      return e.withoutNormal.union (← ofSequence warn rest)
    else
      unreached warn rest
      return e

/-- The ways out of a default branch; without one control goes on. -/
def ofOptional (warn : Bool) : Option (List Stmt) → Reach Exits
  | none => pure .onward
  | some body => ofSequence warn body

def ofBranches (warn : Bool) : List Branch → Reach Exits
  | [] => pure {}
  | .mk _ body :: rest => do
    let e ← ofSequence warn body
    return e.union (← ofBranches warn rest)

def ofCases (warn : Bool) : List Case → Reach Exits
  | [] => pure {}
  | .mk _ body :: rest => do
    let e ← ofSequence warn body
    return e.union (← ofCases warn rest)

end

def warnings {α : Type} (x : Reach α) : List Diagnostic :=
  x.log.filterMap fun s => s.span?.map fun span => ⟨.unreachable, span⟩

end Reach

end TreeTyping
