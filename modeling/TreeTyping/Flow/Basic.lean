/-
Ways out of a statement.

Control can leave a statement in four ways: it goes on behind it, returns from the function, breaks
out of the innermost loop or continues with its next round.  A statement may have several ways out,
or none if it never ends.  What matters of a body as a whole is whether it can fall through, and
otherwise whether it returns.
-/
namespace TreeTyping

/-- A set of ways out of a statement. -/
structure Exits where
  normal : Bool := false
  returns : Bool := false
  breaks : Bool := false
  continues : Bool := false
deriving DecidableEq, Repr

namespace Exits

/-- Going on behind a statement. -/
def onward : Exits := { normal := true }

def union (a b : Exits) : Exits :=
  ⟨a.normal || b.normal, a.returns || b.returns, a.breaks || b.breaks, a.continues || b.continues⟩

/-- The ways out other than going on behind a statement. -/
def withoutNormal (e : Exits) : Exits := { e with normal := false }

/-- The ways out of a loop around a body: it ends by a break, or when it need not run on. -/
def ofLoop (body : Exits) (forever : Bool) : Exits :=
  { normal := !forever || body.breaks, returns := body.returns }

def names (e : Exits) : List String :=
  (if e.breaks then ["break"] else []) ++ (if e.continues then ["continue"] else [])
    ++ (if e.normal then ["normal"] else []) ++ (if e.returns then ["return"] else [])

end Exits

inductive Flow where
  | returns | fallsThrough | diverges
deriving DecidableEq, Repr

namespace Flow

def name : Flow → String
  | .returns => "returns"
  | .fallsThrough => "falls-through"
  | .diverges => "diverges"

def terminates (f : Flow) : Bool := f ≠ .fallsThrough

/-- The flow of a body with the given ways out; breaks and continues leave a body like its end. -/
def ofExits (e : Exits) : Flow :=
  if e.normal || e.breaks || e.continues then .fallsThrough
  else if e.returns then .returns
  else .diverges

end Flow

end TreeTyping
