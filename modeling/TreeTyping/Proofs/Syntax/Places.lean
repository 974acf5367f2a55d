/-
The places of a piece of syntax.

Every expression has a place, and so has every statement that declares a variable: these are the
places a type can be recorded for.  They are listed here in the order of the tree, each node before
what is below it.  What the checker never gives a type, such as a break, has no place in the list.
-/
import TreeTyping.Proofs.Syntax.Occurrence

namespace TreeTyping

namespace Expr

mutual

/-- The places of an expression and of all expressions in it. -/
def places : Expr → List Place
  | .literal o _ _ | .identifier o _ => [o.place]
  | .binary o left _ right => o.place :: (left.places ++ right.places)
  | .unary o _ operand => o.place :: operand.places
  | .call o callee args => o.place :: (callee.places ++ placesOfAll args)
  | .methodCall o object _ args => o.place :: (object.places ++ placesOfAll args)
  | .member o object _ => o.place :: object.places
  | .index o object i => o.place :: (object.places ++ i.places)
  | .cast o _ operand => o.place :: operand.places
  | .list o elements => o.place :: placesOfAll elements
  | .map o entries => o.place :: placesOfEntries entries
  | .set o elements => o.place :: placesOfAll elements
  | .record o _ fields => o.place :: placesOfFields fields
  | .foreign _ | .unreadable => []

def placesOfAll : List Expr → List Place
  | [] => []
  | e :: rest => e.places ++ placesOfAll rest

def placesOfEntries : List (Expr × Expr) → List Place
  | [] => []
  | (key, value) :: rest => key.places ++ (value.places ++ placesOfEntries rest)

def placesOfFields : List (String × Expr) → List Place
  | [] => []
  | (_, value) :: rest => value.places ++ placesOfFields rest

end

def placesOf? : Option Expr → List Place
  | none => []
  | some e => e.places

end Expr

namespace Stmt

mutual

/-- The places of a statement and of all expressions and statements in it. -/
def places : Stmt → List Place
  | .declare d => d.origin.place :: Expr.placesOf? d.initializer
  | .assign _ target value => target.places ++ value.places
  | .expr _ e => e.places
  | .ret _ value => Expr.placesOf? value
  | .panic _ message => Expr.placesOf? message
  | .cond _ c body more otherwise =>
    c.places ++ (placesOfAll body ++ (placesOfBranches more ++ placesOfBlock? otherwise))
  | .select _ subject arms otherwise =>
    subject.places ++ (placesOfCases arms ++ placesOfBlock? otherwise)
  | .loop _ c body => c.places ++ placesOfAll body
  | .iterate o _ iterable body => o.place :: (iterable.places ++ placesOfAll body)
  | .block _ body => placesOfAll body
  | .brk _ | .cont _ | .pass _ | .foreign _ | .unreadable => []

def placesOfAll : List Stmt → List Place
  | [] => []
  | s :: rest => s.places ++ placesOfAll rest

def placesOfBlock? : Option (List Stmt) → List Place
  | none => []
  | some body => placesOfAll body

def placesOfBranches : List Branch → List Place
  | [] => []
  | .mk c body :: rest => c.places ++ (placesOfAll body ++ placesOfBranches rest)

def placesOfCases : List Case → List Place
  | [] => []
  | .mk values body :: rest => Expr.placesOfAll values ++ (placesOfAll body ++ placesOfCases rest)

end

end Stmt

/-- The places of a function: those of its parameters, its body and its receiver. -/
def FunctionDef.places (f : FunctionDef) : List Place :=
  f.params.map (fun p => p.origin.place) ++
    (Stmt.placesOfAll f.body ++ f.receiver.toList.map fun p => p.origin.place)

def VarDecl.placesOfEntry : Entry VarDecl → List Place
  | .proper d => (Stmt.declare d).places
  | .foreign _ => []

def FunctionDef.placesOfEntry : Entry FunctionDef → List Place
  | .proper f => f.places
  | .foreign _ => []

/-- The places of a module: those of its variables and of its functions. -/
def Module.places (m : Module) : List Place :=
  m.vars.flatMap VarDecl.placesOfEntry ++ m.functions.flatMap FunctionDef.placesOfEntry

end TreeTyping
