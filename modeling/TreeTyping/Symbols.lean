/-
Variables in scope, and function signatures.

A table of scopes has a global scope at its root and, above it, the scopes opened since, innermost
first.  A name is looked up from the innermost scope outwards and may be defined once in each scope.
A frozen scope refuses new names.  Functions live in a table of their own, so a variable may have
the name of a function.
-/
import TreeTyping.Failure
import TreeTyping.Keyed
import TreeTyping.Syntax.Basic
import TreeTyping.Ty.Basic

namespace TreeTyping

inductive SymbolKind where
  | variable | parameter | receiver
deriving DecidableEq, Repr

def SymbolKind.name : SymbolKind → String
  | .variable => "VARIABLE"
  | .parameter => "PARAMETER"
  | .receiver => "RECEIVER"

/-- The node that declares a variable: where it stands, and the name it is listed under. -/
structure Declaration where
  origin : Origin
  listed : Option String
deriving Repr

structure Symbol where
  name : String
  kind : SymbolKind
  type : Ty
  span? : Option Span
  declaration? : Option Declaration
deriving Repr

/-- The signature of a function, procedure or method. -/
structure Signature where
  name : String
  params : List (String × Ty)
  result : Option Ty
  receiver : Option Ty
  span : Span
deriving Repr

namespace Signature

def isProcedure (s : Signature) : Bool := s.result.isNone

def isMethod (s : Signature) : Bool := s.receiver.isSome

/-- The name, behind that of the receiver's type if there is one. -/
def qualifiedName (s : Signature) : String :=
  match s.receiver with
  | some t => t.name ++ "." ++ s.name
  | none => s.name

def type (s : Signature) : Ty := .function (s.params.map Prod.snd) s.result

def describe (s : Signature) : String :=
  s.qualifiedName ++ "(" ++ ", ".intercalate (s.params.map fun p => p.1 ++ ": " ++ p.2.name) ++ ")"
    ++ Ty.resultSuffix s.result

end Signature

structure Scope where
  name : String
  symbols : Keyed Symbol := []
  frozen : Bool := false
deriving Repr

namespace Scope

def find? (s : Scope) (name : String) : Option Symbol := Keyed.find? name s.symbols

def define (s : Scope) (symbol : Symbol) : Except Failure Scope :=
  if s.frozen then .error (.fault (.frozenScope s.name))
  else .ok { s with symbols := Keyed.insert symbol.name symbol s.symbols }

end Scope

/-- The scopes that are open: the global one, and those above it, innermost first. -/
structure Scopes where
  inner : List Scope := []
  global : Scope := { name := "global" }
deriving Repr

namespace Scopes

def current (s : Scopes) : Scope := s.inner.headD s.global

/-- The number of scopes above the global one. -/
def depth (s : Scopes) : Nat := s.inner.length

def push (s : Scopes) (name : String) : Scopes := { s with inner := { name } :: s.inner }

/-- The scopes without the innermost one; the global scope stays. -/
def pop (s : Scopes) : Scopes := { s with inner := s.inner.tail }

/-- The scopes from the innermost to the global one. -/
def chain (s : Scopes) : List Scope := s.inner ++ [s.global]

/-- The symbol the innermost scope with a name gives it. -/
def lookup? (s : Scopes) (name : String) :
    Option Symbol := s.chain.findSome? fun scope => scope.find? name

def lookupLocal? (s : Scopes) (name : String) : Option Symbol := s.current.find? name

/-- The scopes with a symbol written to the innermost one. -/
def write (s : Scopes) (symbol : Symbol) : Except Failure Scopes :=
  match s.inner with
  | [] => do return { s with global := ← s.global.define symbol }
  | scope :: rest => do return { s with inner := (← scope.define symbol) :: rest }

/-- Defines a symbol in the innermost scope, or tells which symbol is in its way. -/
def define (s : Scopes) (symbol : Symbol) : Except Failure (Scopes ⊕ Symbol) :=
  match s.lookupLocal? symbol.name with
  | some previous => .ok (.inr previous)
  | none => do return .inl (← s.write symbol)

end Scopes

end TreeTyping
