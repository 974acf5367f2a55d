/-
What typing rules refer to.

An environment holds the registry, the word size, the functions of the module and the scopes that
are open.  Statements also depend on the function they are in, if any, and on whether they are in a
loop.
-/
import TreeTyping.Number
import TreeTyping.Registry.Members
import TreeTyping.Registry.Resolve
import TreeTyping.Symbols

namespace TreeTyping

/-- What typing rules refer to. -/
structure Env where
  registry : Registry
  wordBits : Number
  functions : Keyed Signature
  scopes : Scopes

structure Surroundings where
  signature : Option Signature := none
  inLoop : Bool := false

def Surroundings.looping (s : Surroundings) : Surroundings := { s with inLoop := true }

/-- What the name in a call stands for. -/
inductive Callee where
  | function (params : List Ty) (result : Option Ty)
  | conversion (target : Ty)
  | notCallable (type : Ty)
  | unknown

namespace Env

def withScopes (env : Env) (scopes : Scopes) : Env := { env with scopes }

def inside (env : Env) (scope : String) : Env := env.withScopes (env.scopes.push scope)

/-- The type of a variable, or the function type of a function. -/
def typeOfName? (env : Env) (name : String) : Option Ty :=
  match env.scopes.lookup? name with
  | some symbol => some symbol.type
  | none => (env.functions.find? name).map Signature.type

/-- What a call of a name calls: variables hide functions, and both hide types. -/
def calleeOf (env : Env) (name : String) : Callee :=
  match env.typeOfName? name with
  | some (.function params result) => .function params result
  | some t => .notCallable t
  | none =>
    match env.registry.lookup? name with
    | some t => .conversion t
    | none => .unknown

end Env

end TreeTyping
