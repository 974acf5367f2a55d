/-
Signatures of functions.

After the types of a module are registered, so are its functions, one after the other: the
annotations of parameters, result and receiver are resolved in this order.  A method goes to the
type of its receiver, any other function to the table of functions, under a name that has to be
free.  A function that is refused is reported and its body is never looked at.
-/
import TreeTyping.Fact.Basic
import TreeTyping.Registry.Registration
import TreeTyping.Symbols

namespace TreeTyping

/-- A function with its signature, whose body is to be checked. -/
structure Body where
  function : FunctionDef
  signature : Signature

/-- The functions registered so far. -/
structure Signatures where
  registry : Registry
  functions : Keyed Signature := []
  /-- The functions whose bodies are to be checked, in order. -/
  bodies : List Body := []
  found : List Diagnostic := []
  facts : List Fact := []

namespace Signatures

def paramTypes (r : Registry) (params : List Param) : Except Failure (List (String × Ty)) :=
  params.mapM fun p => do return (p.name, ← r.typeOf p.typeExpr)

def signatureOf (r : Registry) (f : FunctionDef) : Except Failure Signature := do
  let params ← paramTypes r f.params
  let result ← r.typeOf? f.returnType
  let receiver ← r.typeOf? (f.receiver.map Param.typeExpr)
  return ⟨f.name, params, result, receiver, f.origin.span⟩

def add (s : Signatures) (signature : Signature) : Except Failure Signatures :=
  match signature.receiver with
  | some receiver => do
    let registry ← s.registry.addMethod receiver signature.name signature.type signature.span
    let note := Note.methodRegistered receiver.name signature.name signature.type.name
    return { s with registry, facts := s.facts ++ [.noted note] }
  | none =>
    match s.functions.find? signature.name with
    | some previous => complain (.duplicate "function" signature.name (some previous.span))
        signature.span
    | none => .ok { s with functions := s.functions.insert signature.name signature }

/-- Registers a function, unless something is wrong with it. -/
def register (s : Signatures) (f : FunctionDef) : Except Failure Signatures := do
  let signature ← signatureOf s.registry f
  let s ← s.add signature
  return { s with
    bodies := s.bodies ++ [⟨f, signature⟩],
    facts := s.facts ++ [.noted (.functionRegistered signature.describe)] }

/-- Registers one entry of a module's functions, or reports what is wrong with it. -/
def step (s : Signatures) : Entry FunctionDef → Except Failure Signatures
  | .foreign f => .ok { s with found := s.found ++ [⟨.notAFunction f.kind, f.span⟩] }
  | .proper f =>
    match s.register f with
    | .ok s => .ok s
    | .error (.found d) => .ok { s with found := s.found ++ [d] }
    | .error e => .error e

def run (registry : Registry) (functions : List (Entry FunctionDef)) : Except Failure Signatures :=
  functions.foldlM step { registry }

end Signatures

end TreeTyping
