/-
Tables of members.

A struct exposes its fields and its methods, an interface what it requires.  An alias exposes the
fields of the struct or the members of the interface it stands for, but only its own methods: it is
a type of its own.  Methods are declared on aliases and structs only, and never under a name that
the type exposes already.
-/
import TreeTyping.Registry.Underlying

namespace TreeTyping.Registry

def fieldMembers (fields : Keyed Ty) : Keyed Member := fields.map fun f => (f.1, ⟨f.1, .field, f.2⟩)

/-- The members a type exposes by its structure, without its methods. -/
def structuralMembers (r : Registry) (t : Ty) : Except Failure (Keyed Member) := do
  let resolved ← match t with
    | .alias _ => r.resolveUnderlying t .nowhere
    | t => pure t
  match resolved with
  | .interface n => return r.required n
  | .struct n => return fieldMembers (r.structFields n)
  | _ => return []

def methodsOf (r : Registry) (t : Ty) : Keyed Member :=
  (r.methods.filter fun m => m.receiver = t).map fun m => (m.member.name, m.member)

def membersOf (r : Registry) (t : Ty) : Except Failure (Keyed Member) :=
  match t with
  | .interface n => .ok (r.required n)
  | .alias _ | .struct _ => do
    let structural ← r.structuralMembers t
    return (r.methodsOf t).foldl (fun members m => members.insert m.1 m.2) structural
  | t => .ok (r.methodsOf t)

/-- Declares a method on an alias or struct that is registered under its name. -/
def addMethod (r : Registry) (receiver : Ty) (name : String) (signature : Ty) (span : Span) :
    Except Failure Registry := do
  r.mutable
  match receiver with
  | .alias _ | .struct _ =>
    if !r.containsType receiver then
      complain (.unknownType receiver.name) span
    if (← r.structuralMembers receiver).has name then
      complain (.duplicate ("member of " ++ Cause.tick receiver.name) name none) span
    match r.methods.find? fun m => m.receiver = receiver && m.member.name = name with
    | some previous =>
      complain (.duplicate ("method of " ++ Cause.tick receiver.name) name (some previous.span))
        span
    | none => return { r with
        methods := r.methods ++ [⟨receiver, ⟨name, .method, signature⟩, span⟩] }
  | receiver => complain (.methodReceiver receiver.name) span

/-- Declares a method on the type bound to a name. -/
def addMethodTo (r : Registry) (receiver name : String) (signature : Ty) (span : Span) :
    Except Failure Registry := do
  r.mutable
  r.addMethod (← r.resolve receiver span) name signature span

end TreeTyping.Registry
