/-
The registry of named types.

The registry binds names to types, keeps what every nominal type stands for, and the methods that
were declared on aliases and structs.  A definition belongs to the identity of a type and not to a
name, so a type whose name was taken back keeps its definition, and types that mention it can still
be looked at.  Once frozen, the registry refuses every change.

A change returns a new registry or a failure.  That a failed change leaves nothing behind where the
tables are written in place is shown with `Registry.Tables`.
-/
import TreeTyping.Failure
import TreeTyping.Keyed
import TreeTyping.Ty.Basic

namespace TreeTyping

inductive MemberKind where
  | field | method
deriving DecidableEq, Repr

/-- A field or method in a table of members; the type of a method is a function type. -/
structure Member where
  name : String
  kind : MemberKind
  type : Ty
deriving DecidableEq, Repr

def Member.describe (m : Member) : String :=
  (match m.kind with
    | .method => "method "
    | .field => "field ") ++ m.name ++ ": " ++ m.type.name

inductive Definition where
  /-- An alias; what it stands for is missing until it has been linked. -/
  | alias (underlying : Option Ty)
  /-- A struct with its fields in order. -/
  | struct (fields : Keyed Ty)
  /-- An interface with what it requires, in order. -/
  | interface (members : Keyed Member)
deriving Repr

/-- A name bound to a type, and where that was done; built-in types have no such place. -/
structure TypeBinding where
  name : String
  type : Ty
  span? : Option Span
deriving Repr

/-- A method of a type, and where it was declared. -/
structure MethodEntry where
  receiver : Ty
  member : Member
  span : Span
deriving Repr

structure Registry where
  bindings : List TypeBinding := Ty.builtins.map fun b => ⟨b.1, b.2, none⟩
  methods : List MethodEntry := []
  /-- Definitions by identity; the first is that of the interface that requires nothing. -/
  definitions : List Definition := [.interface []]
  frozen : Bool := false
deriving Repr

namespace Registry

/-! ### Looking up -/

def binding? (r : Registry) (name : String) : Option TypeBinding :=
  r.bindings.find? fun b => b.name = name

def lookup? (r : Registry) (name : String) : Option Ty := (r.binding? name).map TypeBinding.type

/-- The type bound to a name, which has to be there. -/
def resolve (r : Registry) (name : String) (span : Span) : Except Failure Ty :=
  match r.lookup? name with
  | some t => .ok t
  | none => complain (.unknownType name) span

def definitionSpan? (r : Registry) (name : String) :
    Option Span := (r.binding? name).bind TypeBinding.span?

/-- Whether a type is the one bound to its own name. -/
def containsType (r : Registry) (t : Ty) : Bool := r.lookup? t.name = some t

def names (r : Registry) : List String := r.bindings.map TypeBinding.name

/-- The types under names that are not those of built-in types. -/
def userTypes (r : Registry) : List Ty :=
  (r.bindings.filter fun b => !Ty.isBuiltinName b.name).map TypeBinding.type

/-- What an alias stands for; nothing when it has not been linked. -/
def underlying? (r : Registry) (n : Nominal) : Option Ty :=
  match r.definitions[n.id]? with
  | some (.alias underlying) => underlying
  | _ => none

def structFields (r : Registry) (n : Nominal) : Keyed Ty :=
  match r.definitions[n.id]? with
  | some (.struct fields) => fields
  | _ => []

def required (r : Registry) (n : Nominal) : Keyed Member :=
  match r.definitions[n.id]? with
  | some (.interface members) => members
  | _ => []

/-! ### Changing -/

/-- The registry, unless it is frozen. -/
def mutable (r : Registry) : Except Failure Unit :=
  if r.frozen then .error (.fault .frozenRegistry) else .ok ()

def allocate (r : Registry) (d : Definition) : Nat × Registry :=
  (r.definitions.length, { r with definitions := r.definitions ++ [d] })

def setDefinition (r : Registry) (id : Nat) (d : Definition) : Registry :=
  { r with definitions := r.definitions.set id d }

def define (r : Registry) (name : String) (t : Ty) (span : Span) : Except Failure Registry := do
  r.mutable
  match r.binding? name with
  | some previous => complain (.duplicate "type" name previous.span?) span
  | none => return { r with bindings := r.bindings ++ [⟨name, t, some span⟩] }

/-- Takes a name back, and the methods of the type it was bound to. -/
def remove (r : Registry) (name : String) : Except Failure Registry := do
  r.mutable
  let methods := match r.lookup? name with
    | some t => r.methods.filter fun m => m.receiver ≠ t
    | none => r.methods
  return { r with bindings := r.bindings.filter (fun b => b.name ≠ name), methods }

def freeze (r : Registry) : Registry := { r with frozen := true }

end Registry

end TreeTyping
