/-
Interface satisfaction.

A type satisfies an interface when it exposes every member the interface requires, under the same
name, with the same kind and the same type.  There is no variance.  When it does not, the first
unmet requirement in the order of the interface is reported, with the member found in its place if
there is one.  Every type satisfies the interface that requires nothing, and an interface satisfies
itself.
-/
import TreeTyping.Registry.Members

namespace TreeTyping

/-- The first requirement a type does not meet, and the member found in its place. -/
structure MemberMismatch where
  required : Member
  found : Option Member
deriving DecidableEq, Repr

def MemberMismatch.reason (m : MemberMismatch) : String :=
  match m.found with
  | none => "is missing (requires " ++ m.required.describe ++ ")"
  | some found => "has " ++ found.describe ++ ", requires " ++ m.required.describe

namespace Registry

def Meets (found required : Member) :
    Prop := found.kind = required.kind ∧ found.type = required.type

instance (found required : Member) : Decidable (Meets found required) :=
  inferInstanceAs (Decidable (_ ∧ _))

/-- The first requirement a table of members does not meet. -/
def firstUnmet (members : Keyed Member) : Keyed Member → Option MemberMismatch
  | [] => none
  | (name, required) :: rest =>
    match members.find? name with
    | none => some ⟨required, none⟩
    | some found => if Meets found required then
        firstUnmet members rest else some ⟨required, some found⟩

/-- Whether a question about a type and an interface has its answer without looking at members. -/
def isTrivial (r : Registry) (concrete : Ty) (interface : Nominal) : Bool :=
  (r.required interface).isEmpty || concrete = .interface interface

/-- The first requirement of an interface a type does not meet. -/
def firstMismatch (r : Registry) (concrete : Ty) (interface : Nominal) :
    Except Failure (Option MemberMismatch) :=
  if r.isTrivial concrete interface then .ok none
  else do return firstUnmet (← r.membersOf concrete) (r.required interface)

def notSatisfied (concrete : Ty) (interface : Nominal) (m : MemberMismatch) : Cause :=
  .notSatisfied concrete.name interface.name m.required.name m.reason

end Registry

end TreeTyping
