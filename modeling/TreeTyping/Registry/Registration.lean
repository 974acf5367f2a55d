/-
Registering type declarations.

Registration goes through the declarations of a module four times.  First every declaration gets an
identity and its name is bound, so declarations may mention each other in any order.  Then each is
linked: its annotations are resolved and become its definition.  Then the aliases are followed, and
those that stand for themselves are refused.  Last, what was refused is removed, and every
declaration that mentions a type no longer registered under its name is refused too, again and again
until nothing changes.

A refused declaration is reported once and never keeps the others from being registered.  One
failure is not caught: following an alias that leads to another one whose link failed ends
registration.
-/
import TreeTyping.Note
import TreeTyping.Registry.Members
import TreeTyping.Registry.Resolve

namespace TreeTyping

/-- A declaration whose name was bound, and the type it introduced. -/
structure Declared where
  decl : TypeDecl
  type : Ty
deriving Repr

structure Registration where
  registry : Registry
  found : List Diagnostic := []
  /-- The declarations whose names were bound, in order. -/
  declared : List Declared := []
  /-- The names of declarations that were refused after that. -/
  failed : List String := []
deriving Repr

namespace Registration

def report (s : Registration) (d : Diagnostic) : Registration := { s with found := s.found ++ [d] }

/-! ### Declaring -/

def shell : TypeDecl → Definition
  | .alias _ _ _ => .alias none
  | .struct _ _ _ => .struct []
  | .interface _ _ _ => .interface []

def nominal (id : Nat) : TypeDecl → Ty
  | .alias _ name _ => .alias ⟨id, name⟩
  | .struct _ name _ => .struct ⟨id, name⟩
  | .interface _ name _ => .interface ⟨id, name⟩

def declare (s : Registration) : Entry TypeDecl → Except Failure Registration
  | .foreign f => .ok (s.report ⟨.notATypeDeclaration f.kind, f.span⟩)
  | .proper decl =>
    let (id, registry) := s.registry.allocate (shell decl)
    let type := nominal id decl
    match registry.define decl.name type decl.span with
    | .ok registry => .ok { s with registry, declared := s.declared ++ [⟨decl, type⟩] }
    | .error (.found d) => .ok (s.report d)
    | .error f => .error f

/-! ### Linking -/

/-- The fields of a struct, up to the first that fails. -/
def linkFields (r : Registry) (struct : String) :
    (seen : Keyed Ty) → List Param → Keyed Ty × Option Failure
  | seen, [] => (seen, none)
  | seen, field :: rest =>
    if seen.has field.name then
      (seen, some (.of (.duplicate ("field of " ++ Cause.tick struct) field.name none)
        field.origin.span))
    else
      match r.typeOf field.typeExpr with
      | .ok t => linkFields r struct (seen.insert field.name t) rest
      | .error f => (seen, some f)

/-- A member an interface requires, after those seen already. -/
def linkMember (r : Registry) (interface : String) (seen : Keyed Member) :
    MemberDecl → Except Failure Member
  | .field span name typeExpr =>
    if seen.has name then complain (.duplicate ("member of " ++ Cause.tick interface) name none)
      span
    else do return ⟨name, .field, ← r.typeOf typeExpr⟩
  | .method span name params returnType =>
    if seen.has name then complain (.duplicate ("member of " ++ Cause.tick interface) name none)
      span
    else do return ⟨name, .method, ← r.functionType params returnType⟩
  | .foreign none _ => .error (.fault .missingPart)
  | .foreign (some name) f =>
    if seen.has name then complain (.duplicate ("member of " ++ Cause.tick interface) name none)
      f.span
    else complain (.notAnInterfaceMember f.kind) f.span

/-- The members of an interface, up to the first that fails. -/
def linkMembers (r : Registry) (interface : String) :
    (seen : Keyed Member) → List MemberDecl → Keyed Member × Option Failure
  | seen, [] => (seen, none)
  | seen, decl :: rest =>
    match linkMember r interface seen decl with
    | .ok m => linkMembers r interface (seen.insert m.name m) rest
    | .error f => (seen, some f)

/-- The definition of a declaration, filled as far as it goes, and what is wrong with it. -/
def definitionOf (r : Registry) : TypeDecl → Definition × Option Failure
  | .alias _ _ underlying =>
    match r.typeOf underlying with
    | .ok t => (.alias (some t), none)
    | .error f => (.alias none, some f)
  | .struct _ name fields =>
    let (fields, failure) := linkFields r name [] fields
    (.struct fields, failure)
  | .interface _ name members =>
    let (members, failure) := linkMembers r name [] members
    (.interface members, failure)

def idOf : Ty → Nat
  | .alias n | .struct n | .interface n => n.id
  | _ => 0

def link (s : Registration) (d : Declared) : Except Failure Registration :=
  let (definition, failure) := definitionOf s.registry d.decl
  let s := { s with registry := s.registry.setDefinition (idOf d.type) definition }
  match failure with
  | none => .ok s
  | some (.found diagnostic) => .ok { s.report diagnostic with failed := s.failed ++ [d.decl.name] }
  | some f => .error f

/-! ### Following aliases -/

def follow (s : Registration) (d : Declared) : Except Failure Registration :=
  if s.failed.contains d.decl.name || !d.type.isAlias then .ok s
  else
    match s.registry.resolveUnderlying d.type d.decl.span with
    | .ok _ => .ok s
    | .error f@(.found diagnostic) =>
      if diagnostic.kind? = some .cyclicAlias then
        .ok { s.report diagnostic with failed := s.failed ++ [d.decl.name] }
      else .error f
    | .error f => .error f

/-! ### Removing -/

/-- The nominal types a definition mentions, in order. -/
def mentioned : Definition → List Ty
  | .alias none => []
  | .alias (some t) => t.nominals
  | .struct fields => fields.flatMap fun f => f.2.nominals
  | .interface members => members.flatMap fun m => m.2.type.nominals

/-- The nominal types the definition of a type mentions. -/
def referenced (r : Registry) (t : Ty) : List Ty :=
  match t with
  | .alias n | .struct n | .interface n =>
    match r.definitions[n.id]? with
    | some d => mentioned d
    | none => []
  | _ => []

/-- The first type a declaration mentions that is not registered under its name. -/
def dangling? (r : Registry) (d : Declared) :
    Option Ty := (referenced r d.type).find? fun t => !r.containsType t

/-- Refuses a declaration that mentions a type no longer registered. -/
def sweepOne (s : Registration) (d : Declared) : Except Failure Registration :=
  if s.failed.contains d.decl.name then .ok s
  else
    match dangling? s.registry d with
    | none => .ok s
    | some t => do
      let registry ← s.registry.remove d.decl.name
      return { s.report ⟨.unknownType t.name, d.decl.span⟩ with
        registry, failed := s.failed ++ [d.decl.name] }

/--
Sweeps until nothing changes.

Every sweep but the last refuses a declaration, so one sweep more than there are declarations is
enough.
-/
def sweep : (fuel : Nat) → Registration → Except Failure Registration
  | 0, s => .ok s
  | fuel + 1, s => do
    let next ← s.declared.foldlM sweepOne s
    if next.failed.length = s.failed.length then return next else sweep fuel next

def removeFailed (s : Registration) : Except Failure Registration := do
  return { s with registry := ← s.failed.foldlM (fun r name => r.remove name) s.registry }

def linked (registry : Registry) (types : List (Entry TypeDecl)) : Except Failure Registration := do
  let s ← types.foldlM declare { registry }
  s.declared.foldlM link s

/-- Refuses the declarations that were linked and cannot be kept. -/
def settle (s : Registration) : Except Failure Registration := do
  let s ← s.declared.foldlM follow s
  let s ← s.removeFailed
  sweep (s.declared.length + 1) s

def run (registry : Registry) (types : List (Entry TypeDecl)) : Except Failure Registration := do
  let s ← linked registry types
  s.settle

def note (s : Registration) : Note :=
  .typesRegistered (s.declared.length - s.failed.length) s.failed.length

end Registration

end TreeTyping
