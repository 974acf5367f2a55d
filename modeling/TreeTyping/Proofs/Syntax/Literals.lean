/-
Literals where they stand.

A number may have a minus before it, and then it is the number with the minus that has to fit a
type.  So the places of a piece of syntax are listed once more, each with the literal that stands
there, if one does, and with whether a minus stands directly before it.  The places come in the same
order as in `places`, so where no place occurs twice a place tells which literal stands there.
-/
import Mathlib.Data.List.Nodup
import TreeTyping.Proofs.Syntax.Places

namespace TreeTyping

open List

/-- A literal where it stands. -/
structure SignedLiteral where
  value : Value
  kind : Option LiteralKind
  /-- A minus stands directly before it. -/
  negated : Bool

namespace SignedLiteral

/-- The value of a literal together with the minus before it. -/
def constant (l : SignedLiteral) : Value := if l.negated then Expr.negateValue l.value else l.value

/-- Whether the value of a literal goes with its kind. -/
def matchesKind (l : SignedLiteral) : Bool :=
  match l.kind, l.value with
  | some kind, .bool _ => kind == .bool
  | some kind, .int _ => kind == .int || kind == .float
  | some kind, .float _ => kind == .float
  | some kind, .text _ => kind == .string
  | _, _ => false

theorem matchesKind_int {l : SignedLiteral} (h : l.matchesKind = true)
    (hkind : l.kind = some .int) : ∃ n, l.value = .int n := by
  obtain ⟨value, kind, negated⟩ := l
  obtain rfl : kind = some .int := hkind
  cases value with
  | int n => exact ⟨n, rfl⟩
  | _ => cases h

end SignedLiteral

/-- A place, and the literal that stands there. -/
abbrev Spot := Place × Option SignedLiteral

namespace Expr

mutual

/-- The places of an expression and of all expressions in it, with the literals there. -/
def spots : Expr → List Spot
  | .literal o v kind => [(o.place, some ⟨v, kind, false⟩)]
  | .identifier o _ => [(o.place, none)]
  | .binary o left _ right => (o.place, none) :: (left.spots ++ right.spots)
  | .unary o op (.literal inner v kind) =>
    [(o.place, none), (inner.place, some ⟨v, kind, op == some .minus⟩)]
  | .unary o _ operand => (o.place, none) :: operand.spots
  | .call o callee args => (o.place, none) :: (callee.spots ++ spotsOfAll args)
  | .methodCall o object _ args => (o.place, none) :: (object.spots ++ spotsOfAll args)
  | .member o object _ => (o.place, none) :: object.spots
  | .index o object i => (o.place, none) :: (object.spots ++ i.spots)
  | .cast o _ operand => (o.place, none) :: operand.spots
  | .list o elements => (o.place, none) :: spotsOfAll elements
  | .map o entries => (o.place, none) :: spotsOfEntries entries
  | .set o elements => (o.place, none) :: spotsOfAll elements
  | .record o _ fields => (o.place, none) :: spotsOfFields fields
  | .foreign _ | .unreadable => []

def spotsOfAll : List Expr → List Spot
  | [] => []
  | e :: rest => e.spots ++ spotsOfAll rest

def spotsOfEntries : List (Expr × Expr) → List Spot
  | [] => []
  | (key, value) :: rest => key.spots ++ (value.spots ++ spotsOfEntries rest)

def spotsOfFields : List (String × Expr) → List Spot
  | [] => []
  | (_, value) :: rest => value.spots ++ spotsOfFields rest

end

def spotsOf? : Option Expr → List Spot
  | none => []
  | some e => e.spots

/-! ### The places are the same -/

/-- The places of the spots are the places of the expression. -/
def InPlace (e : Expr) : Prop := e.spots.map Prod.fst = e.places

theorem spotsOfAll_places {elements : List Expr} (h : ∀ e ∈ elements, InPlace e) :
    (spotsOfAll elements).map Prod.fst = placesOfAll elements := by
  induction elements with
  | nil => rfl
  | cons e rest ih =>
    obtain ⟨he, hrest⟩ := forall_mem_cons.1 h
    rw [spotsOfAll, placesOfAll, map_append, he, ih hrest]

theorem spotsOfEntries_places {entries : List (Expr × Expr)}
    (h : ∀ e ∈ entries, InPlace e.1 ∧ InPlace e.2) :
    (spotsOfEntries entries).map Prod.fst = placesOfEntries entries := by
  induction entries with
  | nil => rfl
  | cons e rest ih =>
    obtain ⟨⟨hk, hv⟩, hrest⟩ := forall_mem_cons.1 h
    rw [spotsOfEntries, placesOfEntries, map_append, map_append, hk, hv, ih hrest]

theorem spotsOfFields_places {fields : List (String × Expr)} (h : ∀ g ∈ fields, InPlace g.2) :
    (spotsOfFields fields).map Prod.fst = placesOfFields fields := by
  induction fields with
  | nil => rfl
  | cons g rest ih =>
    obtain ⟨hg, hrest⟩ := forall_mem_cons.1 h
    rw [spotsOfFields, placesOfFields, map_append, hg, ih hrest]

theorem spots_places (e : Expr) : e.spots.map Prod.fst = e.places := by
  induction e using Expr.byForm with
  | literal | identifier | foreign | unreadable => rfl
  | unary o op operand h =>
    cases operand with
    | literal => rfl
    | _ => exact congrArg (o.place :: ·) h
  | member o object name h | cast o target operand h => exact congrArg (o.place :: ·) h
  | binary o left op right hl hr => rw [spots, places, map_cons, map_append, hl, hr]
  | index o object i ho hi => rw [spots, places, map_cons, map_append, ho, hi]
  | call o callee args hc hargs | methodCall o object method args hc hargs =>
    rw [spots, places, map_cons, map_append, hc, spotsOfAll_places hargs]
  | list o elements h | set o elements h => exact congrArg (o.place :: ·) (spotsOfAll_places h)
  | map o entries h => exact congrArg (o.place :: ·) (spotsOfEntries_places h)
  | record o typeName fields h => exact congrArg (o.place :: ·) (spotsOfFields_places h)

theorem spotsOf?_places (e? : Option Expr) : (spotsOf? e?).map Prod.fst = placesOf? e? := by
  cases e? with
  | none => rfl
  | some e => exact e.spots_places

end Expr

namespace Stmt

mutual

/-- The places of a statement and of all that is in it, with the literals there. -/
def spots : Stmt → List Spot
  | .declare d => (d.origin.place, none) :: Expr.spotsOf? d.initializer
  | .assign _ target value => target.spots ++ value.spots
  | .expr _ e => e.spots
  | .ret _ value => Expr.spotsOf? value
  | .panic _ message => Expr.spotsOf? message
  | .cond _ c body more otherwise =>
    c.spots ++ (spotsOfAll body ++ (spotsOfBranches more ++ spotsOfBlock? otherwise))
  | .select _ subject arms otherwise =>
    subject.spots ++ (spotsOfCases arms ++ spotsOfBlock? otherwise)
  | .loop _ c body => c.spots ++ spotsOfAll body
  | .iterate o _ iterable body => (o.place, none) :: (iterable.spots ++ spotsOfAll body)
  | .block _ body => spotsOfAll body
  | .brk _ | .cont _ | .pass _ | .foreign _ | .unreadable => []

def spotsOfAll : List Stmt → List Spot
  | [] => []
  | s :: rest => s.spots ++ spotsOfAll rest

def spotsOfBlock? : Option (List Stmt) → List Spot
  | none => []
  | some body => spotsOfAll body

def spotsOfBranches : List Branch → List Spot
  | [] => []
  | .mk c body :: rest => c.spots ++ (spotsOfAll body ++ spotsOfBranches rest)

def spotsOfCases : List Case → List Spot
  | [] => []
  | .mk values body :: rest => Expr.spotsOfAll values ++ (spotsOfAll body ++ spotsOfCases rest)

end

/-- The places of the spots are the places of the statement. -/
def InPlace (s : Stmt) : Prop := s.spots.map Prod.fst = s.places

theorem spotsOfAll_places {body : List Stmt} (h : ∀ s ∈ body, InPlace s) :
    (spotsOfAll body).map Prod.fst = placesOfAll body := by
  induction body with
  | nil => rfl
  | cons s rest ih =>
    obtain ⟨hs, hrest⟩ := forall_mem_cons.1 h
    rw [spotsOfAll, placesOfAll, map_append, hs, ih hrest]

theorem spotsOfBlock?_places {otherwise : Option (List Stmt)}
    (h : ∀ body ∈ otherwise, ∀ s ∈ body, InPlace s) :
    (spotsOfBlock? otherwise).map Prod.fst = placesOfBlock? otherwise := by
  cases otherwise with
  | none => rfl
  | some body => exact spotsOfAll_places (h body rfl)

theorem spotsOfBranches_places {more : List Branch} (h : ∀ b ∈ more, ∀ s ∈ b.body, InPlace s) :
    (spotsOfBranches more).map Prod.fst = placesOfBranches more := by
  induction more with
  | nil => rfl
  | cons b rest ih =>
    obtain ⟨c, body⟩ := b
    obtain ⟨hb, hrest⟩ := forall_mem_cons.1 h
    have hbody : (spotsOfAll body).map Prod.fst = placesOfAll body := spotsOfAll_places hb
    rw [spotsOfBranches, placesOfBranches, map_append, map_append, c.spots_places, hbody, ih hrest]

theorem spotsOfCases_places {arms : List Case} (h : ∀ a ∈ arms, ∀ s ∈ a.body, InPlace s) :
    (spotsOfCases arms).map Prod.fst = placesOfCases arms := by
  induction arms with
  | nil => rfl
  | cons a rest ih =>
    obtain ⟨values, body⟩ := a
    obtain ⟨ha, hrest⟩ := forall_mem_cons.1 h
    have hbody : (spotsOfAll body).map Prod.fst = placesOfAll body := spotsOfAll_places ha
    rw [spotsOfCases, placesOfCases, map_append, map_append,
      Expr.spotsOfAll_places fun e _ => e.spots_places, hbody, ih hrest]

theorem spots_places (s : Stmt) : s.spots.map Prod.fst = s.places := by
  induction s using Stmt.byForm with
  | declare d => exact congrArg (d.origin.place :: ·) (Expr.spotsOf?_places d.initializer)
  | assign o target value => rw [spots, places, map_append, target.spots_places, value.spots_places]
  | expr o e => exact e.spots_places
  | ret o value => exact Expr.spotsOf?_places value
  | panic o message => exact Expr.spotsOf?_places message
  | brk | cont | pass | foreign | unreadable => rfl
  | cond o c body more otherwise hbody hmore hlast =>
    rw [spots, places, map_append, map_append, map_append, c.spots_places, spotsOfAll_places hbody,
      spotsOfBranches_places hmore, spotsOfBlock?_places hlast]
  | select o subject arms otherwise harms hlast =>
    rw [spots, places, map_append, map_append, subject.spots_places, spotsOfCases_places harms,
      spotsOfBlock?_places hlast]
  | loop o c body hbody => rw [spots, places, map_append, c.spots_places, spotsOfAll_places hbody]
  | iterate o name iterable body hbody =>
    rw [spots, places, map_cons, map_append, iterable.spots_places, spotsOfAll_places hbody]
  | block o body hbody => exact spotsOfAll_places hbody

end Stmt

/-! ### Modules -/

/-- The places of a function, with the literals there. -/
def FunctionDef.spots (f : FunctionDef) : List Spot :=
  f.params.map (fun p => (p.origin.place, none)) ++
    (Stmt.spotsOfAll f.body ++ f.receiver.toList.map fun p => (p.origin.place, none))

theorem FunctionDef.spots_places (f : FunctionDef) : f.spots.map Prod.fst = f.places := by
  rw [spots, places, map_append, map_append, map_map, map_map,
    Stmt.spotsOfAll_places fun s _ => s.spots_places]
  rfl

def VarDecl.spotsOfEntry : Entry VarDecl → List Spot
  | .proper d => (Stmt.declare d).spots
  | .foreign _ => []

def FunctionDef.spotsOfEntry : Entry FunctionDef → List Spot
  | .proper f => f.spots
  | .foreign _ => []

namespace Module

/-- The places of a module, with the literals there. -/
def spots (m : Module) : List Spot :=
  m.vars.flatMap VarDecl.spotsOfEntry ++ m.functions.flatMap FunctionDef.spotsOfEntry

/-- Whether the values of all literals go with their kinds. -/
def literalsMatch (m : Module) :
    Bool := m.spots.all fun spot => spot.2.all SignedLiteral.matchesKind

theorem spots_places (m : Module) : m.spots.map Prod.fst = m.places := by
  have hvar (entry : Entry VarDecl) :
      (VarDecl.spotsOfEntry entry).map Prod.fst = VarDecl.placesOfEntry entry := by
    cases entry with
    | proper d => exact (Stmt.declare d).spots_places
    | foreign f => rfl
  have hfunction (entry : Entry FunctionDef) :
      (FunctionDef.spotsOfEntry entry).map Prod.fst = FunctionDef.placesOfEntry entry := by
    cases entry with
    | foreign f => rfl
    | proper f => exact f.spots_places
  rw [spots, places, map_append, map_flatMap, map_flatMap]
  simp only [hvar, hfunction]

/-- Where no place occurs twice, a place tells which literal stands there. -/
theorem literal_unique {m : Module} (h : m.places.Nodup) {q : Place} {l l' : Option SignedLiteral}
    (hl : (q, l) ∈ m.spots) (hl' : (q, l') ∈ m.spots) : l = l' := by
  rw [← spots_places] at h
  exact congrArg Prod.snd (inj_on_of_nodup_map h hl hl' rfl)

end Module

end TreeTyping
