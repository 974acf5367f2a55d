/-
What every place asks for.

Where an expression stands decides which type is asked of it, if any.  An initializer is asked for
the type that its variable is declared with, an argument for the type of its parameter, an operand
for the type of the other operand.  What is asked of a composed literal is handed on to its
elements.  All this can be read off the text and the types that are recorded in the end.  So the
places of a piece of syntax are listed once more, each with the expression that stands there and the
type that is asked of it.  They come in the same order as in `places`, so where no place occurs
twice a place tells what is asked for there.

A name that is called has a type of its own if it is that of a function, and then the parameters
tell what the arguments are asked for.  Otherwise it is the name of a type, and the call is a
conversion.
-/
import Mathlib.Data.List.Nodup
import TreeTyping.Proofs.Syntax.Completeness
import TreeTyping.Proofs.Typing.OwnType

namespace TreeTyping

open List

/-- An expression, and the type that is asked of it where it stands. -/
structure Asked where
  expr : Expr
  expected : Option Ty

/-- A place, and what is asked for there; a place where a variable is declared asks for nothing. -/
abbrev Slot := Place × Option Asked

namespace Registry

variable (r : Registry)

/-- What a conversion asks of its operand: what the target stands for guides composed literals. -/
def askedByConversion (target : Option Ty) (operand : Expr) : Option Ty :=
  if operand.isComposedLiteral then target.bind fun t =>
    (r.resolveUnderlying t .nowhere).toOption else none

/-- What a call asks of its arguments, one by one. -/
def askedByCall (table : TypeTable) (callee : Expr) (args : List Expr) (i : Nat) : Option Ty :=
  match callee with
  | .identifier n name =>
    match table n.place with
    | some (.function params _) => params[i]?
    | _ => args[i]?.bind (r.askedByConversion (r.lookup? name))
  | _ => none

/-- What a method of a type asks of its arguments, one by one. -/
def askedByMethod (object : Option Ty) (method : String) (i : Nat) : Option Ty :=
  match (object.bind fun t => (r.membersOf t).toOption.bind (·.find? method)).map Member.type with
  | some (.function params _) => params[i]?
  | _ => none

/-- What is asked of the index into a value of a type: maps ask for a key. -/
def askedByIndex (object : Option Ty) : Option Ty :=
  ((object.bind fun t => (r.resolveUnderlying t .nowhere).toOption).bind Ty.mapEntry?).map Prod.fst

/-- The fields that a struct literal of the given name has to give. -/
def askedByStruct (typeName : String) : Keyed Ty :=
  match (r.lookup? typeName).bind fun t => (r.resolveUnderlying t .nowhere).toOption with
  | some (.struct n) => r.structFields n
  | _ => []

/-- The type that an annotation denotes, if there is one. -/
def annotated (typeExpr : Option TypeExpr) : Option Ty := (r.typeOf? typeExpr).toOption.join

end Registry

/-! ### Expressions -/

namespace Expr

/-- What an operator asks of its operand: a literal behind a sign is asked what both are. -/
def askedBySign (op : Option Operator) (expected : Option Ty) : Expr → Option Ty
  | .literal _ _ _ => if op.any Operator.isSign then expected else none
  | _ => none

mutual

/-- The places of an expression at a place that asks for the expected type. -/
def slots (r : Registry) (table : TypeTable) (expected : Option Ty) : Expr → List Slot
  | .literal o v kind => [(o.place, some ⟨.literal o v kind, expected⟩)]
  | .identifier o name => [(o.place, some ⟨.identifier o name, expected⟩)]
  | .binary o left op right =>
    -- the literal of the two operands is asked for the type of the other, otherwise the second for
    -- that of the first
    let first := left.isLiteral && !right.isLiteral
    (o.place, some ⟨.binary o left op right, expected⟩) ::
      (left.slots r table (if first then right.typeIn? table else none) ++
        right.slots r table (if first then none else left.typeIn? table))
  | .unary o op operand =>
    (o.place, some ⟨.unary o op operand, expected⟩) :: operand.slots r table
      (operand.askedBySign op expected)
  | .call o callee args =>
    (o.place, some ⟨.call o callee args, expected⟩) ::
      (callee.slots r table none ++ slotsOfAll r table (r.askedByCall table callee args) args)
  | .methodCall o object method args =>
    (o.place, some ⟨.methodCall o object method args, expected⟩) ::
      (object.slots r table none ++ slotsOfAll r table
        (r.askedByMethod (object.typeIn? table) method) args)
  | .member o object name => (o.place, some ⟨.member o object name, expected⟩) ::
      object.slots r table none
  | .index o object i =>
    (o.place, some ⟨.index o object i, expected⟩) ::
      (object.slots r table none ++ i.slots r table (r.askedByIndex (object.typeIn? table)))
  | .cast o target operand =>
    (o.place, some ⟨.cast o target operand, expected⟩) ::
      operand.slots r table (r.askedByConversion (r.typeOf target).toOption operand)
  | .list o elements =>
    (o.place, some ⟨.list o elements, expected⟩) ::
      slotsOfAll r table (fun _ => expected.bind Ty.listElement?) elements
  | .map o entries =>
    (o.place, some ⟨.map o entries, expected⟩) :: slotsOfEntries r table
      (expected.bind Ty.mapEntry?) entries
  | .set o elements =>
    (o.place, some ⟨.set o elements, expected⟩) ::
      slotsOfAll r table (fun _ => expected.bind Ty.setElement?) elements
  | .record o typeName fields =>
    (o.place, some ⟨.record o typeName fields, expected⟩) :: slotsOfFields r table
      (r.askedByStruct typeName) fields
  | .foreign _ | .unreadable => []

def slotsOfAll (r : Registry) (table : TypeTable) (asked : Nat → Option Ty) : List Expr → List Slot
  | [] => []
  | e :: rest => e.slots r table (asked 0) ++ slotsOfAll r table (fun i => asked (i + 1)) rest

def slotsOfEntries (r : Registry) (table : TypeTable) (entry : Option (Ty × Ty)) :
    List (Expr × Expr) → List Slot
  | [] => []
  | (key, value) :: rest =>
    key.slots r table (entry.map Prod.fst) ++
      (value.slots r table (entry.map Prod.snd) ++ slotsOfEntries r table entry rest)

def slotsOfFields (r : Registry) (table : TypeTable) (declared : Keyed Ty) :
    List (String × Expr) → List Slot
  | [] => []
  | (name, value) :: rest => value.slots r table (declared.find? name) ++ slotsOfFields r
      table declared rest

end

def slotsOf? (r : Registry) (table : TypeTable) (expected : Option Ty) : Option Expr → List Slot
  | none => []
  | some e => e.slots r table expected

variable {r : Registry} {table : TypeTable}

/-! ### The places are the same -/

/-- The places of the slots are the places of the expression, whatever is asked of it. -/
def InOrder (r : Registry) (table : TypeTable) (e : Expr) : Prop :=
  ∀ expected, (e.slots r table expected).map Prod.fst = e.places

theorem slotsOfAll_places {elements : List Expr} (h : ∀ e ∈ elements, InOrder r table e)
    (asked : Nat → Option Ty) :
    (slotsOfAll r table asked elements).map Prod.fst = placesOfAll elements := by
  induction elements generalizing asked with
  | nil => rfl
  | cons e rest ih =>
    obtain ⟨he, hrest⟩ := forall_mem_cons.1 h
    rw [slotsOfAll, placesOfAll, map_append, he, ih hrest]

theorem slotsOfEntries_places {entries : List (Expr × Expr)}
    (h : ∀ e ∈ entries, InOrder r table e.1 ∧ InOrder r table e.2) (entry : Option (Ty × Ty)) :
    (slotsOfEntries r table entry entries).map Prod.fst = placesOfEntries entries := by
  induction entries with
  | nil => rfl
  | cons e rest ih =>
    obtain ⟨⟨hk, hv⟩, hrest⟩ := forall_mem_cons.1 h
    rw [slotsOfEntries, placesOfEntries, map_append, map_append, hk, hv, ih hrest]

theorem slotsOfFields_places {fields : List (String × Expr)} (h : ∀ g ∈ fields, InOrder r table g.2)
    (declared : Keyed Ty) : (slotsOfFields r table declared fields).map Prod.fst = placesOfFields
      fields := by
  induction fields with
  | nil => rfl
  | cons g rest ih =>
    obtain ⟨hg, hrest⟩ := forall_mem_cons.1 h
    rw [slotsOfFields, placesOfFields, map_append, hg, ih hrest]

theorem slots_places (e : Expr) : InOrder r table e := by
  induction e using Expr.byForm with intro expected
  | literal | identifier | foreign | unreadable => rfl
  | unary o op operand h | member o object name h | cast o target operand h =>
    exact congrArg (o.place :: ·) (h _)
  | binary o left op right hl hr | index o left right hl hr =>
    rw [slots, places, map_cons, map_append, hl, hr]
  | call o callee args hc hargs | methodCall o object method args hc hargs =>
    rw [slots, places, map_cons, map_append, hc, slotsOfAll_places hargs]
  | list o elements h | set o elements h => exact congrArg (o.place :: ·) (slotsOfAll_places h _)
  | map o entries h => exact congrArg (o.place :: ·) (slotsOfEntries_places h _)
  | record o typeName fields h => exact congrArg (o.place :: ·) (slotsOfFields_places h _)

theorem slotsOf?_places (expected : Option Ty) (e? : Option Expr) :
    (slotsOf? r table expected e?).map Prod.fst = placesOf? e? := by
  cases e? with
  | none => rfl
  | some e => exact e.slots_places expected

/-! ### Every expression has a slot -/

/-- The slots of an expression are among the slots, for some type that is asked of it. -/
def Seated (r : Registry) (table : TypeTable) (slots : List Slot) (e : Expr) : Prop :=
  ∃ expected, e.slots r table expected ⊆ slots

theorem Seated.mono {slots more : List Slot} {e : Expr} (h : Seated r table slots e)
    (hsub : slots ⊆ more) : Seated r table more e := by
  obtain ⟨expected, h⟩ := h
  exact ⟨expected, List.Subset.trans h hsub⟩

theorem slotsOfAll_seats {elements : List Expr} (asked : Nat → Option Ty) :
    ∀ e ∈ elements, Seated r table (slotsOfAll r table asked elements) e := by
  induction elements generalizing asked with
  | nil => exact forall_mem_nil _
  | cons e rest ih =>
    refine forall_mem_cons.2 ⟨⟨asked 0, subset_append_left _ _⟩, fun c hc => ?_⟩
    exact (ih _ c hc).mono (subset_append_right _ _)

theorem slotsOfEntries_seats {entries : List (Expr × Expr)} (entry : Option (Ty × Ty)) :
    ∀ e ∈ entries, ∀ c ∈ [e.1, e.2], Seated r table (slotsOfEntries r table entry entries) c := by
  induction entries with
  | nil => exact forall_mem_nil _
  | cons e rest ih =>
    obtain ⟨key, value⟩ := e
    refine forall_mem_cons.2 ⟨?_, fun e he c hc => ?_⟩
    · refine forall_mem_cons.2 ⟨⟨_, subset_append_left _ _⟩, forall_mem_singleton.2 ?_⟩
      exact ⟨_, List.Subset.trans (subset_append_left _ _) (subset_append_right _ _)⟩
    · exact (ih e he c hc).mono
        (List.Subset.trans (subset_append_right _ _) (subset_append_right _ _))

theorem slotsOfFields_seats {fields : List (String × Expr)} (declared : Keyed Ty) :
    ∀ g ∈ fields, Seated r table (slotsOfFields r table declared fields) g.2 := by
  induction fields with
  | nil => exact forall_mem_nil _
  | cons g rest ih =>
    obtain ⟨name, value⟩ := g
    refine forall_mem_cons.2 ⟨⟨_, subset_append_left _ _⟩, fun g hg => ?_⟩
    exact (ih g hg).mono (subset_append_right _ _)

theorem slots_seats (e : Expr) (expected : Option Ty) :
    ∀ c ∈ e.children, Seated r table (e.slots r table expected) c := by
  cases e with
  | literal | identifier | foreign | unreadable => exact forall_mem_nil _
  | unary | member | cast => exact forall_mem_singleton.2 ⟨_, subset_cons_self _ _⟩
  | binary | index =>
    refine forall_mem_cons.2 ⟨?_, forall_mem_singleton.2 ?_⟩
    · exact ⟨_, List.Subset.trans (subset_append_left _ _) (subset_cons_self _ _)⟩
    · exact ⟨_, List.Subset.trans (subset_append_right _ _) (subset_cons_self _ _)⟩
  | call | methodCall =>
    refine forall_mem_cons.2 ⟨?_, fun c hc => ?_⟩
    · exact ⟨_, List.Subset.trans (subset_append_left _ _) (subset_cons_self _ _)⟩
    · exact (slotsOfAll_seats _ c hc).mono
        (List.Subset.trans (subset_append_right _ _) (subset_cons_self _ _))
  | list | set => exact fun c hc => (slotsOfAll_seats _ c hc).mono (subset_cons_self _ _)
  | map o entries =>
    intro c hc
    obtain ⟨e, he, hc⟩ := mem_flatMap.1 hc
    exact (slotsOfEntries_seats _ e he c hc).mono (subset_cons_self _ _)
  | record o typeName fields =>
    intro c hc
    obtain ⟨g, hg, rfl⟩ := mem_map.1 hc
    exact (slotsOfFields_seats _ g hg).mono (subset_cons_self _ _)

theorem mem_slots_of_origin {e : Expr} {o : Origin} (h : e.origin? = some o)
    (expected : Option Ty) : (o.place, some ⟨e, expected⟩) ∈ e.slots r table expected := by
  cases e with
  | foreign | unreadable => cases h
  | _ =>
    cases h
    exact mem_cons_self

theorem Occurs.seated {a e : Expr} (h : a.Occurs e) {slots : List Slot}
    (he : Seated r table slots e) : Seated r table slots a := by
  induction h with
  | self => exact he
  | inside hc _ ih =>
    obtain ⟨expected, hsub⟩ := he
    exact ih ((slots_seats _ expected _ hc).mono hsub)

end Expr

/-! ### Statements -/

namespace Stmt

mutual

/-- The places of a statement in a function with the given result. -/
def slots (r : Registry) (table : TypeTable) (result : Option Ty) : Stmt → List Slot
  | .declare d => (d.origin.place, none) :: Expr.slotsOf? r table (r.annotated d.typeExpr)
      d.initializer
  | .assign _ target value => target.slots r table none ++ value.slots r table
      (target.typeIn? table)
  | .expr _ e => e.slots r table none
  | .ret _ value => Expr.slotsOf? r table result value
  | .panic _ message => Expr.slotsOf? r table none message
  | .cond _ c body more otherwise =>
    c.slots r table none ++ (slotsOfAll r table result body ++
      (slotsOfBranches r table result more ++ slotsOfBlock? r table result otherwise))
  | .select _ subject arms otherwise =>
    subject.slots r table none ++ (slotsOfCases r table result (subject.typeIn? table) arms ++
      slotsOfBlock? r table result otherwise)
  | .loop _ c body => c.slots r table none ++ slotsOfAll r table result body
  | .iterate o _ iterable body =>
    (o.place, none) :: (iterable.slots r table none ++ slotsOfAll r table result body)
  | .block _ body => slotsOfAll r table result body
  | .brk _ | .cont _ | .pass _ | .foreign _ | .unreadable => []

def slotsOfAll (r : Registry) (table : TypeTable) (result : Option Ty) : List Stmt → List Slot
  | [] => []
  | s :: rest => s.slots r table result ++ slotsOfAll r table result rest

def slotsOfBlock? (r : Registry) (table : TypeTable) (result : Option Ty) :
    Option (List Stmt) → List Slot
  | none => []
  | some body => slotsOfAll r table result body

def slotsOfBranches (r : Registry) (table : TypeTable) (result : Option Ty) :
    List Branch → List Slot
  | [] => []
  | .mk c body :: rest =>
    c.slots r table none ++ (slotsOfAll r table result body ++ slotsOfBranches r table result rest)

/-- The places of the arms of a match; the values are asked for the type of the subject. -/
def slotsOfCases (r : Registry) (table : TypeTable) (result subject : Option Ty) :
    List Case → List Slot
  | [] => []
  | .mk values body :: rest =>
    Expr.slotsOfAll r table (fun _ => subject) values ++
      (slotsOfAll r table result body ++ slotsOfCases r table result subject rest)

end

variable {r : Registry} {table : TypeTable} {result : Option Ty}

/-- The places of the slots are the places of the statement. -/
def InOrder (r : Registry) (table : TypeTable) (result : Option Ty) (s : Stmt) : Prop :=
  (s.slots r table result).map Prod.fst = s.places

theorem slotsOfAll_places {body : List Stmt} (h : ∀ s ∈ body, InOrder r table result s) :
    (slotsOfAll r table result body).map Prod.fst = placesOfAll body := by
  induction body with
  | nil => rfl
  | cons s rest ih =>
    obtain ⟨hs, hrest⟩ := forall_mem_cons.1 h
    rw [slotsOfAll, placesOfAll, map_append, hs, ih hrest]

theorem slotsOfBlock?_places {otherwise : Option (List Stmt)}
    (h : ∀ body ∈ otherwise, ∀ s ∈ body, InOrder r table result s) :
    (slotsOfBlock? r table result otherwise).map Prod.fst = placesOfBlock? otherwise := by
  cases otherwise with
  | none => rfl
  | some body => exact slotsOfAll_places (h body rfl)

theorem slotsOfBranches_places {more : List Branch}
    (h : ∀ b ∈ more, ∀ s ∈ b.body, InOrder r table result s) :
    (slotsOfBranches r table result more).map Prod.fst = placesOfBranches more := by
  induction more with
  | nil => rfl
  | cons b rest ih =>
    obtain ⟨c, body⟩ := b
    obtain ⟨hb, hrest⟩ := forall_mem_cons.1 h
    have hbody : (slotsOfAll r table result body).map Prod.fst = placesOfAll body :=
      slotsOfAll_places hb
    rw [slotsOfBranches, placesOfBranches, map_append, map_append, c.slots_places, hbody, ih hrest]

theorem slotsOfCases_places {subject : Option Ty} {arms : List Case}
    (h : ∀ a ∈ arms, ∀ s ∈ a.body, InOrder r table result s) :
    (slotsOfCases r table result subject arms).map Prod.fst = placesOfCases arms := by
  induction arms with
  | nil => rfl
  | cons a rest ih =>
    obtain ⟨values, body⟩ := a
    obtain ⟨ha, hrest⟩ := forall_mem_cons.1 h
    have hbody : (slotsOfAll r table result body).map Prod.fst = placesOfAll body :=
      slotsOfAll_places ha
    rw [slotsOfCases, placesOfCases, map_append, map_append,
      Expr.slotsOfAll_places fun e _ => e.slots_places, hbody, ih hrest]

theorem slots_places (s : Stmt) : InOrder r table result s := by
  induction s using Stmt.byForm with rw [InOrder]
  | declare d => exact congrArg (d.origin.place :: ·) (Expr.slotsOf?_places _ d.initializer)
  | assign o target value => rw [slots, places, map_append, target.slots_places, value.slots_places]
  | expr o e => exact e.slots_places none
  | ret o value => exact Expr.slotsOf?_places result value
  | panic o message => exact Expr.slotsOf?_places none message
  | brk | cont | pass | foreign | unreadable => rfl
  | cond o c body more otherwise hbody hmore hlast =>
    rw [slots, places, map_append, map_append, map_append, c.slots_places, slotsOfAll_places hbody,
      slotsOfBranches_places hmore, slotsOfBlock?_places hlast]
  | select o subject arms otherwise harms hlast =>
    rw [slots, places, map_append, map_append, subject.slots_places, slotsOfCases_places harms,
      slotsOfBlock?_places hlast]
  | loop o c body hbody => rw [slots, places, map_append, c.slots_places, slotsOfAll_places hbody]
  | iterate o name iterable body hbody =>
    rw [slots, places, map_cons, map_append, iterable.slots_places, slotsOfAll_places hbody]
  | block o body hbody => exact slotsOfAll_places hbody

/-! ### Every expression of a statement has a slot -/

theorem slotsOfAll_sub {body : List Stmt} {s : Stmt} (h : s ∈ body) :
    s.slots r table result ⊆ slotsOfAll r table result body := by
  induction body with
  | nil => cases h
  | cons first rest ih =>
    rcases mem_cons.1 h with rfl | h
    · exact subset_append_left _ _
    · exact List.Subset.trans (ih h) (subset_append_right _ _)

theorem slotsOfBranches_sub {more : List Branch} : ∀ b ∈ more,
    b.condition.slots r table none ⊆ slotsOfBranches r table result more ∧
      slotsOfAll r table result b.body ⊆ slotsOfBranches r table result more := by
  induction more with
  | nil => exact forall_mem_nil _
  | cons b rest ih =>
    obtain ⟨c, body⟩ := b
    refine forall_mem_cons.2 ⟨⟨subset_append_left _ _, ?_⟩, fun b hb => ?_⟩
    · exact List.Subset.trans (subset_append_left _ _) (subset_append_right _ _)
    · have hrest : slotsOfBranches r table result rest ⊆ slotsOfBranches r table result
          (.mk c body :: rest) :=
        List.Subset.trans (subset_append_right _ _) (subset_append_right _ _)
      exact ⟨List.Subset.trans (ih b hb).1 hrest, List.Subset.trans (ih b hb).2 hrest⟩

theorem slotsOfCases_sub {subject : Option Ty} {arms : List Case} : ∀ a ∈ arms,
    (∀ e ∈ a.values, e.Seated r table (slotsOfCases r table result subject arms)) ∧
      slotsOfAll r table result a.body ⊆ slotsOfCases r table result subject arms := by
  induction arms with
  | nil => exact forall_mem_nil _
  | cons a rest ih =>
    obtain ⟨values, body⟩ := a
    refine forall_mem_cons.2 ⟨⟨fun e he => ?_, ?_⟩, fun a ha => ?_⟩
    · exact (Expr.slotsOfAll_seats _ e he).mono (subset_append_left _ _)
    · exact List.Subset.trans (subset_append_left _ _) (subset_append_right _ _)
    · have hrest : slotsOfCases r table result subject rest ⊆
          slotsOfCases r table result subject (.mk values body :: rest) :=
        List.Subset.trans (subset_append_right _ _) (subset_append_right _ _)
      exact ⟨fun e he => ((ih a ha).1 e he).mono hrest, List.Subset.trans (ih a ha).2 hrest⟩

/-- The slots of the expressions that a statement holds itself are among its slots. -/
theorem slots_seats {s : Stmt} : ∀ e ∈ s.exprs, e.Seated r table (s.slots r table result) := by
  intro e he
  cases s with
  | declare d =>
    obtain hd := Option.mem_toList.1 he
    refine ⟨r.annotated d.typeExpr, List.Subset.trans ?_ (subset_cons_self _ _)⟩
    rw [hd]
    exact List.Subset.refl _
  | assign o target value =>
    rcases mem_cons.1 he with rfl | he
    · exact ⟨_, subset_append_left _ _⟩
    · obtain rfl := mem_singleton.1 he
      exact ⟨_, subset_append_right _ _⟩
  | expr o e' =>
    obtain rfl := mem_singleton.1 he
    exact ⟨_, List.Subset.refl _⟩
  | ret o value =>
    obtain rfl := Option.mem_toList.1 he
    exact ⟨_, List.Subset.refl _⟩
  | panic o message =>
    obtain rfl := Option.mem_toList.1 he
    exact ⟨_, List.Subset.refl _⟩
  | cond o c body more otherwise =>
    rcases mem_cons.1 he with rfl | he
    · exact ⟨_, subset_append_left _ _⟩
    · obtain ⟨b, hb, rfl⟩ := mem_map.1 he
      exact ⟨_, List.Subset.trans (slotsOfBranches_sub b hb).1
        (List.Subset.trans (subset_append_left _ _)
        (List.Subset.trans (subset_append_right _ _) (subset_append_right _ _)))⟩
  | select o subject arms otherwise =>
    rcases mem_cons.1 he with rfl | he
    · exact ⟨_, subset_append_left _ _⟩
    · obtain ⟨a, ha, he⟩ := mem_flatMap.1 he
      exact ((slotsOfCases_sub a ha).1 e he).mono
        (List.Subset.trans (subset_append_left _ _) (subset_append_right _ _))
  | loop o c body =>
    obtain rfl := mem_singleton.1 he
    exact ⟨_, subset_append_left _ _⟩
  | iterate o name iterable body =>
    obtain rfl := mem_singleton.1 he
    exact ⟨_, List.Subset.trans (subset_append_left _ _) (subset_cons_self _ _)⟩
  | brk | cont | pass | block | foreign | unreadable => cases he

theorem slots_blocks {s : Stmt} {l : Bool} {body : List Stmt} (h : (l, body) ∈ s.blocks) :
    slotsOfAll r table result body ⊆ s.slots r table result := by
  cases s with
  | cond o c first more otherwise =>
    rcases (mem_blocks_cond.1 h).2 with rfl | ⟨b, hb, rfl⟩ | rfl
    · exact List.Subset.trans (subset_append_left _ _) (subset_append_right _ _)
    · exact List.Subset.trans (slotsOfBranches_sub b hb).2
        (List.Subset.trans (subset_append_left _ _)
        (List.Subset.trans (subset_append_right _ _) (subset_append_right _ _)))
    · exact List.Subset.trans (subset_append_right _ _)
        (List.Subset.trans (subset_append_right _ _) (subset_append_right _ _))
  | select o subject arms otherwise =>
    rcases (mem_blocks_select.1 h).2 with ⟨a, ha, rfl⟩ | rfl
    · exact List.Subset.trans (slotsOfCases_sub a ha).2
        (List.Subset.trans (subset_append_left _ _) (subset_append_right _ _))
    · exact List.Subset.trans (subset_append_right _ _) (subset_append_right _ _)
  | loop o c first =>
    obtain ⟨-, rfl⟩ := Prod.mk.inj (mem_singleton.1 h)
    exact subset_append_right _ _
  | iterate o name iterable first =>
    obtain ⟨-, rfl⟩ := Prod.mk.inj (mem_singleton.1 h)
    exact List.Subset.trans (subset_append_right _ _) (subset_cons_self _ _)
  | block o first =>
    obtain ⟨-, rfl⟩ := Prod.mk.inj (mem_singleton.1 h)
    exact List.Subset.refl _
  | _ => cases h

theorem Occurs.slots {l : Bool} {a s : Stmt} (h : Occurs l a s) :
    a.slots r table result ⊆ s.slots r table result := by
  induction h with
  | self s => exact List.Subset.refl _
  | inside hb hs _ ih =>
    exact List.Subset.trans ih (List.Subset.trans (slotsOfAll_sub hs) (slots_blocks hb))

end Stmt

/-! ### Modules -/

/-- The places of a function. -/
def FunctionDef.slots (r : Registry) (table : TypeTable) (f : FunctionDef) : List Slot :=
  f.params.map (fun p => (p.origin.place, none)) ++
    (Stmt.slotsOfAll r table (r.annotated f.returnType) f.body ++
      f.receiver.toList.map fun p => (p.origin.place, none))

def VarDecl.slotsOfEntry (r : Registry) (table : TypeTable) : Entry VarDecl → List Slot
  | .proper d => (Stmt.declare d).slots r table none
  | .foreign _ => []

def FunctionDef.slotsOfEntry (r : Registry) (table : TypeTable) : Entry FunctionDef → List Slot
  | .proper f => f.slots r table
  | .foreign _ => []

namespace Module

/-- The places of a module. -/
def slots (r : Registry) (table : TypeTable) (m : Module) : List Slot :=
  m.vars.flatMap (VarDecl.slotsOfEntry r table) ++ m.functions.flatMap
    (FunctionDef.slotsOfEntry r table)

variable {r : Registry} {table : TypeTable}

theorem slots_places (m : Module) : (m.slots r table).map Prod.fst = m.places := by
  have hvar (entry : Entry VarDecl) :
      (VarDecl.slotsOfEntry r table entry).map Prod.fst = VarDecl.placesOfEntry entry := by
    cases entry with
    | proper d =>
      show ((Stmt.declare d).slots r table none).map Prod.fst = _
      exact (Stmt.declare d).slots_places
    | foreign f => rfl
  have hfunction (entry : Entry FunctionDef) :
      (FunctionDef.slotsOfEntry r table entry).map Prod.fst = FunctionDef.placesOfEntry entry := by
    cases entry with
    | foreign f => rfl
    | proper f =>
      show (f.slots r table).map Prod.fst = f.places
      rw [FunctionDef.slots, FunctionDef.places, map_append, map_append, map_map, map_map,
        Stmt.slotsOfAll_places fun s _ => s.slots_places]
      rfl
  rw [slots, places, map_append, map_flatMap, map_flatMap]
  simp only [hvar, hfunction]

/-- Where no place occurs twice, a place tells what is asked for there. -/
theorem slot_unique {m : Module} (h : m.places.Nodup) {q : Place} {a a' : Option Asked}
    (ha : (q, a) ∈ m.slots r table) (ha' : (q, a') ∈ m.slots r table) : a = a' := by
  rw [← @Module.slots_places r table m] at h
  exact congrArg Prod.snd (inj_on_of_nodup_map h ha ha' rfl)

theorem slots_of_variable {m : Module} {d : VarDecl} (h : .proper d ∈ m.vars) :
    (Stmt.declare d).slots r table none ⊆ m.slots r table :=
  fun _ hslot => mem_append_left _ (mem_flatMap.2 ⟨_, h, hslot⟩)

theorem slots_of_function {m : Module} {f : FunctionDef} (h : .proper f ∈ m.functions) :
    f.slots r table ⊆ m.slots r table :=
  fun _ hslot => mem_append_right _ (mem_flatMap.2 ⟨_, h, hslot⟩)

/-- **Something is asked of every expression that a module mentions.** -/
theorem Mentions.asked {m : Module} {a : Expr} {o : Origin} (h : m.Mentions a)
    (ho : a.origin? = some o) : ∃ expected, (o.place, some ⟨a, expected⟩) ∈ m.slots r table := by
  have hseated : a.Seated r table (m.slots r table) := by
    cases h with
    | @initializer d e hd he ha =>
      have hinit : e ∈ (Stmt.declare d).exprs := Option.mem_toList.2 he
      exact ha.seated ((Stmt.slots_seats e hinit).mono (slots_of_variable hd))
    | @body f l s e hf hs he ha =>
      obtain ⟨b, hb, hs⟩ := hs
      have hbody : Stmt.slotsOfAll r table (r.annotated f.returnType) f.body ⊆ f.slots r table :=
        List.Subset.trans (subset_append_left _ _) (subset_append_right _ _)
      have hb : b.slots r table (r.annotated f.returnType) ⊆ m.slots r table :=
        List.Subset.trans (Stmt.slotsOfAll_sub hb) (List.Subset.trans hbody (slots_of_function hf))
      exact ha.seated ((Stmt.slots_seats e he).mono (List.Subset.trans hs.slots hb))
  obtain ⟨expected, hsub⟩ := hseated
  exact ⟨expected, hsub (Expr.mem_slots_of_origin ho expected)⟩

end Module

end TreeTyping
