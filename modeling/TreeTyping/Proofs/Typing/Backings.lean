/-
Backings of literals where they stand.

The backing of a composed literal is put together from three sides: from the types of its elements,
from what is asked for at its place, and for a list from the sizes and constants of its elements.
That these agree is said here of every backing in a log, with the slots of the syntax for what is
asked and a table of types for what the elements have.

The table has to hold the types in the log, and at the places of the syntax it may have no others:
that a name is the name of a type, and its call a conversion, shows in the table only by what is not
there.  So what a log says is followed together with the places it is about, from the expressions to
the statements and functions.
-/
import TreeTyping.Proofs.Composed.Endless
import TreeTyping.Proofs.Typing.Coverage
import TreeTyping.Proofs.Typing.Slots
import TreeTyping.Proofs.Typing.Soundness
import TreeTyping.Proofs.Typing.Writes

namespace TreeTyping

open List

/-! ### What is right about a backing -/

/-- The type that a table has for an expression can be stored under the given type. -/
def Expr.StoredUnder (r : Registry) (table : TypeTable) (t : Ty) (e : Expr) : Prop :=
  ∃ s, e.typeIn? table = some s ∧ r.Assignable t s

/-- A layout has the elements of a list literal in turn, behind a word for their number. -/
structure Layout.Describes (r : Registry) (word : Int) (elements : List Expr) (l : Layout) :
    Prop where
  length : l.length = elements.length
  constants : l.elements = elements.map Expr.constant
  bytes : ∃ size, r.size (.int word) l.elementType = .ok (.int size) ∧
    l.totalBytes? = some (.int (word / 8 + elements.length * size))

/-- The elements of a composed literal go with the types of a backing. -/
inductive Expr.FitsIn (r : Registry) (word : Int) (table : TypeTable) (b : Backing) : Expr → Prop
  /-- An array of fixed length has as many elements as the literal. -/
  | list {o : Origin} {elements : List Expr} {element : Ty} {length : Option Int} {layout : Layout}
      (hconcrete : b.concrete = .array element length)
      (hlength : ∀ n, length = some n → n = elements.length)
      (hstored : ∀ e ∈ elements, e.StoredUnder r table element) (hlayout : b.layout = some layout)
      (htype : layout.elementType = element) (hdescribes : layout.Describes r word elements) :
      FitsIn r word table b (.list o elements)
  | map {o : Origin} {entries : List (Expr × Expr)} {key value : Ty}
      (hconcrete : b.concrete = .hashMap key value)
      (hkeys : ∀ e ∈ entries.map Prod.fst, e.StoredUnder r table key)
      (hvalues : ∀ e ∈ entries.map Prod.snd, e.StoredUnder r table value) :
      FitsIn r word table b (.map o entries)
  | set {o : Origin} {elements : List Expr} {element : Ty}
      (hconcrete : b.concrete = .hashSet element)
      (hstored : ∀ e ∈ elements, e.StoredUnder r table element) :
      FitsIn r word table b (.set o elements)

/--
A backing is right for a composed literal where it stands: its elements go with it, and the type of
the literal is what is asked for if that is of its kind, and otherwise the abstract type of the
backing.
-/
structure Asked.BackedBy (r : Registry) (word : Int) (table : TypeTable) (b : Backing) (a : Asked) :
    Prop where
  fits : a.expr.FitsIn r word table b
  type : a.expr.typeIn? table = some ((a.expected.filter a.expr.composesAs).getD b.abstract)

/-- A backing among the facts implements its abstract type, and is right for its literal. -/
def Fact.Supported (r : Registry) (word : Int) (table : TypeTable) (slots : List Slot) : Fact → Prop
  | .backed o b => b.concrete.abstract? = some b.abstract ∧
      ∃ a?, (o.place, a?) ∈ slots ∧ ∀ a ∈ a?, a.BackedBy r word table b
  | _ => True

theorem Fact.supported_of_remark {r : Registry} {word : Int} {table : TypeTable} {slots : List Slot}
    {fact : Fact} (h : fact.isRemark = true) : fact.Supported r word table slots := by
  cases fact with
  | asked | noted => trivial
  | _ => cases h

theorem Fact.Supported.mono {r : Registry} {word : Int} {table : TypeTable} {slots more : List Slot}
    {fact : Fact}
    (h : fact.Supported r word table slots) (hsub : slots ⊆ more) :
    fact.Supported r word table more := by
  cases fact with
  | backed o b =>
    obtain ⟨himplements, a?, ha, hright⟩ := h
    exact ⟨himplements, a?, hsub ha, hright⟩
  | _ => trivial

theorem Registry.size_whole {r : Registry} {word : Int} {t : Ty} {n : Number}
    (h : r.size (.int word) t = .ok n) : ∃ size, n = .int size := by
  have hsafe : Safe r.Unending (r.size (.int word) t) fun size => ∃ n, size = .int n :=
    size_safe word t
  rw [h] at hsafe
  exact hsafe

theorem Backing.ofType?_implements {t : Ty} {b : Backing} (h : Backing.ofType? t = some b) :
    b.concrete.abstract? = some b.abstract := by
  cases t <;> cases h <;> rfl

theorem HasType.typeIn? {env : Env} {table : TypeTable} {e : Expr} {t : Ty}
    (h : HasType env table e t) : e.typeIn? table = some t := by
  obtain ⟨o, ho, ht⟩ := h.recorded
  rw [Expr.typeIn?, ho]
  exact ht

theorem HaveTypes.storedUnder {env : Env} {table : TypeTable} {t : Ty} :
    ∀ {es : List Expr} {types : List Ty},
    HaveTypes env table es types → (∀ s ∈ types, env.registry.Assignable t s) →
      ∀ e ∈ es, e.StoredUnder env.registry table t
  | _, _, .nil, _ => forall_mem_nil _
  | _, _, .cons he hrest, h => by
      obtain ⟨ht, hothers⟩ := forall_mem_cons.1 h
      exact forall_mem_cons.2 ⟨⟨_, he.typeIn?, ht⟩, hrest.storedUnder hothers⟩

/-! ### Logs and places -/

/--
Facts about a piece of syntax with the given slots.  Where a table holds them, types are recorded
for the places of the slots only; where it has no other types there, every backing among the facts
is right.
-/
def Vouched (r : Registry) (word : Int) (table : TypeTable) (facts : List Fact)
    (slots : List Slot) : Prop :=
  table.Holds facts → Fact.Within (slots.map Prod.fst) facts ∧
    ((slots.map Prod.fst).Nodup → AgreesOn table facts (slots.map Prod.fst) →
      ∀ fact ∈ facts, fact.Supported r word table slots)

namespace Vouched

variable {r : Registry} {word : Int} {table : TypeTable} {slots others : List Slot}
  {facts more : List Fact}

theorem remarks (h : ∀ fact ∈ facts, fact.isRemark = true) : Vouched r word table facts slots := by
  intro _
  refine ⟨fun q hq => ?_, fun _ _ fact hfact => Fact.supported_of_remark (h fact hfact)⟩
  rw [Fact.recorded_of_remarks h] at hq
  cases hq

theorem nothing : Vouched r word table [] slots := .remarks (forall_mem_nil _)

theorem mono (h : Vouched r word table facts slots) (hsub : slots ⊆ others)
    (hnodup : (others.map Prod.fst).Nodup → (slots.map Prod.fst).Nodup) :
    Vouched r word table facts others := by
  intro hholds
  obtain ⟨hwithin, hright⟩ := h hholds
  have hplaces : slots.map Prod.fst ⊆ others.map Prod.fst := map_subset _ hsub
  refine ⟨fun q hq => hplaces (hwithin q hq), fun hdistinct hagrees fact hfact => ?_⟩
  exact (hright (hnodup hdistinct) (fun q hq => hagrees q (hplaces hq)) fact hfact).mono hsub

/-- A piece of syntax may have more slots than facts are about. -/
theorem sublist (h : Vouched r word table facts slots) (hsub : slots.Sublist others) :
    Vouched r word table facts others :=
  h.mono hsub.subset fun hnodup => hnodup.sublist (hsub.map _)

theorem perm (h : Vouched r word table facts slots) (hperm : slots.Perm others) :
    Vouched r word table facts others :=
  h.mono hperm.subset (hperm.map _).nodup_iff.2

/-- Facts about one piece of syntax, and then facts about another that may rely on them. -/
theorem append (h : Vouched r word table facts slots)
    (h' : table.Holds facts → Vouched r word table more others) :
    Vouched r word table (facts ++ more) (slots ++ others) := by
  intro hholds
  have hfirst := hholds.mono (subset_append_left facts more)
  obtain ⟨hwithin, hright⟩ := h hfirst
  obtain ⟨hwithin', hright'⟩ := h' hfirst (hholds.mono (subset_append_right facts more))
  rw [map_append]
  refine ⟨fun q hq => ?_, fun hnodup hagrees => ?_⟩
  · rw [Fact.recorded_append] at hq
    exact mem_append.2 ((mem_append.1 hq).imp (hwithin q) (hwithin' q))
  · obtain ⟨hslots, hothers, -⟩ := nodup_append'.1 hnodup
    obtain ⟨hfacts, hmore⟩ := hagrees.append hwithin hwithin' hnodup
    refine forall_mem_append.2 ⟨fun fact hfact => ?_, fun fact hfact => ?_⟩
    · exact (hright hslots hfacts fact hfact).mono (subset_append_left _ _)
    · exact (hright' hothers hmore fact hfact).mono (subset_append_right _ _)

/-- A place that no fact is about has no type in the table. -/
theorem unseen {slot : Slot} (hwithin : Fact.Within (slots.map Prod.fst) facts)
    (h : table slot.1 = none → Vouched r word table facts slots) :
    Vouched r word table facts (slot :: slots) := by
  intro hholds
  refine ⟨fun p hp => mem_cons_of_mem _ (hwithin p hp), fun hnodup hagrees fact hfact => ?_⟩
  obtain ⟨hslot, hslots⟩ := nodup_cons.1 hnodup
  have hnone : table slot.1 = none := by
    rw [hagrees _ mem_cons_self]
    exact Fact.typeAt?_eq_none fun hmem => hslot (hwithin _ hmem)
  exact ((h hnone hholds).2 hslots (fun p hp => hagrees p (mem_cons_of_mem _ hp)) fact hfact).mono
    (subset_cons_self _ _)

/-- Two parts may come in the other order. -/
theorem swap {first second : List Slot}
    (h : Vouched r word table facts (second ++ (first ++ slots))) :
    Vouched r word table facts (first ++ (second ++ slots)) := by
  rw [← append_assoc] at h ⊢
  exact h.perm (perm_append_comm.append_right _)

/-- The place of a node may come after those of its parts. -/
theorem parts_first {slot : Slot} (h : Vouched r word table facts (slots ++ [slot])) :
    Vouched r word table facts (slot :: slots) :=
  h.perm (perm_append_singleton _ _)

section Steps

open Inference

variable {α β : Type} {x : Inference α} {f : α → Inference β} {Q : α → Prop}

/-- One inference after another, with what the first has concluded. -/
theorem bind (hx : Vouched r word table x.log slots) (hQ : Ensures table x Q)
    (hf : ∀ a, Q a → Vouched r word table (f a).log others) :
    Vouched r word table (x >>= f).log (slots ++ others) := by
  rcases hresult : x.result with e | a
  · rw [log_bind_of_error hresult]
    exact hx.sublist (sublist_append_left _ _)
  · rw [log_bind_of_ok hresult]
    exact hx.append fun hholds => hf a (hQ a hresult hholds)

/-- One inference after another, whatever the first has concluded. -/
theorem andThen (hx : Vouched r word table x.log slots)
    (hf : ∀ a, Vouched r word table (f a).log others) :
    Vouched r word table (x >>= f).log (slots ++ others) :=
  hx.bind (Q := fun _ => True) (.of_result fun _ _ => trivial) fun a _ => hf a

/-- A rule that leaves remarks only, with what it concludes, before an inference. -/
theorem given (hx : Quiet x) (hQ : Ensures table x Q)
    (hf : ∀ a, Q a → Vouched r word table (f a).log slots) :
    Vouched r word table (x >>= f).log slots :=
  bind (@remarks r word table [] x.log hx) hQ hf

/-- A rule that leaves remarks only, before an inference. -/
theorem skip (hx : Quiet x) (hf : ∀ a, Vouched r word table (f a).log slots) :
    Vouched r word table (x >>= f).log slots :=
  andThen (@remarks r word table [] x.log hx) hf

/-- An inference before a rule that records no types. -/
theorem last (hx : Vouched r word table x.log slots) (hf : ∀ a, Vouched r word table (f a).log []) :
    Vouched r word table (x >>= f).log slots := by
  have h := hx.andThen hf
  rwa [append_nil] at h

theorem typed {q : Place} {t : Ty} {a? : Option Asked} :
    Vouched r word table (record (.typed q t)).log [(q, a?)] :=
  fun _ => ⟨fun _ hp => hp, fun _ _ => forall_mem_singleton.2 trivial⟩

end Steps

end Vouched

namespace Inference

variable {r : Registry} {word : Int} {table : TypeTable} {slots : List Slot} {env : Env}
  {expected : Option Ty} {result : Option Ty} {o : Origin} {a? : Option Asked}

/-! ### What places ask for -/

theorem conversionExpected_asked {target : Ty} {operand : Expr} :
    Ensures table (conversionExpected env target operand)
      (fun asked => asked = env.registry.askedByConversion (some target) operand) := by
  refine .bind .lift fun resolved hresolved => .pure ?_
  rw [Registry.askedByConversion, Option.bind_some, hresolved]
  rfl

theorem askedByCall_of_function {n : Origin} {name : String} {params : List Ty}
    (h : table n.place = some (.function params result)) (args : List Expr) :
    r.askedByCall table (.identifier n name) args = fun i => params[i]? := by
  funext i
  rw [Registry.askedByCall, h]

theorem askedByMethod_of_hasMethod {object : Ty} {method : String} {params : List Ty}
    (h : r.HasMethod object method params result) : r.askedByMethod (some object) method = fun i =>
      params[i]? := by
  obtain ⟨members, member, hmembers, hmember, -, htype⟩ := h
  have hfound : ((some object).bind fun t => (r.membersOf t).toOption.bind (·.find? method)).map
    Member.type =
      some (.function params result) := by
    rw [Option.bind_some, hmembers]
    show (members.find? method).map Member.type = _
    rw [hmember, Option.map_some, htype]
  funext i
  rw [Registry.askedByMethod, hfound]

theorem askedByStruct_of_standsFor {name : String} {t : Ty} {n : Nominal}
    (hname : r.lookup? name = some t)
    (h : r.StandsFor t (.struct n)) : r.askedByStruct name = r.structFields n := by
  have hstruct : r.resolveUnderlying t .nowhere = .ok (.struct n) := h
  rw [Registry.askedByStruct, hname, Option.bind_some, hstruct]
  rfl

theorem askedByIndex_of_standsFor {object w : Ty} (h : r.StandsFor object w) :
    r.askedByIndex (some object) = w.mapEntry?.map Prod.fst := by
  have hresolved : r.resolveUnderlying object .nowhere = .ok w := h
  rw [Registry.askedByIndex, Option.bind_some, hresolved]
  rfl

/-! ### Expressions -/

theorem conclude_vouched {t : Ty} : Vouched r word table (conclude o t).log [(o.place, a?)] :=
  .last .typed fun _ => .nothing

theorem concludeCall_vouched {name : String} :
    Vouched r word table (concludeCall o name result).log [(o.place, a?)] := by
  cases result with
  | none => exact .nothing
  | some t => exact conclude_vouched

theorem value_vouched {span? : Option Span} {x : Inference Yield}
    (h : Vouched r word table x.log slots) : Vouched r word table (value span? x).log slots := by
  refine h.last fun y => ?_
  cases y with
  | value t => exact .nothing
  | nothing procedure => exact .skip spanOf_plain.leaves fun _ => .nothing

theorem backed_vouched {b : Backing} {t : Ty} {a : Asked}
    (himplements : b.concrete.abstract? = some b.abstract)
    (h : table o.place = some t → a.BackedBy r word table b) :
    Vouched r word table (record (.backed o b) >>= fun _ => conclude o t).log
      [(o.place, some a)] := by
  intro hholds
  have htype : table o.place = some t := hholds _ _ (mem_cons_of_mem _ mem_cons_self)
  refine ⟨fun _ hp => hp, fun _ _ => forall_mem_cons.2 ⟨?_, forall_mem_singleton.2 trivial⟩⟩
  refine ⟨himplements, _, mem_cons_self, fun a' ha' => ?_⟩
  rw [← Option.some.inj ha']
  exact h htype

/-- The backings in an expression are right, whatever is asked of the expression. -/
def Guided (word : Int) (table : TypeTable) (env : Env) (e : Expr) : Prop :=
  ∀ expected, Vouched env.registry word table (yieldOf env expected e).log
    (e.slots env.registry table expected)

theorem Guided.infer {e : Expr} (h : Guided word table env e) :
    Vouched env.registry word table (infer env expected e).log
      (e.slots env.registry table expected) :=
  value_vouched (h expected)

theorem items_vouched {elements : List Expr} (h : ∀ e ∈ elements, Guided word table env e) :
    Vouched env.registry word table (items env expected elements).log
      (Expr.slotsOfAll env.registry table (fun _ => expected) elements) := by
  induction elements with
  | nil => exact .nothing
  | cons e rest ih =>
    obtain ⟨he, hrest⟩ := forall_mem_cons.1 h
    exact .andThen he.infer fun _ => .last (ih hrest) fun _ => .nothing

theorem entries_vouched {pairs : List (Expr × Expr)} {entry : Option (Ty × Ty)}
    (h : ∀ e ∈ pairs, Guided word table env e.1 ∧ Guided word table env e.2) :
    Vouched env.registry word table (entries env entry pairs).log
      (Expr.slotsOfEntries env.registry table entry pairs) := by
  induction pairs with
  | nil => exact .nothing
  | cons pair rest ih =>
    obtain ⟨⟨hk, hv⟩, hrest⟩ := forall_mem_cons.1 h
    exact .andThen hk.infer fun _ => .andThen hv.infer fun _ => .last (ih hrest) fun _ => .nothing

theorem arguments_vouched {args : List Expr} {params : List Ty}
    (h : ∀ e ∈ args, Guided word table env e) :
    Vouched env.registry word table (arguments env params args).log
      (Expr.slotsOfAll env.registry table (fun i => params[i]?) args) := by
  induction args generalizing params with
  | nil => cases params <;> exact .nothing
  | cons arg rest ih =>
    cases params with
    | nil => exact .nothing
    | cons param params =>
      obtain ⟨he, hrest⟩ := forall_mem_cons.1 h
      exact .andThen he.infer fun _ => .skip spanOf_plain.leaves fun _ =>
        .skip requireAssignable_idle.quiet fun _ => ih hrest

theorem fields_vouched {given : List (String × Expr)} {struct : Ty} {declared : Keyed Ty}
    (h : ∀ g ∈ given, Guided word table env g.2) :
    Vouched env.registry word table (fields env struct declared given).log
      (Expr.slotsOfFields env.registry table declared given) := by
  induction given with
  | nil => exact .nothing
  | cons g rest ih =>
    obtain ⟨name, e⟩ := g
    obtain ⟨he, hrest⟩ := forall_mem_cons.1 h
    rw [fields, Expr.slotsOfFields]
    split
    · exact .skip spanOf_plain.leaves fun _ => .nothing
    · next t ht =>
        rw [ht]
        exact .andThen he.infer fun _ => .skip spanOf_plain.leaves fun _ =>
          .skip requireAssignable_idle.quiet fun _ => ih hrest

theorem guided_binary {left right : Expr} {op : Option Operator} (hl : Guided word table env left)
    (hr : Guided word table env right) : Guided word table env (.binary o left op right) := by
  intro expected
  rw [yieldOf, Expr.slots]
  refine .parts_first ?_
  rw [append_assoc]
  by_cases hfirst : (left.isLiteral && !right.isLiteral) = true
  · -- the right operand comes first, and the literal on the left is asked for its type
    rw [if_pos hfirst, if_pos hfirst, if_pos hfirst]
    refine .swap (.bind hr.infer infer_ensures fun t ht => ?_)
    rw [ht.typeIn?]
    exact .andThen hl.infer fun _ => .skip binaryType_plain.leaves fun _ => conclude_vouched
  · rw [if_neg hfirst, if_neg hfirst, if_neg hfirst]
    refine .bind hl.infer infer_ensures fun t ht => ?_
    rw [ht.typeIn?]
    exact .andThen hr.infer fun _ => .skip binaryType_plain.leaves fun _ => conclude_vouched

theorem guided_unary {op : Option Operator} {operand : Expr} (h : Guided word table env operand) :
    Guided word table env (.unary o op operand) := by
  intro expected
  refine .parts_first ?_
  cases operand with
  | literal inner v kind =>
    rw [yieldOf]
    exact .skip literalType_plain.leaves fun _ => .andThen .typed fun _ =>
      .skip unaryType_plain.leaves fun _ => conclude_vouched
  | _ => exact .andThen h.infer fun _ => .skip unaryType_plain.leaves fun _ => conclude_vouched

theorem guided_call {callee : Expr} {args : List Expr} (h : ∀ e ∈ args, Guided word table env e) :
    Guided word table env (.call o callee args) := by
  intro expected
  cases callee with
  | identifier n name =>
    rw [yieldOf, Expr.slots, Expr.slots]
    split
    · refine .parts_first ?_
      rw [append_assoc]
      refine .bind .typed .record fun _ hfunction => .skip requireCount_plain.leaves fun _ => ?_
      rw [askedByCall_of_function hfunction]
      exact .andThen (arguments_vouched h) fun _ => concludeCall_vouched
    · next target htarget =>
        rcases args with _ | ⟨operand, _ | ⟨second, rest⟩⟩
        · exact .nothing
        · -- nothing is recorded for the name, so that it has no type tells that the call is a
          -- conversion
          have hrecords : Records env.registry
            (conversionExpected env target operand >>= fun asked =>
              infer env asked operand >>= fun source =>
              requireConvertible env.registry target source o.span >>= fun _ => conclude o target)
              (o.place :: operand.places) :=
            .parts_first (.skip conversionExpected_plain.silent fun _ => .bind
              infer_records fun _ =>
              .skip requireConvertible_idle.silent fun _ => conclude_records)
          rw [Expr.slotsOfAll, Expr.slotsOfAll, append_nil, singleton_append]
          refine .perm (.unseen ?_ fun hnone => ?_) (.swap _ _ _)
          · rw [map_cons, operand.slots_places]
            exact hrecords.facts_within
          · refine .parts_first (.given conversionExpected_plain.leaves conversionExpected_asked
              fun asked hasked => ?_)
            have hasks : env.registry.askedByCall table (.identifier n name) [operand]
                0 = asked := by
              rw [Registry.askedByCall, hnone, (names_of_conversion htarget).2, hasked]
              rfl
            rw [hasks]
            exact .andThen (h operand mem_cons_self).infer fun _ =>
              .skip requireConvertible_idle.quiet fun _ => conclude_vouched
        · exact .nothing
    · exact .nothing
    · exact .nothing
  | _ => exact .skip spanOf_plain.leaves fun _ => .nothing

theorem guided_methodCall {object : Expr} {method : String} {args : List Expr}
    (ho : Guided word table env object) (h : ∀ e ∈ args, Guided word table env e) :
    Guided word table env (.methodCall o object method args) := by
  intro expected
  rw [yieldOf, Expr.slots]
  refine .parts_first ?_
  rw [append_assoc]
  refine .bind ho.infer infer_ensures fun t ht => .given methodType_plain.leaves methodType_ensures
    fun m hm => ?_
  rw [ht.typeIn?, askedByMethod_of_hasMethod hm]
  exact .skip requireCount_plain.leaves fun _ => .andThen (arguments_vouched h) fun _ =>
    concludeCall_vouched

theorem guided_index {object i : Expr} (ho : Guided word table env object)
    (hi : Guided word table env i) : Guided word table env (.index o object i) := by
  intro expected
  rw [yieldOf, Expr.slots]
  refine .parts_first ?_
  rw [append_assoc]
  refine .bind ho.infer infer_ensures fun t ht => .given (Q := fun w => env.registry.StandsFor t w)
    .lift .lift fun w hw => ?_
  rw [ht.typeIn?, askedByIndex_of_standsFor hw]
  split
  · next element hlist =>
      have hnone : w.mapEntry? = none := by
        cases w with
        | list | array => rfl
        | _ => cases hlist
      rw [hnone]
      refine .andThen hi.infer fun found => ?_
      split
      · exact conclude_vouched
      · exact .skip spanOf_plain.leaves fun _ => .nothing
  · next key v _ hmap =>
      rw [hmap]
      exact .andThen hi.infer fun _ => .skip spanOf_plain.leaves fun _ =>
        .skip requireAssignable_idle.quiet fun _ => conclude_vouched
  · exact .nothing

theorem guided_cast {target : TypeExpr} {operand : Expr} (h : Guided word table env operand) :
    Guided word table env (.cast o target operand) := by
  intro expected
  rw [yieldOf, Expr.slots]
  refine .parts_first (.given (Q := fun t => env.registry.typeOf target = .ok t) .lift .lift
    fun t ht => ?_)
  refine .given conversionExpected_plain.leaves conversionExpected_asked fun asked hasked => ?_
  rw [ht, show (Except.ok t : Except Failure Ty).toOption = some t from rfl, ← hasked]
  exact .andThen h.infer fun _ => .skip requireConvertible_idle.quiet fun _ => conclude_vouched

section Literals

variable (henv : env.wordBits = .int word) {o : Origin} {elements : List Expr}

include henv in
theorem guided_list (h : ∀ e ∈ elements, Guided word table env e) :
    Guided word table env (.list o elements) := by
  intro expected
  rw [yieldOf, Expr.slots]
  refine .parts_first (.bind (items_vouched h) (items_ensures fun e _ => sound table env e)
    fun types htypes => ?_)
  rw [henv]
  refine .given listBacking_idle.quiet (.of_result fun _ => listBacking_result) fun b hb => ?_
  obtain ⟨element, length, bytes, rfl, hassignable, hlength, hsize, hlisted⟩ := hb
  obtain ⟨size, rfl⟩ := Registry.size_whole hsize
  rw [htypes.length_eq] at hlength hlisted ⊢
  refine backed_vouched rfl fun htype => ⟨?_, hlisted ▸ htype⟩
  exact .list rfl hlength (htypes.storedUnder hassignable) rfl rfl ⟨rfl, rfl, size, hsize, rfl⟩

theorem guided_set (h : ∀ e ∈ elements, Guided word table env e) :
    Guided word table env (.set o elements) := by
  intro expected
  rw [yieldOf, Expr.slots]
  refine .parts_first (.bind (items_vouched h) (items_ensures fun e _ => sound table env e)
    fun types htypes => ?_)
  refine .given setBacking_idle.quiet (.of_result fun _ => setBacking_result) fun b hb => ?_
  obtain ⟨element, rfl, hassignable, hset⟩ := hb
  exact backed_vouched rfl fun htype => ⟨.set rfl (htypes.storedUnder hassignable), hset ▸ htype⟩

theorem guided_map {pairs : List (Expr × Expr)}
    (h : ∀ e ∈ pairs, Guided word table env e.1 ∧ Guided word table env e.2) :
    Guided word table env (.map o pairs) := by
  intro expected
  rw [yieldOf, Expr.slots]
  refine .parts_first (.bind (entries_vouched h)
    (entries_ensures fun e _ => ⟨sound table env e.1, sound table env e.2⟩) fun types htypes => ?_)
  refine .given mapBacking_idle.quiet (.of_result fun _ => mapBacking_result) fun b hb => ?_
  obtain ⟨key, value, rfl, hkeys, hvalues, hmap⟩ := hb
  refine backed_vouched rfl fun htype => ⟨?_, hmap ▸ htype⟩
  exact .map rfl (htypes.1.storedUnder hkeys) (htypes.2.storedUnder hvalues)

end Literals

theorem guided_record {typeName : String} {given : List (String × Expr)}
    (h : ∀ g ∈ given, Guided word table env g.2) :
    Guided word table env (.record o typeName given) := by
  intro expected
  rw [yieldOf, Expr.slots]
  refine .parts_first (.given literalStruct_plain.leaves literalStruct_ensures fun s hs => ?_)
  obtain ⟨n, hname, hstruct, hfields⟩ := hs
  rw [askedByStruct_of_standsFor hname hstruct, ← hfields]
  exact .andThen (fields_vouched h) fun _ => .skip requireAllFields_plain.leaves fun _ =>
    conclude_vouched

/-- **The backings in an expression are right.** -/
theorem guided (henv : env.wordBits = .int word) (e : Expr) : Guided word table env e := by
  induction e using Expr.byForm with
  | literal o v kind => exact fun _ => .skip literalType_plain.leaves fun _ => conclude_vouched
  | identifier o name => exact fun _ => .skip nameType_plain.leaves fun _ => conclude_vouched
  | binary o left op right hl hr => exact guided_binary hl hr
  | unary o op operand h => exact guided_unary h
  | call o callee args _ hargs => exact guided_call hargs
  | methodCall o object method args ho hargs => exact guided_methodCall ho hargs
  | member o object name ho =>
    exact fun _ => .parts_first
      (.andThen ho.infer fun _ => .skip fieldType_plain.leaves fun _ => conclude_vouched)
  | index o object i ho hi => exact guided_index ho hi
  | cast o target operand h => exact guided_cast h
  | list o elements h => exact guided_list henv h
  | map o entries h => exact guided_map h
  | set o elements h => exact guided_set h
  | record o typeName fields h => exact guided_record h
  | foreign f => exact fun _ => .nothing
  | unreadable => exact fun _ => .nothing

theorem infer_vouched (henv : env.wordBits = .int word) {e : Expr} :
    Vouched env.registry word table (infer env expected e).log
      (e.slots env.registry table expected) :=
  (guided henv e).infer

/-! ### Single statements -/

/-- What is found out about a variable itself: its backing, its type and the writes to it. -/
def Concerns (o : Origin) : Fact → Prop
  | .backed o' b => o' = o ∧ b.concrete.abstract? = some b.abstract
  | .typed q _ => q = o.place
  | _ => True

theorem concerns_vouched {facts : List Fact} (h : ∀ fact ∈ facts, Concerns o fact) :
    Vouched r word table facts [(o.place, none)] := by
  refine fun _ => ⟨fun q hq => ?_, fun _ _ fact hfact => ?_⟩
  · obtain ⟨fact, hfact, hplace⟩ := mem_filterMap.1 hq
    cases fact with
    | typed p t =>
      rw [← Option.some.inj hplace]
      exact mem_singleton.2 (h _ hfact)
    | _ => cases hplace
  · cases fact with
    | backed o' b =>
      obtain ⟨rfl, himplements⟩ := h _ hfact
      exact ⟨himplements, none, mem_cons_self, fun a ha => absurd ha (Option.not_mem_none a)⟩
    | _ => trivial

theorem concerns_of_quiet {α : Type} {x : Inference α} (h : Quiet x) : Leaves (Concerns o) x := by
  refine h.mono fun fact hremark => ?_
  cases fact with
  | asked | noted => trivial
  | _ => cases hremark

theorem recordBacking_concerns {t : Ty} : Leaves (Concerns o) (recordBacking o t) := by
  unfold recordBacking
  split
  · next b hb => exact .record ⟨rfl, Backing.ofType?_implements hb⟩
  · exact .pure

/-- Before anything is found out about a variable itself, its initializer is checked. -/
theorem declaredWrite_log (env : Env) (d : VarDecl) :
    ∃ facts own, (declaredWrite env d).log = facts ++ own ∧ (∀ fact ∈ own, Concerns d.origin fact) ∧
    (facts = [] ∨ ∃ e declared, d.initializer = some e ∧ env.registry.typeOf? d.typeExpr = .ok
      declared ∧ facts = (infer env declared e).log) := by
  rcases hdeclared : env.registry.typeOf? d.typeExpr with err | declared
  · have hlift : (lift (env.registry.typeOf? d.typeExpr)).result = .error err := hdeclared
    exact ⟨[], [], log_bind_of_error hlift, forall_mem_nil _, .inl rfl⟩
  have hlift : (lift (env.registry.typeOf? d.typeExpr)).result = .ok declared := hdeclared
  rw [declaredWrite, log_bind_of_ok hlift]
  split
  · refine ⟨[], _, rfl, ?_, .inl rfl⟩
    cases declared with
    | none => exact Leaves.complain
    | some t =>
      exact Leaves.skip (concerns_of_quiet defaultOf_plain.leaves) fun _ =>
        .skip recordBacking_concerns fun _ => .pure
  · next e he =>
      rcases hfound : (infer env declared e).result with err | found
      · refine ⟨_, [], ?_, forall_mem_nil _, .inr ⟨e, declared, he, rfl, rfl⟩⟩
        rw [append_nil]
        exact log_bind_of_error hfound
      · refine ⟨_, _, log_bind_of_ok hfound, ?_, .inr ⟨e, declared, he, rfl, rfl⟩⟩
        cases declared with
        | none => exact Leaves.pure
        | some t =>
          refine Leaves.skip (concerns_of_quiet spanOf_plain.leaves) fun _ =>
            .skip (concerns_of_quiet requireAssignable_idle.quiet) fun _ => ?_
          cases e.isComposedLiteral with
          | true => exact .pure
          | false => exact .skip recordBacking_concerns fun _ => .pure

section Single

variable (henv : env.wordBits = .int word)

include henv

theorem declare_vouched {d : VarDecl} (result : Option Ty) :
    Vouched env.registry word table (declare env d).log
      ((Stmt.declare d).slots env.registry table result) := by
  obtain ⟨facts, before, hwrite, hbefore, hfacts⟩ := declaredWrite_log env d
  have hinit : Vouched env.registry word table facts
      (Expr.slotsOf? env.registry table (env.registry.annotated d.typeExpr) d.initializer) := by
    rcases hfacts with rfl | ⟨e, declared, he, hdeclared, rfl⟩
    · exact .nothing
    · rw [he, Registry.annotated, hdeclared]
      exact infer_vouched henv
  have hown : ∃ own, (declare env d).log = facts ++ own ∧ ∀ fact ∈ own, Concerns d.origin fact := by
    rcases declare_log env d with ⟨-, hlog⟩ | ⟨_, t, w, n, -, -, hlog⟩
    · exact ⟨before, hlog.trans hwrite, hbefore⟩
    · refine ⟨_, by rw [hlog, hwrite, append_assoc], forall_mem_append.2 ⟨hbefore, ?_⟩⟩
      simp [Concerns]
  obtain ⟨own, hlog, hown⟩ := hown
  rw [hlog]
  exact .parts_first (hinit.append fun _ => concerns_vouched hown)

theorem assign_vouched {o : Origin} {target e : Expr} :
    Vouched env.registry word table (assign env o target e).log
      (target.slots env.registry table none ++ e.slots env.registry table
        (target.typeIn? table)) := by
  refine .skip requireTarget_plain.leaves fun _ =>
    .bind (infer_vouched henv) infer_ensures fun t htype => ?_
  rw [htype.typeIn?]
  refine .last (infer_vouched henv) fun found => .skip spanOf_plain.leaves fun _ =>
    .skip requireAssignable_idle.quiet fun _ => ?_
  unfold recordAssignment
  split
  · split
    · exact fun _ => ⟨forall_mem_nil _, fun _ _ => forall_mem_singleton.2 trivial⟩
    · exact .nothing
  · exact .nothing

theorem giveBack_vouched {around : Surroundings} {e? : Option Expr}
    (hresult : ∀ signature, around.signature = some signature → signature.result = result) :
    Vouched env.registry word table (giveBack env around o e?).log
      (Expr.slotsOf? env.registry table result e?) := by
  unfold giveBack
  split
  · exact .nothing
  · next signature hsignature =>
      split
      · exact .nothing
      · exact .nothing
      · exact .skip spanOf_plain.leaves fun _ => .nothing
      · next e t ht =>
          rw [← hresult signature hsignature, ht]
          exact .last (infer_vouched henv) fun _ => .skip spanOf_plain.leaves fun _ =>
            .remarks requireAssignable_idle.quiet

theorem panicMessage_vouched {e? : Option Expr} :
    Vouched env.registry word table (panicMessage env e?).log
      (Expr.slotsOf? env.registry table none e?) := by
  cases e? with
  | none => exact .nothing
  | some e =>
    refine .last (infer_vouched henv) fun t => ?_
    split
    · exact .skip spanOf_plain.leaves fun _ => .nothing
    · exact .nothing

theorem condition_vouched {what : String} {e : Expr} :
    Vouched env.registry word table (condition env what e).log
      (e.slots env.registry table none) := by
  refine .last (infer_vouched henv) fun t => ?_
  split
  · exact .skip spanOf_plain.leaves fun _ => .nothing
  · exact .nothing

theorem armValues_vouched {subject : Ty} {values : List Expr} :
    Vouched env.registry word table (armValues env subject values).log
      (Expr.slotsOfAll env.registry table (fun _ => some subject) values) := by
  induction values with
  | nil => exact .nothing
  | cons e rest ih =>
    refine .andThen (infer_vouched henv) fun t => ?_
    split
    · exact .skip spanOf_plain.leaves fun _ => .nothing
    · exact ih

theorem iterated_vouched {e : Expr} :
    Vouched env.registry word table (iterated env e).log (e.slots env.registry table none) := by
  refine .last (infer_vouched henv) fun t => .skip .lift fun resolved => ?_
  split
  · exact .nothing
  · exact .skip spanOf_plain.leaves fun _ => .nothing

end Single

/-! ### Blocks -/

/-- What a statement is checked in: a registry, a word size, and a function with a result. -/
structure Within (r : Registry) (word : Int) (result : Option Ty) (env : Env)
    (around : Surroundings) : Prop where
  registry : env.registry = r
  wordBits : env.wordBits = .int word
  result : ∀ signature, around.signature = some signature → signature.result = result

theorem Within.withScopes {around : Surroundings} (h : Within r word result env around)
    (scopes : Scopes) : Within r word result (env.withScopes scopes) around :=
  ⟨h.registry, h.wordBits, h.result⟩

/-- The backings in a statement are right, in whatever scopes it is checked. -/
def StmtGuided (r : Registry) (word : Int) (table : TypeTable) (result : Option Ty) (s : Stmt) :
    Prop :=
  ∀ env around, Within r word result env around →
    Vouched r word table (statement env around s).log (s.slots r table result)

section Blocks

variable {around : Surroundings} (hwithin : Within r word result env around)

include hwithin

theorem statements_vouched {body : List Stmt} (h : ∀ s ∈ body, StmtGuided r word table result s) :
    Vouched r word table (statements env around body).log
      (Stmt.slotsOfAll r table result body) := by
  induction body generalizing env with
  | nil => exact .nothing
  | cons s rest ih =>
    obtain ⟨hs, hrest⟩ := forall_mem_cons.1 h
    exact .andThen (hs env around hwithin) fun _ => ih (hwithin.withScopes _) hrest

theorem block_vouched {body : List Stmt} (h : ∀ s ∈ body, StmtGuided r word table result s)
    (scope : String) :
    Vouched r word table (statements (env.inside scope) around body).log
      (Stmt.slotsOfAll r table result body) :=
  statements_vouched (hwithin.withScopes _) h

theorem optionalBlock_vouched {scope : String} {otherwise : Option (List Stmt)}
    (h : ∀ body ∈ otherwise, ∀ s ∈ body, StmtGuided r word table result s) :
    Vouched r word table (optionalBlock env around scope otherwise).log
      (Stmt.slotsOfBlock? r table result otherwise) := by
  cases otherwise with
  | none => exact .nothing
  | some body => exact .last (block_vouched hwithin (h body rfl) scope) fun _ => .nothing

theorem branches_vouched {more : List Branch}
    (h : ∀ b ∈ more, ∀ s ∈ b.body, StmtGuided r word table result s) :
    Vouched r word table (branches env around more).log
      (Stmt.slotsOfBranches r table result more) := by
  induction more with
  | nil => exact .nothing
  | cons b rest ih =>
    obtain ⟨c, body⟩ := b
    obtain ⟨hb, hrest⟩ := forall_mem_cons.1 h
    obtain ⟨rfl, hword, -⟩ := id hwithin
    exact .andThen (condition_vouched hword) fun _ =>
      .andThen (block_vouched hwithin hb _) fun _ => ih hrest

theorem cases_vouched {subject : Ty} {arms : List Case}
    (h : ∀ a ∈ arms, ∀ s ∈ a.body, StmtGuided r word table result s) :
    Vouched r word table (cases env around subject arms).log
      (Stmt.slotsOfCases r table result (some subject) arms) := by
  induction arms with
  | nil => exact .nothing
  | cons a rest ih =>
    obtain ⟨values, body⟩ := a
    obtain ⟨ha, hrest⟩ := forall_mem_cons.1 h
    obtain ⟨rfl, hword, -⟩ := id hwithin
    exact .andThen (armValues_vouched hword) fun _ =>
      .andThen (block_vouched hwithin ha _) fun _ => ih hrest

end Blocks

/-- **The backings in a statement are right.** -/
theorem stmtGuided (s : Stmt) : StmtGuided r word table result s := by
  induction s using Stmt.byForm with
    (intro env around hwithin; obtain ⟨rfl, hword, hresult⟩ := id hwithin)
  | declare d => exact declare_vouched hword result
  | assign o target e => exact .last (assign_vouched hword) fun _ => .nothing
  | expr o e => exact .last (guided hword e none) fun _ => .nothing
  | ret o e? => exact .last (giveBack_vouched hword hresult) fun _ => .nothing
  | panic o e? => exact .last (panicMessage_vouched hword) fun _ => .nothing
  | brk o | cont o => exact .skip requireLoop_plain.leaves fun _ => .nothing
  | pass o => exact .nothing
  | cond o c body more otherwise hbody hmore hlast =>
    exact .andThen (condition_vouched hword) fun _ =>
      .andThen (block_vouched hwithin hbody _) fun _ =>
      .andThen (branches_vouched hwithin hmore) fun _ => .last (optionalBlock_vouched hwithin hlast)
        fun _ => .nothing
  | select o subject arms otherwise harms hlast =>
    rw [Stmt.slots]
    refine .bind (infer_vouched hword) infer_ensures fun t ht => ?_
    rw [ht.typeIn?]
    exact .andThen (cases_vouched hwithin harms) fun _ =>
      .last (optionalBlock_vouched hwithin hlast) fun _ => .nothing
  | loop o c body hbody =>
    have hloop : Within env.registry word result env around.looping := ⟨rfl, hword, hresult⟩
    exact .andThen (condition_vouched hword) fun _ =>
      .last (block_vouched hloop hbody _) fun _ => .nothing
  | iterate o name e body hbody =>
    have hloop : Within env.registry word result env around.looping := ⟨rfl, hword, hresult⟩
    have hscope (t : Ty) : Vouched env.registry word table (loopScope env o name t).log
        [(o.place, none)] :=
      .skip define_plain.leaves fun _ => .last .typed fun _ => .nothing
    exact .perm (.andThen (iterated_vouched hword) fun t => .andThen (hscope t) fun scopes =>
      .last (statements_vouched (hloop.withScopes _) hbody) fun _ => .nothing) perm_middle
  | block o body hbody => exact .last (block_vouched hwithin hbody _) fun _ => .nothing
  | foreign f => exact .nothing
  | unreadable => exact .nothing

/-! ### Functions -/

theorem parameters_vouched {params : List Param} {types : List (String × Ty)} {scopes : Scopes} :
    Vouched r word table (parameters scopes params types).log
      (params.map fun p => (p.origin.place, none)) := by
  induction params generalizing types scopes with
  | nil => exact .nothing
  | cons p rest ih =>
    cases types with
    | nil => exact .nothing
    | cons type types => exact .skip define_plain.leaves fun _ => .andThen .typed fun _ => ih

theorem receiver_vouched {param : Option Param} {type : Option Ty} {scopes : Scopes} :
    Vouched r word table (receiver scopes param type).log
      (param.toList.map fun p => (p.origin.place, none)) := by
  unfold receiver
  split
  · exact .skip define_plain.leaves fun _ => .last .typed fun _ => .nothing
  · exact .nothing

/-- **The backings in a function are right.** -/
theorem function_vouched {f : FunctionDef} {signature : Signature} (henv : env.wordBits = .int word)
    (hresult : signature.result = env.registry.annotated f.returnType) :
    Vouched env.registry word table (function env f signature).log
      (f.slots env.registry table) := by
  have hwithin : Within env.registry word (env.registry.annotated f.returnType) env
      ⟨some signature, false⟩ := by
    refine ⟨rfl, henv, fun signature' h => ?_⟩
    rw [← Option.some.inj h]
    exact hresult
  refine .perm (.andThen receiver_vouched fun _ => .andThen parameters_vouched fun scopes =>
    .last (statements_vouched (hwithin.withScopes scopes) fun s _ => stmtGuided s) fun _ =>
      .nothing) ?_
  exact perm_append_comm.trans (.of_eq (append_assoc _ _ _))

end Inference

end TreeTyping
