/-
The backings that a check keeps.

Whether a module is accepted or not, the backings that are kept about it are consistent.  The
concrete type of a backing implements its abstract type.  The elements of a composed literal have
types that can be stored in its backing, the literal has the type that is asked for at its place if
that is of its kind, and the layout of a list literal is that of its elements.
-/
import Mathlib.Data.List.Flatten
import Mathlib.Tactic
import TreeTyping.Proofs.Check.Taken
import TreeTyping.Proofs.Typing.Backings

namespace TreeTyping

open List TreeTyping.Except
open Progress (BodyOutcome checkBody variableScopes variableOutcome variableOutcomes)

/-! ### Variables and bodies -/

/-- Every body that is to be checked has the signature that its annotations denote. -/
theorem Module.declarations_resolved {s : Settings} {m : Module} {p : Progress} {bs : List Body}
    (h : m.declarations s = .ok (p, bs)) :
    ∀ b ∈ bs, b.signature.result = p.env.registry.annotated b.function.returnType := by
  obtain ⟨types, -, h⟩ := bind_eq_ok.1 h
  obtain ⟨signatures, hsignatures, h⟩ := bind_eq_ok.1 h
  cases h
  have hresolved := Signatures.run_resolved hsignatures
  intro b hb
  have hsignature : Signatures.signatureOf signatures.registry.freeze b.function = .ok
      b.signature := by
    rw [Signatures.signatureOf_congr
      (show signatures.registry.freeze.bindings = _ from hresolved.types)]
    exact hresolved.signatures b hb
  obtain ⟨params, -, hsignature⟩ := bind_eq_ok.1 hsignature
  obtain ⟨result, hresult, hsignature⟩ := bind_eq_ok.1 hsignature
  obtain ⟨receiver, -, hsignature⟩ := bind_eq_ok.1 hsignature
  rw [← Except.ok.inj hsignature]
  show result = (signatures.registry.freeze.typeOf? b.function.returnType).toOption.join
  rw [hresult]
  rfl

section Establishing

variable {env : Env} {word : Int}

/-- Facts establish that the backings among them are right, for whatever table holds them. -/
abbrev EstablishBackings (r : Registry) (word : Int) (facts : List Fact) (places : List Place)
    (slots : TypeTable → List Slot) : Prop :=
  Establish facts places fun table => Vouched r word table facts (slots table)

theorem EstablishBackings.append {r : Registry} {facts more : List Fact}
    {places others : List Place}
    {slots around : TypeTable → List Slot} (h : EstablishBackings r word facts places slots)
    (h' : EstablishBackings r word more others around) :
    EstablishBackings r word (facts ++ more) (places ++ others) fun table =>
      slots table ++ around table :=
  Establish.append h h' fun _ hfacts hmore => hfacts.append fun _ => hmore

theorem establishBackings_remarks {r : Registry} {facts : List Fact} {s : TypeTable → List Slot}
    (h : ∀ fact ∈ facts, fact.isRemark = true) : EstablishBackings r word facts [] s :=
  .nothing (Fact.recorded_of_remarks h) fun _ => .remarks h

theorem variableOutcomes_backings {vars : List (Entry VarDecl)} {last : Scopes}
    {outcomes : List BodyOutcome}
    (h : variableOutcomes env vars = .ok (last, outcomes)) (hword : env.wordBits = .int word) :
    EstablishBackings env.registry word (factsIn outcomes) (vars.flatMap VarDecl.placesOfEntry)
      fun table =>
      vars.flatMap (VarDecl.slotsOfEntry env.registry table) := by
  induction vars generalizing env outcomes with
  | nil =>
    cases h
    exact establishBackings_remarks (forall_mem_nil _)
  | cons entry rest ih =>
    obtain ⟨scopes, o, others, ho, hothers, rfl⟩ := Progress.variableOutcomes_cons.1 h
    have hrest := ih hothers hword
    rw [factsIn_cons, Progress.variableOutcome_facts ho]
    refine EstablishBackings.append ?_ hrest
    cases entry with
    | proper d =>
      exact ⟨Inference.declare_records.types, fun table _ => Inference.declare_vouched hword none⟩
    | foreign f => exact establishBackings_remarks (forall_mem_nil _)

theorem bodies_backings {warn : Bool} {bs : List Body} {outcomes : List BodyOutcome}
    (h : bs.mapM (checkBody env warn) = .ok outcomes) (hword : env.wordBits = .int word)
    (hresults : ∀ b ∈ bs, b.signature.result = env.registry.annotated b.function.returnType) :
    EstablishBackings env.registry word (factsIn outcomes) (bs.flatMap fun b => b.function.places)
      fun table =>
      bs.flatMap fun b => b.function.slots env.registry table := by
  induction bs generalizing outcomes with
  | nil =>
    cases h
    exact establishBackings_remarks (forall_mem_nil _)
  | cons b rest ih =>
    obtain ⟨o, others, ho, hothers, rfl⟩ := Progress.mapM_cons_eq_ok.1 h
    obtain ⟨hresult, hrest⟩ := forall_mem_cons.1 hresults
    obtain ⟨remarks, hfacts, hremarks⟩ := Progress.checkBody_remarks ho
    have hbody : EstablishBackings env.registry word
      (Inference.function env b.function b.signature).facts
        b.function.places (b.function.slots env.registry) :=
      ⟨Inference.function_records.types, fun table _ => Inference.function_vouched hword hresult⟩
    have hbehind := (establishBackings_remarks (s := fun _ => []) hremarks).append
      (ih hothers hrest)
    rw [factsIn_cons, hfacts, append_assoc]
    exact hbody.append hbehind

end Establishing

/-! ### Checks -/

/-- Only some declarations may be taken in, in the order of the module. -/
theorem Module.Enrolled.taken {α : Type} {s : Settings} {m : Module} {p : Progress} {bs : List Body}
    (h : Module.Enrolled s m p bs) (n k : Nat) (f : Entry VarDecl → List α)
    (g : Entry FunctionDef → List α) :
    ((m.vars.take n).flatMap f ++ (bs.take k).flatMap fun b => g (.proper b.function)).Sublist
      (m.vars.flatMap f ++ m.functions.flatMap g) := by
  have hbodies := (((take_sublist k bs).map _).trans h.entries).flatMap g
  rw [flatMap_map] at hbodies
  exact ((take_sublist n m.vars).flatMap f).append hbodies

/-- What is kept about the backings of a module is right. -/
theorem Checked.Kept.supported {s : Settings} {m : Module} {c : Checked} {p : Progress}
    {bs : List Body} {n k : Nat}
    {last : Scopes} {vars bodies : List BodyOutcome} {word : Int}
    (h : c.Kept s m p bs n k last vars bodies)
    (hword : s.wordBits = .int word) (hnodup : m.places.Nodup) :
    ∀ fact ∈ c.facts, fact.Supported c.env.registry word (Fact.table c.facts)
      (m.slots c.env.registry (Fact.table c.facts)) := by
  have henrolled := Module.declarations_enrolled h.declarations
  have hbits : p.env.wordBits = .int word := henrolled.wordBits.trans hword
  have hresults (b : Body) (hb : b ∈ bs.take k) :=
    Module.declarations_resolved h.declarations b (mem_of_mem_take hb)
  have hbodies := bodies_backings h.bodies hbits hresults
  have hdeclared := (variableOutcomes_backings h.vars hbits).append hbodies
  have hkept := (establishBackings_remarks (s := fun _ => []) henrolled.remarks).append hdeclared
  rw [← h.facts] at hkept
  rw [h.registry]
  have hslots := henrolled.taken n k (VarDecl.slotsOfEntry p.env.registry (Fact.table c.facts))
    (FunctionDef.slotsOfEntry p.env.registry (Fact.table c.facts))
  have hplaces := hnodup.sublist
    (henrolled.taken n k VarDecl.placesOfEntry FunctionDef.placesOfEntry)
  have hholds : (Fact.table c.facts).Holds c.facts :=
    Establish.table (P := fun table => table.Holds c.facts) ⟨hkept.once, fun _ hholds => hholds⟩
      hplaces
  rw [← Module.slots_places] at hnodup
  exact ((hkept.holds _ hholds).sublist hslots hholds).2 hnodup fun _ _ => rfl

namespace Module

/--
**Recorded backings are consistent.**  Every backing that a check keeps has a concrete type that
implements its abstract type.  What is asked of an expression is told by its place; a backing that
is kept there is right for it.
-/
theorem check_backings {s : Settings} {q₀ : Place} {t : Tree} {m : Module}
    {c : Checked} {word : Int}
    (hk : t.keysDistinct = true) (hm : Module.ofTree? q₀ t = some m)
    (hword : s.wordBits = .int word)
    (hcheck : m.check s = .ok c) :
    (∀ o b, .backed o b ∈ c.facts → b.concrete.abstract? = some b.abstract) ∧
    ∀ e o, m.Mentions e → e.origin? = some o → ∃ expected,
      (∀ a, (o.place, some a) ∈ m.slots c.env.registry (Fact.table c.facts) ↔ a = ⟨e, expected⟩) ∧
      ∀ b, Fact.backingAt? o.place c.facts = some b →
        Asked.BackedBy c.env.registry word (Fact.table c.facts) b ⟨e, expected⟩ := by
  have hnodup := places_nodup hk hm
  obtain ⟨p, bs, n, k, last, vars, bodies, hkept⟩ := check_kept hcheck
  have hsupported := hkept.supported hword hnodup
  refine ⟨fun o b hb => (hsupported _ hb).1, fun e o he ho => ?_⟩
  obtain ⟨expected, hslot⟩ := Mentions.asked (r := c.env.registry) he ho
  refine ⟨expected, fun a => ⟨fun ha => ?_, fun ha => ha ▸ hslot⟩, fun b hb => ?_⟩
  · exact Option.some.inj (slot_unique hnodup ha hslot)
  · obtain ⟨o', hbacked, hplace⟩ := Fact.mem_of_backingAt? hb
    obtain ⟨-, a?, ha, hright⟩ := hsupported _ hbacked
    rw [hplace] at ha
    obtain rfl := slot_unique hnodup ha hslot
    exact hright _ rfl

/--
A module whose variables start with composed literals: a pair of small numbers that fills an array,
a map, a set, and rows of different lengths that no type is asked of.  One more number is missing in
an array of three.
-/
def pantryTree : Tree :=
  let int : Tree := .node .simpleType .nowhere [.text "int"]
  let small : Tree := .node .simpleType .nowhere [.text "int8"]
  let array (length : Int) : Tree :=
    .node .genericType .nowhere [.text "array", .list [small], .int length]
  let number (n : Int) : Tree := .node .literal .nowhere [.int n, .literalKind .int]
  let list (elements : List Tree) : Tree := .node .listLiteral .nowhere [.list elements]
  let var (name : String) (type e : Tree) : Tree := .node .varDecl .nowhere [.text name, type, e]
  let entry : Tree := .node .mapEntry .nowhere
    [.node .literal .nowhere [.text "a", .literalKind .string], number 1]
  .node .compilationUnit .nowhere
    [.text "pantry", .list [], .list [var "pair" (array 2) (list [number 1, number 2]),
      var "ages" .null (.node .mapLiteral .nowhere [.list [entry]]),
      var "marks" (.node .genericType .nowhere [.text "set", .list [int], .null])
        (.node .setLiteral .nowhere [.list [number 3]]),
      var "rows" .null (list [list [number 1, number 2], list [number 3]]),
        var "short" (array 3) (list [number 1])],
      .list []]

/-- The module of that tree. -/
def pantry : Module := (Module.ofTree? (.root 0) pantryTree).get rfl

/-- The module is refused, and the backings of its literals are kept, with the bytes of lists. -/
theorem check_backings_pantry : ∃ c, pantry.check {} = .ok c ∧ c.accepted = false ∧
    (Fact.backings c.facts).map (fun e => (e.2.concrete.name, e.2.layout.bind Layout.totalBytes?)) =
      [("array[int8, 2]", some (.int 10)), ("hashmap[string, int]", none), ("hashset[int]", none),
        ("array[int]", some (.int 24)), ("array[int]", some (.int 16)),
        ("array[list[int]]", some (.int 24))] ∧
    (∀ o b, .backed o b ∈ c.facts → b.concrete.abstract? = some b.abstract) ∧
    ∀ e o, pantry.Mentions e → e.origin? = some o → ∃ expected,
      (∀ a, (o.place, some a) ∈ pantry.slots c.env.registry (Fact.table c.facts) ↔
        a = ⟨e, expected⟩) ∧
      ∀ b, Fact.backingAt? o.place c.facts = some b →
        Asked.BackedBy c.env.registry 64 (Fact.table c.facts) b ⟨e, expected⟩ := by
  have hchecked : (pantry.check {}).toOption.map
    (fun c => (c.accepted, (Fact.backings c.facts).map fun e =>
      (e.2.concrete.name, e.2.layout.bind Layout.totalBytes?))) = some (false,
      [("array[int8, 2]", some (.int 10)), ("hashmap[string, int]", none), ("hashset[int]", none),
        ("array[int]", some (.int 24)), ("array[int]", some (.int 16)),
          ("array[list[int]]", some (.int 24))]) := by
    cbv
  obtain ⟨c, hc, hchecked⟩ := Option.map_eq_some_iff.1 hchecked
  obtain ⟨haccepted, hbackings⟩ := Prod.mk.inj hchecked
  have hcheck := toOption_eq_some.1 hc
  exact ⟨c, hcheck, haccepted, hbackings, check_backings (t := pantryTree) rfl rfl rfl hcheck⟩

end Module

end TreeTyping
