/-
What the acceptance of a module guarantees.

An accepted module is one in which no error was found, and then nothing was left out: every entry is
a declaration of its kind, the limit on errors was never reached, and every variable and every body
was checked to its end.  What was recorded on the way fits together into one table, since no node is
looked at twice.  The table is a typing derivation for the whole module, and it has a type for every
expression that has a value.
-/
import TreeTyping.Proofs.Check.Outcomes
import TreeTyping.Proofs.Check.Signatures
import TreeTyping.Proofs.Syntax.Completeness
import TreeTyping.Proofs.Syntax.Reading
import TreeTyping.Proofs.Typing.Coverage
import TreeTyping.Proofs.Typing.Frame
import TreeTyping.Proofs.Typing.Soundness

namespace TreeTyping

open List

/-! ### Derivations for modules -/

/-- Variables one after the other, each in scope for those after it. -/
inductive DeclarationsTyped (table : TypeTable) : Env → List VarDecl → Scopes → Prop
  | nil {env : Env} : DeclarationsTyped table env [] env.scopes
  | cons {env : Env} {d : VarDecl} {rest : List VarDecl} {next out : Scopes}
      (hd : DeclarationTyped table env d next)
      (hrest : DeclarationsTyped table (env.withScopes next) rest out) :
      DeclarationsTyped table env (d :: rest) out

/--
The module is right, in the environment that is left in the end: its variables are, each in scope
for those after it, and so are its functions, each with the signature its annotations denote.  The
functions that can be called by their names are those without a receiver.
-/
structure ModuleTyped (table : TypeTable) (env : Env) (m : Module) : Prop where
  vars : ∃ ds scopes, m.vars = ds.map .proper ∧ env.scopes = scopes.closed ∧
    DeclarationsTyped table (env.withScopes {}) ds scopes
  functions : ∀ entry ∈ m.functions, ∃ f signature, entry = .proper f ∧
    Signatures.signatureOf env.registry f = .ok signature ∧ FunctionTyped table env f signature
  callable : ∀ name signature, env.functions.find? name = some signature ↔
    ∃ f, .proper f ∈ m.functions ∧ Signatures.signatureOf env.registry f = .ok signature ∧
      f.receiver = none ∧ f.name = name

/-! ### Facts that establish something -/

/-- The facts fill no place more often than listed, and tables that hold them have the property. -/
structure Establish (facts : List Fact) (places : List Place) (P : TypeTable → Prop) : Prop where
  once : ∀ q, (Fact.recorded facts).count q ≤ places.count q
  holds : ∀ table : TypeTable, table.Holds facts → P table

namespace Establish

variable {facts more : List Fact} {places others : List Place} {P Q R : TypeTable → Prop}

theorem nothing (h : Fact.recorded facts = []) (hP : ∀ table, P table) : Establish facts places P :=
  ⟨fun q => by simp [h], fun table _ => hP table⟩

theorem append (h : Establish facts places P) (h' : Establish more others Q)
    (hR : ∀ table, P table → Q table → R table) : Establish (facts ++ more)
      (places ++ others) R := by
  constructor
  · intro q
    rw [Fact.recorded_append, count_append, count_append]
    exact Nat.add_le_add (h.once q) (h'.once q)
  · intro table hholds
    exact hR table (h.holds table (hholds.mono (subset_append_left _ _)))
      (h'.holds table (hholds.mono (subset_append_right _ _)))

theorem table (h : Establish facts places P) (hplaces : places.Nodup) : P (Fact.table facts) := by
  refine h.holds _ (Fact.table_holds (nodup_iff_count_le_one.2 fun q => ?_))
  exact Nat.le_trans (h.once q) (nodup_iff_count_le_one.1 hplaces q)

end Establish

theorem Collector.errorCount_eq_zero {c : Collector} : c.errorCount = 0 ↔ NoErrors c.found := by
  simp [errorCount, errors, NoErrors]

namespace Progress

/-! ### Variables -/

/-- An entry in which no error is found is a variable whose declaration was checked to its end. -/
theorem variableOutcome_clean {env : Env} {entry : Entry VarDecl} {scopes : Scopes}
    {o : BodyOutcome}
    (h : variableOutcome env entry = .ok (scopes, o)) (hclean : NoErrors o.found) :
    (variableScopes env entry).result = .ok scopes ∧
    o = ⟨(variableScopes env entry).facts, []⟩ := by
  unfold variableOutcome at h
  dsimp only at h
  split at h
  · next hresult =>
      cases h
      exact ⟨hresult, rfl⟩
  · next d hd _ =>
      cases h
      rw [hclean d (mem_singleton_self d)] at hd
      cases hd
  · cases h

/-- **Variables in which no error is found are right.** -/
theorem variableOutcomes_clean {vars : List (Entry VarDecl)} {env : Env} {last : Scopes}
    {outcomes : List BodyOutcome}
    (h : variableOutcomes env vars = .ok (last, outcomes)) (hclean : NoErrors (foundIn outcomes)) :
    ∃ ds, vars = ds.map .proper ∧ Establish (factsIn outcomes) (vars.flatMap VarDecl.placesOfEntry)
      fun table =>
      DeclarationsTyped table env ds last := by
  induction vars generalizing env outcomes with
  | nil =>
    cases h
    exact ⟨[], rfl, .nothing rfl fun _ => .nil⟩
  | cons entry rest ih =>
    obtain ⟨scopes, o, others, ho, hothers, rfl⟩ := variableOutcomes_cons.1 h
    rw [foundIn_cons] at hclean
    obtain ⟨hfirst, hrest⟩ := forall_mem_append.1 hclean
    obtain ⟨hresult, rfl⟩ := variableOutcome_clean ho hfirst
    obtain ⟨ds, rfl, htyped⟩ := ih hothers hrest
    cases entry with
    | proper d =>
      have hd : Establish (Inference.declare env d).facts (Stmt.declare d).places fun table =>
          DeclarationTyped table env d scopes :=
        ⟨Inference.declare_records.types, fun table => Inference.declare_ensures scopes hresult⟩
      exact ⟨d :: ds, rfl, hd.append htyped fun table => .cons⟩
    | foreign f => cases hresult

/-! ### Bodies -/

theorem checkBody_clean {env : Env} {warn : Bool} {b : Body} {o : BodyOutcome}
    (h : checkBody env warn b = .ok o) (hclean : NoErrors o.found) :
    (Inference.function env b.function b.signature).result = .ok () ∧
      ∃ note, o.facts = (Inference.function env b.function b.signature).facts ++ [.noted note] := by
  -- a rejected body reports what it is rejected for, and that is an error
  have hrejected {facts warnings d} (hd : d.isError = true) (ho : o = rejected b facts warnings d) :
      False := by
    rw [ho] at hclean
    rw [hclean d (mem_append_right _ (mem_singleton_self _))] at hd
    cases hd
  unfold checkBody at h
  dsimp only at h
  split at h
  · next hresult =>
      refine ⟨hresult, ?_⟩
      unfold flowOutcome at h
      dsimp only at h
      split at h
      · cases h
      · split at h
        · cases h
          exact ⟨_, rfl⟩
        · next d hcomplaint =>
            refine (hrejected ?_ (Except.ok.inj h).symm).elim
            unfold FunctionDef.bodyFlow at hcomplaint
            dsimp only at hcomplaint
            split at hcomplaint
            · cases hcomplaint
              rfl
            · cases hcomplaint
  · next d hd _ => exact (hrejected hd (Except.ok.inj h).symm).elim
  · cases h

theorem bodies_clean {env : Env} {warn : Bool} {bs : List Body} {outcomes : List BodyOutcome}
    (h : bs.mapM (checkBody env warn) = .ok outcomes) (hclean : NoErrors (foundIn outcomes))
    {r : Registry}
    (hs : ∀ b ∈ bs, Signatures.signatureOf r b.function = .ok b.signature) :
    Establish (factsIn outcomes) (bs.flatMap fun b => b.function.places) fun table =>
      ∀ b ∈ bs, FunctionTyped table env b.function b.signature := by
  induction bs generalizing outcomes with
  | nil =>
    cases h
    exact .nothing rfl fun _ => forall_mem_nil _
  | cons b rest ih =>
    obtain ⟨o, others, ho, hothers, rfl⟩ := mapM_cons_eq_ok.1 h
    obtain ⟨hb, hrest⟩ := forall_mem_cons.1 hs
    rw [foundIn_cons, NoErrors, forall_mem_append] at hclean
    obtain ⟨hresult, note, hfacts⟩ := checkBody_clean ho hclean.1
    obtain ⟨-, hparams, hreceiver⟩ := Signatures.signatureOf_shape hb
    have hbody : Establish (Inference.function env b.function b.signature).facts b.function.places
        fun table => FunctionTyped table env b.function b.signature :=
      ⟨Inference.function_records.types, fun table =>
        Inference.function_ensures hreceiver.symm hparams.symm () hresult⟩
    have hnote : Establish [.noted note] [] fun _ => True := .nothing rfl fun _ => trivial
    rw [factsIn_cons, flatMap_cons, hfacts, append_assoc]
    refine hbody.append (hnote.append (ih hothers hclean.2 hrest) fun table _ h => h)
      fun table hb hrest => ?_
    exact forall_mem_cons.2 ⟨hb, hrest⟩

end Progress

/-! ### Modules -/

namespace Module

/-- The state when every function of the module has been registered, and nothing is checked yet. -/
structure Declared (m : Module) (p : Progress) (bs : List Body) : Prop where
  entries : m.functions = bs.map fun b => .proper b.function
  signatures : ∀ b ∈ bs, Signatures.signatureOf p.env.registry b.function = .ok b.signature
  callable : ∀ name signature, p.env.functions.find? name = some signature ↔
    ∃ f, .proper f ∈ m.functions ∧ Signatures.signatureOf p.env.registry f = .ok signature ∧
      f.receiver = none ∧ f.name = name
  unscoped : p.env.scopes = {}
  untyped : Fact.recorded p.facts = []

theorem declarations_clean {m : Module} {s : Settings} {p : Progress} {bs : List Body}
    (h : m.declarations s = .ok (p, bs)) (hclean : NoErrors p.collector.found) :
    m.Declared p bs := by
  unfold declarations at h
  obtain ⟨types, -, h⟩ := Except.bind_eq_ok.1 h
  obtain ⟨signatures, hsignatures, h⟩ := Except.bind_eq_ok.1 h
  cases h
  have hregistered := Signatures.run_registered hsignatures (forall_mem_append.1 hclean).2
  -- methods are added to the registry on the way, but no names, and annotations consist of names
  have hsignature (f : FunctionDef) :
      Signatures.signatureOf signatures.registry.freeze f = Signatures.signatureOf
        types.registry f :=
    Signatures.signatureOf_congr
      (show signatures.registry.freeze.bindings = _ from hregistered.types) f
  refine ⟨hregistered.entries, fun b hb => ?_, fun name signature => ?_, rfl, ?_⟩
  · rw [hsignature]
    exact hregistered.signatures b hb
  · simp only [hsignature]
    exact hregistered.callable name signature
  · rw [Fact.recorded_append, Fact.recorded_append, hregistered.untyped]
    rfl

theorem check_establish {m : Module} {s : Settings} {c : Checked} (hlimit : 1 ≤ s.maxErrors)
    (h : m.check s = .ok c) (haccepted : c.accepted = true) :
    Establish c.facts m.places fun table => ModuleTyped table c.env m := by
  have hzero : c.collector.errorCount = 0 := of_decide_eq_true haccepted
  obtain ⟨p, bs, last, vars, bodies, hunfolds, htook, henv⟩ := check_unfolds (s := s) h (by omega)
  -- no errors at the end, so none on the way
  have hclean : NoErrors (p.collector.found ++ foundIn (vars ++ bodies)) :=
    htook.diagnostics ▸ Collector.errorCount_eq_zero.1 hzero
  rw [foundIn_append, NoErrors, forall_mem_append, forall_mem_append] at hclean
  obtain ⟨hbegun, hvars, hbodies⟩ := hclean
  have hdeclared := declarations_clean hunfolds.declarations hbegun
  obtain ⟨ds, hds, hvarFacts⟩ := Progress.variableOutcomes_clean hunfolds.vars hvars
  have hbodyFacts := Progress.bodies_clean hunfolds.bodies hbodies hdeclared.signatures
  have hplaces : m.places = m.vars.flatMap VarDecl.placesOfEntry ++ bs.flatMap fun b =>
      b.function.places := by
    rw [places, hdeclared.entries, flatMap_map]
    rfl
  have hstart : Establish p.facts [] fun _ => True := .nothing hdeclared.untyped fun _ => trivial
  -- the environment in the end differs from the first one in its scopes
  have hopen : (p.env.withScopes last.closed).withScopes {} = p.env := by
    rw [← hdeclared.unscoped]
    rfl
  rw [htook.facts, factsIn_append, ← append_assoc, hplaces, henv]
  refine (hstart.append hvarFacts fun _ _ h => h).append hbodyFacts fun table hvars hbodies =>
    ⟨?_, ?_, hdeclared.callable⟩
  · exact ⟨ds, last, hds, rfl, hopen.symm ▸ hvars⟩
  · intro entry hentry
    rw [hdeclared.entries] at hentry
    obtain ⟨b, hb, rfl⟩ := mem_map.1 hentry
    exact ⟨b.function, b.signature, rfl, hdeclared.signatures b hb, hbodies b hb⟩

end Module

/-! ### Every expression with a value has a type -/

/--
The expressions of a module that have no value: a call of a procedure, which is a statement of its
own, and the name of the type in a conversion.
-/
inductive Module.Valueless (m : Module) (table : TypeTable) (env : Env) (a : Expr) : Prop
  | procedure {f : FunctionDef} {l : Bool} {o : Origin} {inner : Env} (hf : .proper f ∈ m.functions)
      (hs : Stmt.OccursIn l (.expr o a) f.body) (hagrees : env.Agrees inner)
      (hc : CallsProcedure inner table a)
  | conversion {call : Expr} {inner : Env} (hm : m.Mentions call) (hagrees : env.Agrees inner)
      (hc : NamesConversion inner table a call)

theorem DeclarationsTyped.mem {table : TypeTable} {env : Env} {ds : List VarDecl} {scopes : Scopes}
    (h : DeclarationsTyped table env ds scopes) : ∀ d ∈ ds, ∃ inner next, env.Agrees inner ∧
      DeclarationTyped table inner d next := by
  induction h with
  | nil => exact forall_mem_nil _
  | @cons env d rest next _ hd _ ih =>
    refine forall_mem_cons.2 ⟨⟨env, next, .refl env, hd⟩, fun d' hd' => ?_⟩
    obtain ⟨inner, next', hagrees, h⟩ := ih d' hd'
    exact ⟨inner, next', ⟨hagrees.registry, hagrees.functions⟩, h⟩

/-- **Whatever a module that is right mentions has a type, unless it has no value.** -/
theorem ModuleTyped.mentions {table : TypeTable} {env : Env} {m : Module}
    (h : ModuleTyped table env m)
    {a : Expr} {o : Origin} (ha : m.Mentions a) (ho : a.origin? = some o) :
    (∃ t, table o.place = some t) ∨ m.Valueless table env a := by
  -- an expression inside one that is typed
  have inside {inner : Env} {e : Expr} {t : Ty} (hagrees : env.Agrees inner)
    (he : HasType inner table e t)
      (hoccurs : a.Occurs e) (hm : ∀ call : Expr, call.Occurs e → m.Mentions call) :
      (∃ t, table o.place = some t) ∨ m.Valueless table env a := by
    rcases he.occurs hoccurs with ⟨s, hs⟩ | ⟨call, hcall, hname⟩
    · obtain ⟨o', ho', ht⟩ := hs.recorded
      cases ho.symm.trans ho'
      exact .inl ⟨s, ht⟩
    · exact .inr (.conversion (hm call hcall) hagrees hname)
  cases ha with
  | @initializer d e hd he hoccurs =>
    obtain ⟨ds, scopes, hds, -, htyped⟩ := h.vars
    obtain ⟨d', hd', heq⟩ := mem_map.1 (hds ▸ hd)
    cases heq
    obtain ⟨inner, next, hagrees, ⟨hdeclares, -, -⟩⟩ := htyped.mem d hd'
    cases hdeclares with
    | plain hi => cases he.symm.trans hi
    | initialized hi _ hinit _ =>
      cases he.symm.trans hi
      exact inside ⟨hagrees.registry, hagrees.functions⟩ hinit hoccurs fun call hcall =>
        .initializer hd he hcall
  | @body f l s e hf hs he hoccurs =>
    obtain ⟨f', signature, heq, -, htyped⟩ := h.functions _ hf
    cases heq
    obtain ⟨-, -, hbody⟩ := htyped
    obtain ⟨inner, out, hagrees, hstmt⟩ := hbody.occurs hs
    rcases hstmt.exprs he with ⟨t, ht⟩ | ⟨o', rfl, hcall⟩
    · exact inside ⟨hagrees.registry, hagrees.functions⟩ ht hoccurs fun call hcall =>
        .body hf hs he hcall
    · -- a procedure call, or an expression in one of its arguments
      cases hoccurs with
      | self => exact .inr (.procedure hf hs ⟨hagrees.registry, hagrees.functions⟩ hcall)
      | inside hc hoccurs =>
        obtain ⟨t, ht⟩ := hcall.children hc
        exact inside ⟨hagrees.registry, hagrees.functions⟩ ht hoccurs fun call hcall =>
          .body hf hs he (.inside hc hcall)

/--
**What the acceptance of a module guarantees.**  In a well-formed tree, every expression has a
recorded type, but for the calls of procedures that are statements and the names of types in
conversions.  And the recorded types are a derivation: at every node of the module they are as the
rule for that node asks.
-/
theorem accepted_module {s : Settings} {p : Place} {t : Tree} {m : Module} {c : Checked}
    (hlimit : 1 ≤ s.maxErrors) (hk : t.keysDistinct = true) (hw : t.wellFormed = true)
    (hm : Module.ofTree? p t = some m) (hcheck : m.check s = .ok c)
    (haccepted : c.accepted = true) :
    (∀ q cls, (q, cls) ∈ t.nodes p → cls.category? = some .expression →
      ∃ e o, m.Mentions e ∧ e.origin? = some o ∧ o.place = q ∧
        ((∃ τ, Fact.typeAt? q c.facts = some τ) ∨ m.Valueless (Fact.table c.facts) c.env e)) ∧
    ModuleTyped (Fact.table c.facts) c.env m := by
  have htyped : ModuleTyped (Fact.table c.facts) c.env m :=
    (Module.check_establish hlimit hcheck haccepted).table (Module.places_nodup hk hm)
  refine ⟨fun q cls hq hcls => ?_, htyped⟩
  obtain ⟨e, o, he, ho, rfl⟩ := Module.complete hw hm (q, cls) hq hcls
  exact ⟨e, o, he, ho, rfl, htyped.mentions he ho⟩

/--
A module with an alias `Age` of `int`, the variable `limit: Age = Age(18)`, a procedure `log`, and a
function that calls it: `func adult(age: Age) -> bool: log(1); return age >= limit`.
-/
def agesTree : Tree :=
  let name (s : String) : Tree := .node .identifier .nowhere [.text s]
  let number (n : Int) : Tree := .node .literal .nowhere [.int n, .literalKind .int]
  let type (s : String) : Tree := .node .simpleType .nowhere [.text s]
  let param (s t : String) : Tree := .node .parameter .nowhere [.text s, type t]
  let body (ss : List Tree) : Tree := .node .block .nowhere [.list ss]
  let call (f : String) (arg : Tree) : Tree := .node .functionCall .nowhere [name f, .list [arg]]
  let log : Tree := .node .functionDef .nowhere
    [.text "log", .list [param "n" "int"], .null, body [.node .passStatement .nowhere []], .null]
  let adult : Tree := .node .functionDef .nowhere
    [.text "adult", .list [param "age" "Age"], type "bool",
     body
       [.node .expressionStatement .nowhere [call "log" (number 1)],
        .node .returnStatement .nowhere
          [.node .binaryOp .nowhere [name "age", .operator .ge, name "limit"]]],
     .null]
  .node .compilationUnit .nowhere
    [.text "ages", .list [.node .typeAliasDecl .nowhere [.text "Age", type "int"]],
     .list [.node .varDecl .nowhere [.text "limit", type "Age", call "Age" (number 18)]],
       .list [log, adult]]

/-- The module of that tree. -/
def ages : Module := (Module.ofTree? (.root 0) agesTree).get rfl

/-- The module is accepted, so its recorded types are a derivation that leaves out no value. -/
theorem accepted_ages : ∃ c, ages.check {} = .ok c ∧ c.accepted = true ∧
    (∀ q cls, (q, cls) ∈ agesTree.nodes (.root 0) → cls.category? = some .expression →
      ∃ e o, ages.Mentions e ∧ e.origin? = some o ∧ o.place = q ∧
        ((∃ τ, Fact.typeAt? q c.facts = some τ) ∨ ages.Valueless (Fact.table c.facts) c.env e)) ∧
    ModuleTyped (Fact.table c.facts) c.env ages := by
  have hchecked : (ages.check {}).toOption.map Checked.accepted = some true := by decide +kernel
  obtain ⟨c, hcheck, haccepted⟩ : ∃ c, ages.check {} = .ok c ∧ c.accepted = true := by
    rcases hcheck : ages.check {} with e | c
    · rw [hcheck] at hchecked
      cases hchecked
    · rw [hcheck] at hchecked
      exact ⟨c, rfl, Option.some.inj hchecked⟩
  exact ⟨c, hcheck, haccepted, accepted_module (by decide) rfl rfl rfl hcheck haccepted⟩

end TreeTyping
