/-
Every declaration is accounted for.

A check reports errors in four passes: types are registered, then functions, then the variables are
taken in and last the bodies.  The accounts of a check charge each error to an entry of the module.
They come out even: an entry of the types is charged with one error unless its type is registered;
an entry of the functions is charged with one when no signature is recorded for it, and otherwise
its body is checked and adds one at most; a variable adds one at most; and nothing is reported that
is charged to no entry.

Bodies are charged to the entry that has the place of their function.  In a module that was read
from a tree no two functions have the same place.
-/
import TreeTyping.Proofs.Check.Module
import TreeTyping.Proofs.Check.Outcomes
import TreeTyping.Proofs.Ledger
import TreeTyping.Proofs.Registry.Accounting

namespace TreeTyping

open List TreeTyping.Except

/-! ### Signatures -/

namespace Signatures

/-- Every entry has been registered, with a body to be checked, or is charged with an error. -/
structure Signed (functions : List (Entry FunctionDef)) (kept : List Nat) (bodies : List Body)
    (l : Ledger) : Prop where
  keeps : List.Forall₂ (fun i b => functions[i]? = some (.proper b.function)) kept bodies
  divided : Divided kept l functions.length
  errors : ∀ e ∈ l, e.2.isError = true

theorem Signed.keeps_append {functions : List (Entry FunctionDef)} {kept : List Nat}
    {bodies : List Body}
    {l : Ledger} (h : Signed functions kept bodies l) (entry : Entry FunctionDef) :
    List.Forall₂ (fun i b => (functions ++ [entry])[i]? = some (.proper b.function))
      kept bodies := by
  refine h.keeps.imp fun i b hb => ?_
  rw [getElem?_append_left (List.getElem?_eq_some_iff.1 hb).1, hb]

/-- **Registering functions charges those that are not registered**, each with one error. -/
theorem run_signed {r : Registry} {functions : List (Entry FunctionDef)} {s : Signatures}
    (h : run r functions = .ok s) :
    ∃ l, Charged Signatures.found ownPosition step { registry := r } functions s l ∧
      s.registry.bindings = r.bindings ∧ ∃ kept, Signed functions kept s.bodies l := by
  refine charged_of_foldlM (P := fun done s l => s.registry.bindings = r.bindings ∧
    ∃ kept, Signed done kept s.bodies l) ?_ ⟨rfl, [], .nil, .nil, forall_mem_nil _⟩ h
  rintro done entry rest s s' l - ⟨hnames, kept, hsigned⟩ hstep
  obtain ⟨f, rfl, hregister⟩ | ⟨d, hd, rfl⟩ := step_cases hstep
  · obtain ⟨hfound, signature, added, -, hadd, rfl⟩ := register_eq_ok hregister
    obtain ⟨hbindings, hbodies, -⟩ := add_eq_ok hadd
    refine ⟨[], by rw [hfound, append_nil], hbindings.trans hnames, kept ++ [done.length], ?_⟩
    rw [hbodies]
    refine ⟨rel_append (hsigned.keeps_append _) (.cons getElem?_concat_length .nil), ?_, ?_⟩
    · show Divided _ (l ++ []) _
      rw [append_nil, length_append]
      exact hsigned.divided.keep
    · exact forall_mem_append.2 ⟨hsigned.errors, forall_mem_nil _⟩
  · refine ⟨[d], rfl, hnames, kept, hsigned.keeps_append _, ?_, ?_⟩
    · rw [length_append]
      exact hsigned.divided.charge d
    · exact forall_mem_append.2 ⟨hsigned.errors, forall_mem_singleton.2 hd⟩

end Signatures

/-! ### Variables and bodies -/

namespace Progress

/-- What has been reported. -/
def reported (p : Progress) : List Diagnostic := p.collector.found

theorem foldlM_takeVariable {vars : List (Entry VarDecl)} {p : Progress} {last : Scopes}
    {outcomes : List BodyOutcome} (h : variableOutcomes p.env vars = .ok (last, outcomes)) :
    ∃ q, vars.foldlM takeVariable p = .ok q ∧ Took p outcomes 0 q := by
  induction vars generalizing p outcomes with
  | nil =>
    cases h
    exact ⟨p, rfl, .nothing rfl rfl rfl⟩
  | cons entry rest ih =>
    obtain ⟨scopes, o, others, ho, hothers, rfl⟩ := variableOutcomes_cons.1 h
    obtain ⟨next, hnext, henv, htook⟩ := takeVariable_of_outcome ho
    obtain ⟨q, hq, htook'⟩ := ih (p := next) (henv ▸ hothers)
    refine ⟨q, ?_, htook.cons htook'⟩
    rw [foldlM_cons, hnext]
    exact hq

/-- Checks a body and takes in its outcome. -/
def checkAndTake (warn : Bool) (p : Progress) (b : Body) : Except Failure Progress :=
  (checkBody p.env warn b).map p.takeBody

theorem foldlM_checkAndTake {warn : Bool} {bs : List Body} {p : Progress}
    {outcomes : List BodyOutcome} (h : bs.mapM (checkBody p.env warn) = .ok outcomes) :
    ∃ q, bs.foldlM (checkAndTake warn) p = .ok q ∧ Took p outcomes 0 q := by
  induction bs generalizing p outcomes with
  | nil =>
    cases h
    exact ⟨p, rfl, .nothing rfl rfl rfl⟩
  | cons b rest ih =>
    obtain ⟨o, others, ho, hothers, rfl⟩ := mapM_cons_eq_ok.1 h
    obtain ⟨q, hq, htook⟩ := ih (p := p.takeBody o) hothers
    refine ⟨q, ?_, (p.takeBody_took o).cons htook⟩
    rw [foldlM_cons, checkAndTake, ho]
    exact hq

theorem takeVariable_once {p p' : Progress} {entry : Entry VarDecl}
    (h : p.takeVariable entry = .ok p') :
    ∃ new, p'.reported = p.reported ++ new ∧ (new.filter Diagnostic.isError).length ≤ 1 := by
  obtain ⟨scopes, o, ho, -, htook⟩ := takeVariable_eq_ok h
  refine ⟨o.found, ?_, variableOutcome_errors ho⟩
  rw [reported, htook.collector, foundIn_cons, foundIn_nil, append_nil]
  rfl

theorem checkAndTake_once {warn : Bool} {p p' : Progress} {b : Body}
    (h : p.checkAndTake warn b = .ok p') :
    ∃ new, p'.reported = p.reported ++ new ∧ (new.filter Diagnostic.isError).length ≤ 1 := by
  obtain ⟨o, ho, rfl⟩ := map_eq_ok.1 h
  exact ⟨o.found, rfl, checkBody_errors ho⟩

/-- **Taking in variables charges each of them with one error at most.** -/
theorem takeVariables_charged {vars : List (Entry VarDecl)} {p p' : Progress}
    (h : takeVariables vars p = .ok p') :
    ∃ n q l, Charged reported ownPosition takeVariable p (vars.take n) q l ∧ p'.collector =
      q.collector ∧ (∀ i ∈ l.positions, i < vars.length) ∧ ∀ i, l.errorsAt i ≤ 1 := by
  obtain ⟨n, last, outcomes, houtcomes, -, htook, -⟩ := takeVariables_took h
  obtain ⟨q, hq, htook'⟩ := foldlM_takeVariable houtcomes
  obtain ⟨l, hcharged, hpositions, herrors⟩ :=
    charged_once ownPosition (fun _ _ _ => takeVariable_once) hq
  rw [mapIdx_ownPosition] at hpositions herrors
  refine ⟨n, q, l, hcharged, htook.collector.trans htook'.collector.symm,
    fun i hi => ?_, fun i => ?_⟩
  · have hlt := mem_range.1 (hpositions hi)
    rw [length_take] at hlt
    omega
  · exact (herrors i).trans (nodup_iff_count_le_one.1 nodup_range i)

/-- **Taking in bodies charges each owner with one error for each of its bodies at most.** -/
theorem bodies_charged {s : Settings} {bs : List Body} {p p' : Progress}
    (h : bodies s bs p = .ok p') (owner : Body → Nat) :
    ∃ k q l, Charged reported (fun _ b => owner b) (checkAndTake s.warnUnreachable)
      p (bs.take k) q l ∧
      p'.collector = q.collector ∧ l.positions ⊆ bs.map owner ∧
        ∀ i, l.errorsAt i ≤ (bs.map owner).count i := by
  obtain ⟨-, k, outcomes, houtcomes, htook, -⟩ := bodies_took h
  obtain ⟨q, hq, htook'⟩ := foldlM_checkAndTake houtcomes
  obtain ⟨l, hcharged, hpositions, herrors⟩ :=
    charged_once (fun _ b => owner b) (fun _ _ _ => checkAndTake_once) hq
  rw [mapIdx_of_item] at hpositions herrors
  have htaken : ((bs.take k).map owner).Sublist (bs.map owner) := (take_sublist k bs).map owner
  refine ⟨k, q, l, hcharged, htook.collector.trans htook'.collector.symm,
    fun i hi => htaken.subset (hpositions hi), fun i => ?_⟩
  exact (herrors i).trans (htaken.count_le i)

end Progress

/-! ### Accounts of a check -/

namespace Module

/-- The position of the entry whose function has the place. -/
def entryAt (m : Module) (place : Place) :
    Nat := positionOf (fun f => f.origin.place == place) m.functions

/-- A signature is recorded for the function of an entry, and its body is to be checked. -/
def SignedAt (m : Module) (c : Checked) (i : Nat) : Prop :=
  ∃ f, m.functions[i]? = some (.proper f) ∧ ∃ b ∈ c.bodies, b.function.origin.place = f.origin.place

/-- What the passes of a check report, charged to the entries of a module. -/
structure Accounts where
  /-- What the registration of types reports, charged to entries of the types. -/
  types : Ledger
  /-- What the registration of functions reports, charged to entries of the functions. -/
  signatures : Ledger
  /-- What the variables report, charged to entries of the variables. -/
  vars : Ledger
  /-- What the bodies report, charged to entries of the functions. -/
  bodies : Ledger

/-- A check, pass by pass, and what each pass reports, charged to the entries it is about. -/
inductive Accounted (s : Settings) (m : Module) (c : Checked) : Accounts → Prop
  | mk {r : Registration} {f : Signatures} {p p₁ q q₁ : Progress} {n k : Nat}
      {types signatures vars bodies : Ledger}
      (htypes : Registration.Accounted m.types r types)
      (hsignatures : Charged Signatures.found ownPosition Signatures.step { registry := r.registry }
        m.functions f signatures)
      (hdeclarations : m.declarations s = .ok (p, c.bodies))
      (hvars : Charged Progress.reported ownPosition Progress.takeVariable p (m.vars.take n) q vars)
      (htaken : Progress.takeVariables m.vars p = .ok p₁)
      (hstop : p₁.collector = q.collector)
      (hbodies : Charged Progress.reported (fun _ b => m.entryAt b.function.origin.place)
        (Progress.checkAndTake s.warnUnreachable) p₁.close (c.bodies.take k) q₁ bodies)
      (hend : c.collector = q₁.collector) : Accounted s m c ⟨types, signatures, vars, bodies⟩

/-- The accounts come out even. -/
structure Accounts.Balanced (m : Module) (c : Checked) (a : Accounts) : Prop where
  /-- Nothing is reported that is not in the accounts. -/
  diagnostics : c.diagnostics =
    a.types.diagnostics ++ a.signatures.diagnostics ++ a.vars.diagnostics ++ a.bodies.diagnostics
  /-- An entry of the types is charged with one error, or its type is registered. -/
  types : Registration.Balanced m.types c.env.registry a.types
  /-- An entry is charged at registration exactly when no signature is recorded for it. -/
  signatures : ∀ i < m.functions.length, a.signatures.errorsAt i = 1 ↔ ¬m.SignedAt c i
  /-- For a body only such an entry is charged that a signature is recorded for. -/
  bodies : ∀ i ∈ a.bodies.positions, m.SignedAt c i
  /-- An entry of the functions is charged with one error at most. -/
  functions : ∀ i, a.signatures.errorsAt i + a.bodies.errorsAt i ≤ 1
  functionPositions : ∀ i ∈ a.signatures.positions ++ a.bodies.positions, i < m.functions.length
  /-- An entry of the variables is charged with one error at most. -/
  vars : ∀ i, a.vars.errorsAt i ≤ 1
  varPositions : ∀ i ∈ a.vars.positions, i < m.vars.length

theorem place_of_entry {p : Place} {t : Tree} {m : Module} (hm : Module.ofTree? p t = some m)
    {i : Nat} {f : FunctionDef} (hf : m.functions[i]? = some (.proper f)) :
    f.origin.place = (p.field "functions").item i := by
  unfold Module.ofTree? at hm
  split at hm
  · cases hm
    rw [getElem?_mapIdx, Option.map_eq_some_iff] at hf
    obtain ⟨t, -, hread⟩ := hf
    unfold FunctionDef.ofTree at hread
    split at hread
    · next g hg =>
        cases hread
        unfold FunctionDef.ofTree? at hg
        split at hg
        · cases hg
          rfl
        · cases hg
    · cases hread
  · cases hm

/-- No two entries of a module that was read from a tree have functions at the same place. -/
theorem entry_unique {p : Place} {t : Tree} {m : Module} (hm : Module.ofTree? p t = some m)
    {i j : Nat}
    {f g : FunctionDef} (hf : m.functions[i]? = some (.proper f))
    (hg : m.functions[j]? = some (.proper g))
    (hplace : f.origin.place = g.origin.place) : i = j := by
  rw [place_of_entry hm hf, place_of_entry hm hg] at hplace
  exact Step.item.inj (List.cons.inj (congrArg Place.path hplace)).1

theorem entryAt_eq {p : Place} {t : Tree} {m : Module} (hm : Module.ofTree? p t = some m) {i : Nat}
    {f : FunctionDef} (hf : m.functions[i]? = some (.proper f)) : m.entryAt f.origin.place = i := by
  refine positionOf_eq hf (beq_self_eq_true _) fun j g hj hg => ?_
  rw [beq_eq_false_iff_ne]
  intro hplace
  have heq := entry_unique hm hg hf hplace
  omega

section Signed

variable {p : Place} {t : Tree} {m : Module} {c : Checked} {kept : List Nat} {l : Ledger} {i : Nat}

theorem signedAt_iff (hm : Module.ofTree? p t = some m)
    (h : Signatures.Signed m.functions kept c.bodies l) : m.SignedAt c i ↔ i ∈ kept := by
  constructor
  · rintro ⟨f, hf, b, hb, hplace⟩
    obtain ⟨j, hj, hbody⟩ := forall₂_exists h.keeps.flip hb
    rwa [← entry_unique hm hbody hf hplace]
  · intro hi
    obtain ⟨b, hb, hbody⟩ := forall₂_exists h.keeps hi
    exact ⟨b.function, hbody, b, hb, rfl⟩

theorem errorsAt_signatures (hm : Module.ofTree? p t = some m)
    (h : Signatures.Signed m.functions kept c.bodies l)
    (hi : i < m.functions.length) : l.errorsAt i = 1 ↔ ¬m.SignedAt c i := by
  rw [signedAt_iff hm h, Ledger.errorsAt_eq_count h.errors]
  by_cases hkept : i ∈ kept
  · simp [hkept, h.divided.count_of_kept hkept]
  · simp [hkept, h.divided.count_of_not_kept hi hkept]

theorem entries_of_bodies (hm : Module.ofTree? p t = some m) {bodies : List Body}
    (h : Signatures.Signed m.functions kept bodies l) :
    bodies.map (fun b => m.entryAt b.function.origin.place) = kept := by
  have heach : List.Forall₂ Eq kept (bodies.map fun b => m.entryAt b.function.origin.place) :=
    forall₂_map_right_iff.2 (h.keeps.imp fun i b hb => (entryAt_eq hm hb).symm)
  rw [forall₂_eq_eq_eq] at heach
  exact heach.symm

end Signed

theorem check_bindings {m : Module} {s : Settings} {p p₁ p₂ : Progress} {bs : List Body}
    (hvars : Progress.takeVariables m.vars p = .ok p₁)
    (hbodies : Progress.bodies s bs p₁.close = .ok p₂) :
    (m.finish bs p₂).env.registry.bindings = p.env.registry.bindings := by
  obtain ⟨n, last, outcomes, -, henv, -, -⟩ := Progress.takeVariables_took hvars
  rw [finish_env, (Progress.bodies_took hbodies).1, Progress.close, henv]
  rfl

/--
**Every declaration is accounted for.**  What a check reports is charged to the entries of the
module, and the accounts come out even.
-/
theorem check_balanced {p : Place} {t : Tree} {m : Module} (hm : Module.ofTree? p t = some m)
    {s : Settings}
    {c : Checked} (h : m.check s = .ok c) : ∃ a, m.Accounted s c a ∧ a.Balanced m c := by
  obtain ⟨start, bs, p₁, p₂, hdeclarations, hvars, hbodies, rfl⟩ := check_eq_ok.1 h
  have hregistered := hdeclarations
  obtain ⟨types, htypes, hregistered⟩ := bind_eq_ok.1 hregistered
  obtain ⟨signatures, hsignatures, hregistered⟩ := bind_eq_ok.1 hregistered
  cases hregistered
  obtain ⟨lt, htypesAccounted, htypesFound, htypesBalanced⟩ := Registration.run_balanced htypes
  obtain ⟨ls, hsignaturesCharged, hnames, kept, hsigned⟩ := Signatures.run_signed hsignatures
  obtain ⟨n, q, lv, hvarsCharged, hstop, hvarPositions, hvarErrors⟩ :=
    Progress.takeVariables_charged hvars
  obtain ⟨k, q₁, lb, hbodiesCharged, hend, hbodyPositions, hbodyErrors⟩ :=
    Progress.bodies_charged hbodies fun b => m.entryAt b.function.origin.place
  have hcollector : (m.finish signatures.bodies p₂).collector = q₁.collector :=
    (finish_collector m _ p₂).trans hend
  rw [entries_of_bodies hm hsigned] at hbodyPositions hbodyErrors
  refine ⟨⟨lt, ls, lv, lb⟩, .mk htypesAccounted hsignaturesCharged hdeclarations hvarsCharged hvars
    hstop hbodiesCharged hcollector, ?_, ?_, ?_, ?_, ?_, ?_, hvarErrors, hvarPositions⟩
  · have hreported : q₁.reported = p₁.reported ++ lb.diagnostics := hbodiesCharged.found_eq
    rw [Checked.diagnostics, hcollector]
    show q₁.reported = _
    rw [hreported, Progress.reported, hstop]
    show q.reported ++ _ = _
    rw [hvarsCharged.found_eq, Progress.reported, htypesFound, hsignaturesCharged.found_eq]
    rfl
  · exact htypesBalanced.congr ((check_bindings hvars hbodies).trans hnames)
  · exact fun i hi => errorsAt_signatures hm hsigned hi
  · exact fun i hi => (signedAt_iff hm hsigned).2 (hbodyPositions hi)
  · intro i
    have hdivided := hsigned.divided.count_le_one i
    have hbody := hbodyErrors i
    show ls.errorsAt i + lb.errorsAt i ≤ 1
    rw [Ledger.errorsAt_eq_count hsigned.errors]
    omega
  · intro i hi
    refine hsigned.divided.lt_of_mem (mem_append.2 ?_)
    rcases mem_append.1 hi with hi | hi
    · exact .inr hi
    · exact .inl (hbodyPositions hi)

/--
A module in which something is wrong with most entries.  Its types are `Item`, `Item` once more and
an alias of a type that is missing; of its variables the second has a missing type; its functions
are `total`, which returns a variable that there is not, `total` once more, and a statement.
-/
def stockTree : Tree :=
  let type (s : String) : Tree := .node .simpleType .nowhere [.text s]
  let struct (s : String) : Tree := .node .structDecl .nowhere
    [.text s, .list [.node .fieldDecl .nowhere [.text "price", type "int"]]]
  let one : Tree := .node .literal .nowhere [.int 1, .literalKind .int]
  let var (s t : String) : Tree := .node .varDecl .nowhere [.text s, type t, one]
  let result : Tree := .node .returnStatement .nowhere [.node .identifier .nowhere [.text "sum"]]
  let total : Tree := .node .functionDef .nowhere
    [.text "total", .list [], type "int", .node .block .nowhere [.list [result]], .null]
  .node .compilationUnit .nowhere
    [.text "stock", .list [struct "Item", struct "Item",
      .node .typeAliasDecl .nowhere [.text "Lost", type "Missing"]],
     .list [var "count" "int", var "limit" "Missing"],
     .list [total, total, .node .passStatement .nowhere []]]

/-- The module of that tree. -/
def stock : Module := (Module.ofTree? (.root 0) stockTree).get rfl

/-- Six errors are accounted for: two types, a variable, two functions, and the body of a third. -/
theorem check_balanced_stock : ∃ c, stock.check {} = .ok c ∧ c.collector.errorCount = 6 ∧
    c.env.registry.userTypes.length = 1 ∧ c.bodies.length = 1 ∧
    ∃ a, stock.Accounted {} c a ∧ a.Balanced stock c := by
  have hcounts : (stock.check {}).toOption.map (fun c =>
      (c.collector.errorCount, c.env.registry.userTypes.length, c.bodies.length)) =
        some (6, 1, 1) := by
    decide +kernel
  obtain ⟨c, hc, hcounts⟩ := Option.map_eq_some_iff.1 hcounts
  obtain ⟨herrors, htypes, hbodies⟩ : c.collector.errorCount = 6 ∧
    c.env.registry.userTypes.length = 1 ∧
      c.bodies.length = 1 := by
    simpa using hcounts
  have hcheck := toOption_eq_some.1 hc
  exact ⟨c, hcheck, herrors, htypes, hbodies, check_balanced (t := stockTree) rfl hcheck⟩

end Module

end TreeTyping
