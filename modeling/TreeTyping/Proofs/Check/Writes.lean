/-
The history of every variable.

A check that returns, whether it accepts the module or not, keeps the writes to every variable in
the order of the module: first the one that the variable is declared with, if it is declared with
one, and then the assignments to it, function by function and from the first statement of a body to
the last.  The variables that a check has come to the end of are those with a type, and the
assignments are those whose sides have types that go together.  Names are resolved by the text
alone: what is visible in a function are the variables of the module that have a type, and in front
of them what the function declares itself.
-/
import TreeTyping.Proofs.Check.Taken
import TreeTyping.Proofs.Syntax.Reading
import TreeTyping.Proofs.Typing.Writes

namespace TreeTyping

open List
open Progress (BodyOutcome checkBody variableScopes variableOutcome variableOutcomes)

/-! ### Sites of a module -/

/-- The names visible behind an entry of a module's variables; one without a type is not. -/
def Visible.withVariable (table : TypeTable) (v : Visible) : Entry VarDecl → Visible
  | .proper d => if (table d.origin.place).isSome then (d.name, d.origin.place) :: v else v
  | .foreign _ => v

/-- The names that are visible where the functions of a module begin. -/
def Module.globals (table : TypeTable) (m : Module) :
    Visible := m.vars.foldl (Visible.withVariable table) []

/-- The sites of a module: its variables, and then those in its functions. -/
def Module.sites (table : TypeTable) (m : Module) : List Site :=
  m.vars.flatMap VarDecl.sitesOfEntry ++ m.functions.flatMap
    (FunctionDef.sitesOfEntry (m.globals table))

namespace Visible

variable {table other : TypeTable}

theorem withVariable_places (vars : List (Entry VarDecl)) (v : Visible) :
    ∀ q ∈ Visible.places (vars.foldl (withVariable table) v),
      q ∈ v.places ∨ q ∈ vars.flatMap VarDecl.placesOfEntry := by
  induction vars generalizing v with
  | nil => exact fun q hq => .inl hq
  | cons entry rest ih =>
    have hentry : ∀ q ∈ (v.withVariable table entry).places, q ∈ v.places ∨
        q ∈ VarDecl.placesOfEntry entry := by
      intro q hq
      cases entry with
      | proper d =>
        rw [withVariable] at hq
        split at hq
        · rcases mem_cons.1 hq with rfl | hq
          · exact .inr mem_cons_self
          · exact .inl hq
        · exact .inl hq
      | foreign f => exact .inl hq
    intro q hq
    rw [flatMap_cons, mem_append, ← or_assoc]
    exact (ih _ q hq).imp_left (hentry q)

theorem withVariable_congr {vars : List (Entry VarDecl)} {v : Visible}
    (h : ∀ q ∈ vars.flatMap VarDecl.placesOfEntry, table q = other q) :
    vars.foldl (withVariable table) v = vars.foldl (withVariable other) v := by
  refine foldl_ext _ _ v fun v entry hentry => ?_
  cases entry with
  | proper d =>
    have hd : table d.origin.place = other d.origin.place :=
      h _ (mem_flatMap.2 ⟨_, hentry, mem_cons_self⟩)
    rw [withVariable, withVariable, hd]
  | foreign f => rfl

theorem withVariable_untyped {vars : List (Entry VarDecl)} {v : Visible}
    (h : ∀ q ∈ vars.flatMap VarDecl.placesOfEntry, table q = none) :
    vars.foldl (withVariable table) v = v := by
  induction vars with
  | nil => rfl
  | cons entry rest ih =>
    have hrest := ih fun q hq => h q (mem_append_right _ hq)
    cases entry with
    | proper d =>
      have hd : table d.origin.place = none := h _ (mem_append_left _ mem_cons_self)
      rw [foldl_cons, withVariable, hd]
      exact hrest
    | foreign f => exact hrest

end Visible

section Sited

variable {α : Type} {v : Visible} {places : α → List Place} {sites : α → List Site}

theorem SitesIn.flatMap {l : List α} (h : ∀ a, SitesIn v (places a) (sites a)) :
    SitesIn v (l.flatMap places) (l.flatMap sites) := by
  induction l with
  | nil => exact .nil
  | cons a rest ih => exact (h a).beside ih

/--
Some entries of a list have left facts, one after the other, and the others are not reached:
together the facts are about the whole list.
-/
theorem Traced.sublist {r : Registry} {l all : List α} {outcomes : List BodyOutcome}
    (hsub : l.Sublist all) (hin : ∀ a, SitesIn v (places a) (sites a))
    (h : List.Forall₂ (fun a o => Traced r o.facts (places a) (sites a)) l outcomes) :
    Traced r (factsIn outcomes) (all.flatMap places) (all.flatMap sites) := by
  induction hsub generalizing outcomes with
  | slnil =>
    cases h
    exact Inference.traced_nothing
  | cons a _ ih => exact (Traced.unreached (hin a)).append (ih h)
  | cons_cons a _ ih =>
    obtain ⟨o, others, ho, hothers, rfl⟩ := forall₂_cons_left_iff.1 h
    exact ho.append (ih hothers)

end Sited

theorem VarDecl.sitesOfEntry_in (v : Visible) (entry : Entry VarDecl) :
    SitesIn v (placesOfEntry entry) (sitesOfEntry entry) := by
  cases entry with
  | proper d => exact .declaration d mem_cons_self
  | foreign f => exact .nil

theorem FunctionDef.sitesOfEntry_in (v : Visible) (entry : Entry FunctionDef) :
    SitesIn v (placesOfEntry entry) (sitesOfEntry v entry) := by
  cases entry with
  | proper f => exact f.sites_in v
  | foreign f => exact .nil

theorem Module.sites_in (table : TypeTable) (m : Module) : SitesIn [] m.places (m.sites table) :=
  (SitesIn.flatMap (VarDecl.sitesOfEntry_in [])).append
    (SitesIn.flatMap (FunctionDef.sitesOfEntry_in _)) (Visible.withVariable_places m.vars [])

/-! ### Variables -/

namespace Progress

variable {env : Env} {v : Visible}

theorem variableOutcomes_traced {vars : List (Entry VarDecl)} {last : Scopes}
    {outcomes : List BodyOutcome} (h : variableOutcomes env vars = .ok (last, outcomes)) :
    List.Forall₂ (fun entry o => Traced env.registry o.facts (VarDecl.placesOfEntry entry)
      (VarDecl.sitesOfEntry entry)) vars outcomes := by
  induction vars generalizing env outcomes with
  | nil =>
    cases h
    exact .nil
  | cons entry rest ih =>
    obtain ⟨scopes, o, others, ho, hothers, rfl⟩ := variableOutcomes_cons.1 h
    have hrest := ih hothers
    refine .cons ?_ hrest
    rw [variableOutcome_facts ho]
    cases entry with
    | proper d => exact Inference.declare_traced
    | foreign f => exact Inference.traced_nothing

theorem variableOutcome_resolves {entry : Entry VarDecl} {scopes : Scopes} {o : BodyOutcome}
    {table : TypeTable}
    (h : variableOutcome env entry = .ok (scopes, o)) (hv : env.scopes.Resolves v)
    (hnodup : (VarDecl.placesOfEntry entry).Nodup)
    (hagrees : AgreesOn table o.facts (VarDecl.placesOfEntry entry)) :
    scopes.Resolves (v.withVariable table entry) := by
  cases entry with
  | foreign f =>
    cases h
    exact hv
  | proper d =>
    have htyped : (Fact.typeAt? d.origin.place (Inference.declare env d).log).isSome = true ↔ _ :=
      Inference.declare_typed (nodup_cons.1 hnodup).1
    rw [variableOutcome_facts h] at hagrees
    have htable : table d.origin.place = Fact.typeAt? d.origin.place
        (Inference.declare env d).log :=
      hagrees _ mem_cons_self
    rw [← htable] at htyped
    unfold variableOutcome at h
    dsimp only [variableScopes] at h
    split at h
    · next hresult =>
        cases h
        rw [Visible.withVariable, if_pos (htyped.2 ⟨_, hresult⟩)]
        exact Inference.declare_resolves hv hresult
    · next hresult =>
        cases h
        rw [Visible.withVariable, if_neg fun hsome => ?_]
        · exact hv
        · obtain ⟨scopes, hok⟩ := htyped.1 hsome
          rw [hresult] at hok
          cases hok
    · cases h

theorem variableOutcomes_resolves {vars : List (Entry VarDecl)} {last : Scopes}
    {outcomes : List BodyOutcome}
    {table : TypeTable} (h : variableOutcomes env vars = .ok (last, outcomes))
    (hv : env.scopes.Resolves v)
    (hnodup : (vars.flatMap VarDecl.placesOfEntry).Nodup)
    (hagrees : AgreesOn table (factsIn outcomes) (vars.flatMap VarDecl.placesOfEntry)) :
    last.Resolves (vars.foldl (Visible.withVariable table) v) := by
  induction vars generalizing env v outcomes with
  | nil =>
    cases h
    exact hv
  | cons entry rest ih =>
    have htraced := variableOutcomes_traced h
    obtain ⟨scopes, o, others, ho, hothers, rfl⟩ := variableOutcomes_cons.1 h
    obtain ⟨hentry, hrest⟩ := forall₂_cons.1 htraced
    have hrest := Traced.sublist (List.Sublist.refl rest) (VarDecl.sitesOfEntry_in []) hrest
    rw [flatMap_cons] at hnodup hagrees
    obtain ⟨hfirst, hlater, -⟩ := nodup_append'.1 hnodup
    obtain ⟨hagrees, hagrees'⟩ := hagrees.append hentry.within hrest.within hnodup
    have hscopes : (env.withScopes scopes).scopes.Resolves (v.withVariable table entry) :=
      variableOutcome_resolves ho hv hfirst hagrees
    exact ih hothers hscopes hlater hagrees'

end Progress

/-- Nothing is visible in the beginning. -/
theorem Scopes.resolves_nil : ({} : Scopes).Resolves [] := fun _ => rfl

theorem Scopes.Resolves.closed {s : Scopes} {v : Visible} (h : s.Resolves v) :
    s.closed.Resolves v := by
  intro name
  rw [closed_lookup?]
  exact h name

/-! ### Bodies -/

theorem Progress.bodies_traced {env : Env} {v : Visible} {warn : Bool} {bs : List Body}
    {outcomes : List BodyOutcome}
    (h : bs.mapM (checkBody env warn) = .ok outcomes) (hv : env.scopes.Resolves v)
    (hshapes : ∀ b ∈ bs, b.signature.params.length = b.function.params.length ∧
      b.signature.receiver.isSome = b.function.receiver.isSome) :
    List.Forall₂ (fun entry o => Traced env.registry o.facts (FunctionDef.placesOfEntry entry)
      (FunctionDef.sitesOfEntry v entry)) (bs.map fun b => .proper b.function) outcomes := by
  induction bs generalizing outcomes with
  | nil =>
    cases h
    exact .nil
  | cons b rest ih =>
    obtain ⟨o, others, ho, hothers, rfl⟩ := mapM_cons_eq_ok.1 h
    obtain ⟨⟨hparams, hreceiver⟩, hrest⟩ := forall_mem_cons.1 hshapes
    refine .cons ?_ (ih hothers hrest)
    obtain ⟨remarks, hfacts, hremarks⟩ := checkBody_remarks ho
    have hbehind : Traced env.registry remarks [] [] := .remarks hremarks
    have htraced := (Inference.function_traced hv hparams hreceiver).append hbehind
    rw [append_nil, append_nil] at htraced
    rw [hfacts]
    exact htraced

/-! ### Checks -/

namespace Checked.Kept

variable {s : Settings} {m : Module} {c : Checked} {p : Progress} {bs : List Body} {n k : Nat}
  {last : Scopes} {vars bodies : List BodyOutcome}

/-- Behind the variables that are taken in, the module's variables that have types are visible. -/
theorem resolves (h : c.Kept s m p bs n k last vars bodies)
    (hnodup : (m.vars.flatMap VarDecl.placesOfEntry).Nodup) :
    last.Resolves (m.globals (Fact.table (factsIn vars))) := by
  have henrolled := Module.declarations_enrolled h.declarations
  have hwithin := (Traced.sublist (List.Sublist.refl _) (VarDecl.sitesOfEntry_in [])
    (Progress.variableOutcomes_traced h.vars)).within
  rw [← take_append_drop n m.vars, flatMap_append] at hnodup
  obtain ⟨htaken, -, hapart⟩ := nodup_append'.1 hnodup
  rw [Module.globals, ← take_append_drop n m.vars, foldl_append]
  have huntyped : ∀ q ∈ (m.vars.drop n).flatMap VarDecl.placesOfEntry, Fact.table
      (factsIn vars) q = none :=
    fun q hq => Fact.typeAt?_eq_none fun hmem => hapart (hwithin q hmem) hq
  rw [Visible.withVariable_untyped huntyped]
  refine Progress.variableOutcomes_resolves h.vars ?_ htaken fun q _ => rfl
  rw [henrolled.unscoped]
  exact Scopes.resolves_nil

/-- **The writes that a check keeps are those of the sites of the module.** -/
theorem traced (h : c.Kept s m p bs n k last vars bodies) (hnodup : m.places.Nodup) :
    Traced c.env.registry c.facts m.places (m.sites (Fact.table c.facts)) := by
  have henrolled := Module.declarations_enrolled h.declarations
  have hvars : Traced p.env.registry (factsIn vars) _ _ :=
    .sublist (take_sublist n m.vars) (VarDecl.sitesOfEntry_in [])
      (Progress.variableOutcomes_traced h.vars)
  have hresolves : (p.env.withScopes last.closed).scopes.Resolves
      (m.globals (Fact.table (factsIn vars))) :=
    (h.resolves (nodup_append'.1 hnodup).1).closed
  have hentries : ((bs.take k).map fun b => Entry.proper b.function).Sublist m.functions :=
    ((take_sublist k bs).map _).trans henrolled.entries
  have houtcomes := Progress.bodies_traced h.bodies hresolves fun b hb =>
    henrolled.shapes b (mem_of_mem_take hb)
  have hbodies : Traced p.env.registry (factsIn bodies) _ _ :=
    .sublist hentries (FunctionDef.sitesOfEntry_in _) houtcomes
  have hremarks : Traced p.env.registry p.facts [] [] := .remarks henrolled.remarks
  have hkept := hremarks.append (hvars.append hbodies)
  rw [← h.facts, ← h.registry] at hkept
  -- the functions record no types for the variables
  have hglobals : m.globals (Fact.table c.facts) = m.globals (Fact.table (factsIn vars)) := by
    refine Visible.withVariable_congr fun q hq => ?_
    have hagrees : AgreesOn (Fact.table c.facts) (p.facts ++ (factsIn vars ++ factsIn bodies))
        ([] ++ m.places) :=
      fun q _ => congrArg (Fact.typeAt? q) h.facts
    obtain ⟨-, hagrees⟩ := hagrees.append hremarks.within (hvars.append hbodies).within hnodup
    exact (hagrees.append hvars.within hbodies.within hnodup).1 q hq
  rw [Module.sites, hglobals]
  exact hkept

end Checked.Kept

/-! ### The writes to one variable -/

namespace Site

/-- The write that a site leaves to a variable as its declaration. -/
def declarationOf? (r : Registry) (table : TypeTable) (q : Place) : Site → Option Write
  | .declared d => if d.origin.place = q ∧ (table q).isSome = true then
      d.firstWrite? r table else none
  | .assigned _ => none

/-- The write that a site leaves to a variable as an assignment. -/
def assignmentTo? (r : Registry) (table : TypeTable) (q : Place) : Site → Option Write
  | .declared _ => none
  | .assigned a => if a.declaration? = some q then a.write? r table else none

variable {r : Registry} {table : TypeTable} {q : Place} {sites : List Site}

theorem event?_at (site : Site) :
    ((site.event? r table).bind fun entry => if entry.1 = q then some entry.2 else none) =
      (site.declarationOf? r table q).or (site.assignmentTo? r table q) := by
  cases site with
  | declared d =>
    rw [event?, declarationOf?, assignmentTo?, Option.or_none]
    by_cases hq : d.origin.place = q
    · subst hq
      by_cases htyped : (table d.origin.place).isSome = true
      · rw [if_pos htyped, if_pos ⟨rfl, htyped⟩]
        cases d.firstWrite? r table <;> simp
      · rw [if_neg htyped, if_neg fun h => htyped h.2]
        rfl
    · have hother : ¬(d.origin.place = q ∧ (table q).isSome = true) := fun h => hq h.1
      rw [if_neg hother]
      split
      · cases d.firstWrite? r table <;> simp [hq]
      · rfl
  | assigned a =>
    rw [event?, declarationOf?, assignmentTo?, Option.none_or]
    rcases a.declaration? with _ | q'
    · rfl
    · by_cases hq : q' = q
      · subst hq
        cases a.write? r table <;> simp
      · rw [if_neg fun h => hq (Option.some.inj h)]
        cases a.write? r table <;> simp [hq]

theorem declares?_of_declarationOf? {site : Site} {w : Write}
    (h : site.declarationOf? r table q = some w) : site.declares? = some q := by
  cases site with
  | declared d =>
    rw [declarationOf?] at h
    split at h
    · next hd => exact congrArg some hd.1
    · cases h
  | assigned a => cases h

theorem assigns?_of_assignmentTo? {site : Site} {w : Write}
    (h : site.assignmentTo? r table q = some w) : site.assigns? = some q := by
  cases site with
  | declared d => cases h
  | assigned a =>
    rw [assignmentTo?] at h
    split at h
    · next ha => exact ha
    · cases h

/-- Where no variable is declared behind an assignment to it, its declaration comes first. -/
theorem filterMap_event?
    (h : sites.Pairwise fun first later => ∀ q ∈ first.assigns?, later.declares? ≠ some q) :
    sites.filterMap (fun site => (site.declarationOf? r table q).or
      (site.assignmentTo? r table q)) =
      sites.filterMap (declarationOf? r table q) ++ sites.filterMap (assignmentTo? r table q) := by
  induction h with
  | nil => rfl
  | @cons site rest hsite _ ih =>
    rw [filterMap_cons, filterMap_cons, filterMap_cons, ih]
    rcases hassigned : site.assignmentTo? r table q with _ | w
    · rw [Option.or_none]
      cases site.declarationOf? r table q <;> rfl
    · have hdeclared : site.declarationOf? r table q = none := by
        cases site with
        | declared d => cases hassigned
        | assigned a => rfl
      have hrest : rest.filterMap (declarationOf? r table q) = [] := by
        refine filterMap_eq_nil_iff.2 fun later hlater =>
          Option.eq_none_iff_forall_ne_some.2 fun w' hw' => ?_
        exact hsite later hlater q (assigns?_of_assignmentTo? hassigned)
          (declares?_of_declarationOf? hw')
      rw [hdeclared, hrest]
      rfl

/-- A variable is declared once. -/
theorem filterMap_declarationOf? {d : VarDecl} (hd : .declared d ∈ sites)
    (hsites : (sites.filterMap declares?).Nodup) :
    sites.filterMap (declarationOf? r table d.origin.place) =
      (declarationOf? r table d.origin.place (.declared d)).toList := by
  obtain ⟨before, after, rfl⟩ := append_of_mem hd
  have hcons : (Site.declared d :: after).filterMap declares? = d.origin.place :: after.filterMap
    declares? := rfl
  rw [filterMap_append, hcons, nodup_middle] at hsites
  have hnew := (nodup_cons.1 hsites).1
  have hnone {l : List Site} (h : d.origin.place ∉ l.filterMap declares?) :
      l.filterMap (declarationOf? r table d.origin.place) = [] := by
    refine filterMap_eq_nil_iff.2 fun site hsite =>
      Option.eq_none_iff_forall_ne_some.2 fun w hw => ?_
    exact h (mem_filterMap.2 ⟨site, hsite, declares?_of_declarationOf? hw⟩)
  rw [filterMap_append, filterMap_cons, hnone fun h => hnew (mem_append_left _ h),
    hnone fun h => hnew (mem_append_right _ h)]
  cases declarationOf? r table d.origin.place (.declared d) <;> rfl

end Site

namespace Module

/-- The assignments to a variable in the functions of a module, in the order of the text. -/
def assignmentsTo (r : Registry) (table : TypeTable) (m : Module) (q : Place) : List Write :=
  (m.sites table).filterMap (Site.assignmentTo? r table q)

/-- The writes that are kept for a variable: its declaration, and behind it the assignments. -/
theorem writesAt_of_traced {r : Registry} {facts : List Fact} {m : Module}
    (h : Traced r facts m.places (m.sites (Fact.table facts))) (hnodup : m.places.Nodup)
    (q : Place) :
    Fact.writesAt q facts = (m.sites (Fact.table facts)).filterMap
      (Site.declarationOf? r (Fact.table facts) q) ++ m.assignmentsTo r (Fact.table facts) q := by
  have hordered := (m.sites_in (Fact.table facts)).ordered (disjoint_nil_left _) hnodup
  rw [Fact.writesAt_eq, (h.account hnodup (Fact.table facts) fun q _ => rfl).1, filterMap_filterMap,
    assignmentsTo, ← Site.filterMap_event? hordered]
  exact filterMap_congr fun site _ => site.event?_at

/--
**The history of every variable is complete and in order.**  For a variable that has got a type, it
is what the variable is declared with, and then the assignments to it.  For everything else that can
be assigned to, a parameter, a receiver or the variable of a loop, it is the assignments only.
-/
theorem check_writes {p : Place} {t : Tree} {m : Module} {s : Settings} {c : Checked}
    (hk : t.keysDistinct = true) (hm : Module.ofTree? p t = some m) (hcheck : m.check s = .ok c) :
    (∀ d, .declared d ∈ m.sites (Fact.table c.facts) → (Fact.table c.facts d.origin.place).isSome =
      true → ∃ w, d.firstWrite? c.env.registry (Fact.table c.facts) = some w ∧
        Fact.writesAt d.origin.place c.facts =
          w :: m.assignmentsTo c.env.registry (Fact.table c.facts) d.origin.place) ∧
    ∀ q, (∀ d, .declared d ∈ m.sites (Fact.table c.facts) → d.origin.place = q →
      Fact.table c.facts q = none) →
      Fact.writesAt q c.facts = m.assignmentsTo c.env.registry (Fact.table c.facts) q := by
  have hnodup := places_nodup hk hm
  obtain ⟨p, bs, n, k, last, vars, bodies, hkept⟩ := check_kept hcheck
  have htraced := hkept.traced hnodup
  refine ⟨fun d hd htyped => ?_, fun q hq => ?_⟩
  · have hfirst := (htraced.account hnodup (Fact.table c.facts) fun q _ => rfl).2 d hd htyped
    obtain ⟨w, hw⟩ := Option.isSome_iff_exists.1 hfirst
    refine ⟨w, hw, ?_⟩
    rw [writesAt_of_traced htraced hnodup, Site.filterMap_declarationOf? hd
      ((m.sites_in _).distinct hnodup), Site.declarationOf?, if_pos ⟨rfl, htyped⟩, hw]
    rfl
  · rw [writesAt_of_traced htraced hnodup, filterMap_eq_nil_iff.2 fun site hsite => ?_, nil_append]
    cases site with
    | declared d => exact if_neg fun h => by rw [hq d hsite h.1] at h; cases h.2
    | assigned a => rfl

/--
A module with the variables `total: int = 1` and `count: int = 0`, and two procedures.  The first,
`fill`, assigns 2 to `total`, declares a variable of its own with this name and the value 3, and
assigns 4 to `total` and 5 to `count`.  The second, `drain`, assigns 6 to its parameter `step` and 7
to `total`, and fails at an assignment of a text to `total`, so that it never comes to assign 8 to
`count`.
-/
def tankTree : Tree :=
  let int : Tree := .node .simpleType .nowhere [.text "int"]
  let number (n : Int) : Tree := .node .literal .nowhere [.int n, .literalKind .int]
  let var (name : String) (e : Tree) : Tree := .node .varDecl .nowhere [.text name, int, e]
  let assign (name : String) (e : Tree) : Tree :=
    .node .assignmentStatement .nowhere [.node .identifier .nowhere [.text name], e]
  let procedure (name : String) (params body : List Tree) : Tree :=
    .node .functionDef .nowhere
      [.text name, .list params, .null, .node .block .nowhere [.list body], .null]
  let fill := procedure "fill" []
    [assign "total" (number 2), var "total" (number 3), assign "total" (number 4),
      assign "count" (number 5)]
  let drain := procedure "drain" [.node .parameter .nowhere [.text "step", int]]
    [assign "step" (number 6), assign "total" (number 7),
      assign "total" (.node .literal .nowhere [.text "all", .literalKind .string]),
        assign "count" (number 8)]
  .node .compilationUnit .nowhere
    [.text "tank", .list [], .list [var "total" (number 1), var "count" (number 0)],
      .list [fill, drain]]

/-- The module of that tree. -/
def tank : Module := (Module.ofTree? (.root 0) tankTree).get rfl

/-- The module is refused, and every variable has its own writes, in order. -/
theorem check_writes_tank : ∃ c, tank.check {} = .ok c ∧ c.accepted = false ∧
    (Fact.writes c.facts).map (fun entry => entry.2.map fun w => (w.kind, w.value.integer?)) =
      [[(.initializer, some 1), (.assignment, some 2), (.assignment, some 7)],
        [(.initializer, some 0), (.assignment, some 5)],
        [(.initializer, some 3), (.assignment, some 4)],
        [(.assignment, some 6)]] ∧
    (∀ d, .declared d ∈ tank.sites (Fact.table c.facts) →
      (Fact.table c.facts d.origin.place).isSome = true →
      ∃ w, d.firstWrite? c.env.registry (Fact.table c.facts) = some w ∧
        Fact.writesAt d.origin.place c.facts =
          w :: tank.assignmentsTo c.env.registry (Fact.table c.facts) d.origin.place) ∧
    ∀ q, (∀ d, .declared d ∈ tank.sites (Fact.table c.facts) → d.origin.place = q →
      Fact.table c.facts q = none) →
      Fact.writesAt q c.facts = tank.assignmentsTo c.env.registry (Fact.table c.facts) q := by
  have hchecked : (tank.check {}).toOption.map
    (fun c => (c.accepted, (Fact.writes c.facts).map fun entry =>
      entry.2.map fun w => (w.kind, w.value.integer?))) = some (false,
      [[(.initializer, some 1), (.assignment, some 2), (.assignment, some 7)],
        [(.initializer, some 0), (.assignment, some 5)],
          [(.initializer, some 3), (.assignment, some 4)],
        [(.assignment, some 6)]]) := by
    decide +kernel
  obtain ⟨c, hc, hchecked⟩ := Option.map_eq_some_iff.1 hchecked
  obtain ⟨haccepted, hwrites⟩ := Prod.mk.inj hchecked
  have hcheck := Except.toOption_eq_some.1 hc
  exact ⟨c, hcheck, haccepted, hwrites, check_writes (t := tankTree) rfl rfl hcheck⟩

end Module

end TreeTyping
