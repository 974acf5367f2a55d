/-
Adding a method to a module that is accepted.

A method that is declared behind all other functions changes the registry only once everything else
is in it.  The module is then checked as before in a registry with one more method, under a name
that was not that of a member.  Every variable and every body was checked without an error, so each
of them comes to the same, and what is left to check is the body of the method itself.
-/
import TreeTyping.Proofs.Check.Independence
import TreeTyping.Proofs.Check.Reissued
import TreeTyping.Proofs.Registry.Extension

namespace TreeTyping

open List TreeTyping.Except
open Progress (BodyOutcome checkBody variableOutcomes)

/-! ### Registering functions -/

namespace Signatures

/--
Functions have been registered with signatures whose types are known, and of the registry nothing
but the methods has changed.
-/
structure Grounded (v : Reissue) (r : Registry) (s : Signatures) : Prop where
  names : s.registry.bindings = r.bindings
  definitions : s.registry.definitions = r.definitions
  frozen : s.registry.frozen = r.frozen
  methods : ∀ e ∈ s.registry.methods, v.Known e.member.type
  functions : ∀ e ∈ s.functions, v.KnownSignature e.2
  bodies : ∀ b ∈ s.bodies, v.KnownSignature b.signature

variable {v : Reissue} {r : Registry} {s s' : Signatures}

theorem Grounded.add (h : Grounded v r s) {signature : Signature}
    (hsignature : v.KnownSignature signature)
    (hs : s.add signature = .ok s') : Grounded v r s' := by
  unfold Signatures.add at hs
  split at hs
  · obtain ⟨registry, hregistry, hs⟩ := bind_eq_ok.1 hs
    obtain rfl := Registry.addMethod_eq_ok hregistry
    cases hs
    refine ⟨h.names, h.definitions, h.frozen, forall_mem_append.2 ⟨h.methods, ?_⟩,
      h.functions, h.bodies⟩
    exact forall_mem_singleton.2 hsignature.type
  · split at hs
    · cases hs
    · cases hs
      refine ⟨h.names, h.definitions, h.frozen, h.methods, fun e he => ?_, h.bodies⟩
      rcases Keyed.mem_insert he with he | he
      · exact h.functions e he
      · rw [he]
        exact hsignature

theorem Grounded.step (h : Grounded v r s) (hnamed : ∀ name t, r.lookup? name = some t → v.Known t)
    {entry : Entry FunctionDef} (hs : s.step entry = .ok s') : Grounded v r s' := by
  obtain ⟨f, rfl, hregister⟩ | ⟨d, -, rfl⟩ := step_cases hs
  · obtain ⟨-, signature, added, hsignature, hadd, rfl⟩ := register_eq_ok hregister
    rw [signatureOf_congr h.names] at hsignature
    have hknown := signatureOf_known hnamed hsignature
    have hadded := h.add hknown hadd
    exact ⟨hadded.names, hadded.definitions, hadded.frozen, hadded.methods, hadded.functions,
      forall_mem_append.2 ⟨hadded.bodies, forall_mem_singleton.2 hknown⟩⟩
  · exact ⟨h.names, h.definitions, h.frozen, h.methods, h.functions, h.bodies⟩

/-- **Functions are registered with signatures whose types are known.** -/
theorem run_grounded (hnamed : ∀ name t, r.lookup? name = some t → v.Known t)
    (hmethods : r.methods = [])
    {functions : List (Entry FunctionDef)} (h : run r functions = .ok s) : Grounded v r s := by
  refine foldlM_invariant (P := fun _ s => Grounded v r s)
    (fun _ _ _ _ _ _ h hs => h.step hnamed hs) ?_ h
  refine ⟨rfl, rfl, rfl, ?_, forall_mem_nil _, forall_mem_nil _⟩
  rw [hmethods]
  exact forall_mem_nil _

/-- The state with one more method and its body. -/
def withMethod (s : Signatures) (t : Ty) (d : FunctionDef) (signature : Signature) : Signatures :=
  { s with
    registry := s.registry.withMethod (Registry.methodEntry t signature)
    bodies := s.bodies ++ [⟨d, signature⟩]
    facts := s.facts ++ [.noted (.methodRegistered t.name signature.name signature.type.name)] ++
      [.noted (.functionRegistered signature.describe)] }

/-- A method whose signature resolves and that can be declared is registered. -/
theorem step_method {d : FunctionDef} {signature : Signature} {t : Ty}
    (hsignature : signatureOf s.registry d = .ok signature)
    (hreceiver : signature.receiver = some t)
    (hadd : s.registry.addMethod t signature.name signature.type signature.span =
      .ok (s.registry.withMethod (Registry.methodEntry t signature))) :
    s.step (.proper d) = .ok (s.withMethod t d signature) := by
  have hregister : s.register d = .ok (s.withMethod t d signature) := by
    rw [register, hsignature]
    show (s.add signature >>= _) = _
    rw [Signatures.add, hreceiver]
    dsimp only
    rw [hadd]
    rfl
  rw [Signatures.step, hregister]

end Signatures

/-! ### Checks without errors -/

theorem taken_clean {c : Collector} (hlimit : 1 ≤ c.limit) {outcomes : List BodyOutcome}
    (h : NoErrors (c.found ++ foundIn outcomes)) : taken c outcomes = outcomes.length := by
  by_contra hless
  have hlt : taken c outcomes < outcomes.length := Nat.lt_of_le_of_ne (taken_le c outcomes) hless
  have hstop := (taken_stops c outcomes).behind hlt
  have hcount := errorCount_take_le c outcomes (taken c outcomes)
  have hzero : (c.extend (foundIn outcomes)).errorCount = 0 := Collector.errorCount_eq_zero.2 h
  omega

namespace Module

variable {m : Module} {s : Settings} {p : Progress} {bs : List Body} {last : Scopes}
  {vars bodies : List BodyOutcome}

/-- Where all outcomes are known and none has an error, the check takes in all of them. -/
theorem check_clean (hlimit : 1 ≤ s.maxErrors) (h : Unfolds s m p bs last vars bodies)
    (hclean : NoErrors (p.collector.found ++ foundIn (vars ++ bodies))) :
    ∃ c, m.check s = .ok c ∧ c.env = p.env.withScopes last.closed ∧
      c.TookIn p bs (vars ++ bodies) 0 := by
  rw [← declarations_limit h.declarations] at hlimit
  have hvars : NoErrors (p.collector.found ++ foundIn vars) := by
    intro d hd
    refine hclean d ?_
    rw [foundIn_append, ← append_assoc]
    exact mem_append_left _ hd
  obtain ⟨p₁, p₂, hp₁, hp₂, henv, htook⟩ :=
    Progress.passes_of_outcomes h.vars h.bodies (taken_clean hlimit hvars)
  rw [taken_clean hlimit hclean, take_length, Nat.sub_self] at htook
  refine ⟨m.finish bs p₂, check_eq_ok.2 ⟨p, bs, p₁, p₂, h.declarations, hp₁, hp₂, rfl⟩, ?_, ?_⟩
  · rw [finish_env, henv]
  · exact finish_tookIn htook (declarations_skipped h.declarations) henv

end Module

/-! ### One more method -/

/-- The environment with one more method. -/
def Env.withMethod (env : Env) (t : Ty) (signature : Signature) : Env :=
  { env with registry := env.registry.withMethod (Registry.methodEntry t signature) }

/-- One method is added to an environment. -/
def Env.extension (env : Env) (t : Ty) (signature : Signature) : Reissue :=
  env.registry.extension (Registry.methodEntry t signature)

namespace Module

variable {m : Module} {s : Settings} {p : Progress} {bs : List Body} {d : FunctionDef}
  {signature : Signature} {t : Ty}

/-- The module with one more function, behind all others. -/
def withFunction (m : Module) (d : FunctionDef) :
    Module := { m with functions := m.functions ++ [.proper d] }

/-- **Registration of one more method** gives the environment with it, and one more body. -/
theorem declarations_withFunction (h : m.declarations s = .ok (p, bs))
    (hsignature : Signatures.signatureOf p.env.registry d = .ok signature)
    (hreceiver : signature.receiver = some t)
    (ht : Registry.Receives t)
    (hnew : ∀ ms, p.env.registry.membersOf t = .ok ms → ms.find? signature.name = none) :
    ∃ p', (m.withFunction d).declarations s = .ok (p', bs ++ [⟨d, signature⟩]) ∧
      p'.env = p.env.withMethod t signature ∧ p'.collector = p.collector ∧
      Fact.SameFindings (Equiv.refl Nat) p.facts p'.facts ∧
      p.env.Reissued (p.env.extension t signature) p'.env ∧
      ∀ b ∈ bs, (p.env.extension t signature).KnownSignature b.signature := by
  obtain ⟨types, htypes, h⟩ := bind_eq_ok.1 h
  obtain ⟨signatures, hsignatures, h⟩ := bind_eq_ok.1 h
  cases h
  have hmethods := Registration.run_methods htypes
  have hkept := Signatures.run_grounded (v := ⟨Equiv.refl Nat, [], fun _ => True⟩)
    (fun _ _ _ _ _ => trivial) hmethods hsignatures
  have hclosed : signatures.registry.freeze.Closed :=
    (Registration.run_closed htypes).congr hkept.names hkept.definitions
  have hnamed : ∀ name u, types.registry.lookup? name = some u →
      (signatures.registry.freeze.extension (Registry.methodEntry t signature)).Known u := by
    intro name u hu
    refine (hclosed.named name u ?_).2
    rwa [Registry.lookup?, Registry.binding?, show signatures.registry.freeze.bindings = _
      from hkept.names]
  have hgrounded := Signatures.run_grounded hnamed hmethods hsignatures
  have hreissued := hclosed.withMethod (e := Registry.methodEntry t signature)
    hgrounded.methods hnew
  -- the receiver is one of the types that names stand for, so it is registered and has members
  have hknown := (Signatures.signatureOf_known hreissued.named hsignature).receiver t hreceiver
  have hthere : signatures.registry.containsType t = true := by
    rcases ht with ⟨n, rfl⟩ | ⟨n, rfl⟩ <;> exact hknown _ (mem_singleton_self _)
  obtain ⟨ms, hms⟩ := hreissued.membersOf_total (cons_ne_nil _ _) hknown
  have hopen : signatures.registry.frozen = false :=
    hkept.frozen.trans (Registration.run_settled htypes).1.unfrozen
  have hadd : signatures.registry.addMethod t signature.name signature.type signature.span =
      .ok (signatures.registry.withMethod (Registry.methodEntry t signature)) :=
    Registry.addMethod_total hopen ht hthere ((Registry.membersOf_freeze t).symm.trans hms)
      (hnew ms hms)
  have hbindings : signatures.registry.bindings = signatures.registry.freeze.bindings := rfl
  have hstep := Signatures.step_method ((Signatures.signatureOf_congr hbindings d).trans hsignature)
    hreceiver hadd
  have hrun : Signatures.run types.registry (m.withFunction d).functions =
      .ok (signatures.withMethod t d signature) := by
    rw [Signatures.run, withFunction, foldlM_append]
    exact bind_eq_ok.2 ⟨signatures, hsignatures, bind_eq_ok.2 ⟨_, hstep, rfl⟩⟩
  refine ⟨_, bind_eq_ok.2 ⟨types, htypes, bind_eq_ok.2 ⟨_, hrun, rfl⟩⟩, rfl, rfl, ?_, ?_,
    hgrounded.bodies⟩
  · -- the method adds nothing but notes
    refine Fact.SameFindings.append ((Fact.SameFindings.refl [.noted types.note]).append ?_)
      (.none (forall_mem_singleton.2 rfl) (forall_mem_singleton.2 rfl))
    exact ((Fact.SameFindings.refl _).noted _).noted _
  · refine ⟨hreissued, rfl, ?_, (Scopes.rename_refl {}).symm, hgrounded.functions, ?_⟩
    · exact (Keyed.mapValues_id Signature.rename_refl _).symm
    · exact forall_mem_singleton.2 (forall_mem_nil _)

theorem checkBody_apart {env : Env} {warn : Bool} {b : Body} {o : BodyOutcome}
    (ho : checkBody env warn b = .ok o)
    (hclean : NoErrors o.found) {q : Place} (hq : q ∉ b.function.places) :
    Fact.typeAt? q o.facts = none ∧ Fact.backingAt? q o.facts = none := by
  obtain ⟨-, note, hfacts⟩ := Progress.checkBody_clean ho hclean
  have hconfined : Fact.Confined b.function.places
      (Inference.function env b.function b.signature).facts :=
    Inference.function_records.confined
  rw [hfacts]
  exact ⟨Fact.typeAt?_eq_none ((hconfined.note note).types q hq),
    Fact.backingAt?_eq_none (hconfined.note note).marks hq⟩

/-- Variables and bodies of a module without errors come to the same with one more method. -/
theorem unfolds_withMethod {last : Scopes} {vars bodies : List BodyOutcome} {o : BodyOutcome}
    (h : Unfolds s m p bs last vars bodies) (hclean : NoErrors (foundIn (vars ++ bodies)))
    (hsignature : Signatures.signatureOf p.env.registry d = .ok signature)
    (hreceiver : signature.receiver = some t)
    (ht : Registry.Receives t)
    (hnew : ∀ ms, p.env.registry.membersOf t = .ok ms → ms.find? signature.name = none)
    (ho : checkBody ((p.env.withScopes last.closed).withMethod t signature) s.warnUnreachable
      ⟨d, signature⟩ = .ok o) :
    ∃ p' vars' bodies', Unfolds s (m.withFunction d) p' (bs ++ [⟨d, signature⟩]) last vars'
      (bodies' ++ [o]) ∧ p'.env = p.env.withMethod t signature ∧ p'.collector = p.collector ∧
      foundIn (vars' ++ bodies') = foundIn (vars ++ bodies) ∧
      Fact.SameFindings (Equiv.refl Nat) (p.facts ++ factsIn (vars ++ bodies))
        (p'.facts ++ factsIn (vars' ++ bodies')) := by
  obtain ⟨p', hdeclarations, henv, hcollector, hfacts, hreissued, hknown⟩ :=
    declarations_withFunction h.declarations hsignature hreceiver ht hnew
  rw [foundIn_append] at hclean
  obtain ⟨hvarsClean, hbodiesClean⟩ := forall_mem_append.1 hclean
  obtain ⟨vars', hvars, hscopes, hsameVars⟩ := variableOutcomes_follows hreissued h.vars hvarsClean
  obtain ⟨bodies', hbodies, hsameBodies⟩ :=
    bodies_follow (hreissued.withScopes hscopes.closed) hknown h.bodies hbodiesClean
  -- no identity is renamed
  have hlast : last.rename (p.env.extension t signature).ids = last := Scopes.rename_refl last
  have hbs : bs.map (Body.rename (p.env.extension t signature).ids) = bs :=
    map_id'' Body.rename_refl bs
  rw [hlast] at hvars
  rw [Scopes.closed_rename, hlast, hbs] at hbodies
  have hmethod : checkBody (p'.env.withScopes last.closed) s.warnUnreachable ⟨d, signature⟩ =
      .ok o := by
    rw [henv]
    exact ho
  have hall : (bs ++ [Body.mk d signature]).mapM
    (checkBody (p'.env.withScopes last.closed) s.warnUnreachable) =
      .ok (bodies' ++ [o]) :=
    mapM_append_eq_ok.2 ⟨bodies', [o], hbodies, mapM_singleton_eq_ok.2 ⟨o, hmethod, rfl⟩, rfl⟩
  refine ⟨p', vars', bodies', ⟨hdeclarations, hvars, hall⟩, henv, hcollector, ?_, ?_⟩
  · rw [foundIn_append, foundIn_append, foundIn_matches hsameVars, foundIn_matches hsameBodies]
  · rw [factsIn_append, factsIn_append]
    exact hfacts.append ((factsIn_matches hsameVars).append (factsIn_matches hsameBodies))

/--
**Adding a method breaks nothing.**  A module is accepted, and a method on one of its aliases or
structs is put behind its functions, under a name that is not that of a member.  If the signature of
the method resolves and its body has no errors, the larger module is accepted.  Its check finds what
the check of the module found, and then what is found in the body of the method; it records the same
type and the same backing at every place that is not in the method.
-/
theorem check_withMethod {c : Checked} {o : BodyOutcome} (hlimit : 1 ≤ s.maxErrors)
    (hc : m.check s = .ok c)
    (haccepted : c.accepted = true)
    (hsignature : Signatures.signatureOf c.env.registry d = .ok signature)
    (hreceiver : signature.receiver = some t) (ht : Registry.Receives t)
    (hnew : ∀ ms, c.env.registry.membersOf t = .ok ms → ms.find? d.name = none)
    (ho : checkBody (c.env.withMethod t signature) s.warnUnreachable ⟨d, signature⟩ = .ok o)
    (hown : NoErrors o.found) :
    ∃ c', (m.withFunction d).check s = .ok c' ∧ c'.accepted = true ∧ c'.env = c.env.withMethod t
      signature ∧ c'.diagnostics = c.diagnostics ++ o.found ∧ c'.skipped = c.skipped ∧
      ∀ q, q ∉ d.places →
        Fact.typeAt? q c'.facts = Fact.typeAt? q c.facts ∧
          Fact.backingAt? q c'.facts = Fact.backingAt? q c.facts := by
  have hzero : c.collector.errorCount = 0 := of_decide_eq_true haccepted
  have hclean : NoErrors c.diagnostics := Collector.errorCount_eq_zero.1 hzero
  -- the environment that is left in the end is that of registration, with the variables in scope
  obtain ⟨p, bs, last, vars, bodies, hunfolds, htook, henv⟩ :=
    check_unfolds (s := s) hc (by rw [hzero]; omega)
  rw [henv] at hsignature hnew ho
  rw [← (Signatures.signatureOf_shape hsignature).1] at hnew
  have hrest : NoErrors (foundIn (vars ++ bodies)) := by
    rw [htook.diagnostics] at hclean
    exact (forall_mem_append.1 hclean).2
  obtain ⟨p', vars', bodies', hunfolds', henv', hcollector, hfound, hfacts⟩ :=
    unfolds_withMethod hunfolds hrest hsignature hreceiver ht hnew ho
  have hdiagnostics : p'.collector.found ++ foundIn (vars' ++ (bodies' ++ [o])) =
      c.diagnostics ++ o.found := by
    rw [← append_assoc vars', foundIn_append, hfound, hcollector, htook.diagnostics, ← append_assoc,
      foundIn_cons, foundIn_nil, append_nil]
  have hclean' : NoErrors (c.diagnostics ++ o.found) := forall_mem_append.2 ⟨hclean, hown⟩
  obtain ⟨c', hc', hcenv, htook'⟩ :=
    check_clean hlimit hunfolds' (by rw [hdiagnostics]; exact hclean')
  refine ⟨c', hc', ?_, ?_, htook'.diagnostics.trans hdiagnostics,
    htook'.skipped.trans htook.skipped.symm, fun q hq => ?_⟩
  · refine decide_eq_true (Collector.errorCount_eq_zero.2 ?_)
    rw [← hdiagnostics, ← htook'.diagnostics] at hclean'
    exact hclean'
  · rw [hcenv, henv', henv]
    rfl
  · obtain ⟨htype, hbacking⟩ := checkBody_apart ho hown hq
    have hall : c'.facts = p'.facts ++ factsIn (vars' ++ bodies') ++ o.facts := by
      rw [htook'.facts, ← append_assoc vars', factsIn_append, ← append_assoc, factsIn_cons,
        factsIn_nil, append_nil]
    rw [← htook.facts] at hfacts
    rw [hall, Fact.typeAt?_append, htype, Option.none_or, Fact.backingAt?_append, hbacking,
      Option.none_or]
    exact ⟨hfacts.typeAt?_refl q, hfacts.backingAt?_refl q⟩

/-- A node of a module, by a number. -/
def shapesNode (n : Nat) : Origin := ⟨⟨0, [.item n]⟩, .point n 1 .null⟩

/-- A type by its name. -/
def shapesType (name : String) : TypeExpr := .simple .nowhere name

/-- The side of a square in scope. -/
def squareSide (n : Nat) :
    Expr := .member (shapesNode n) (.identifier (shapesNode (n + 1)) "square") "side"

/-- An interface that asks for an area, a struct without one, a value of it, and a function. -/
def shapes : Module where
  name := some "shapes"
  types := [.proper (.interface .nowhere "Shape"
    [.method .nowhere "area" [] (some (shapesType "int"))]),
    .proper (.struct .nowhere "Square" [⟨shapesNode 1, "side", shapesType "int"⟩])]
  vars := [.proper ⟨shapesNode 2, "unit", none,
    some (.record (shapesNode 3) "Square"
      [("side", .literal (shapesNode 4) (.int 1) (some .int))])⟩]
  functions := [.proper ⟨shapesNode 6, "edge", [⟨shapesNode 7, "square", shapesType "Square"⟩],
    some (shapesType "int"), [.ret (shapesNode 8) (some (squareSide 9))], none⟩]

/-- A method with which the struct satisfies the interface. -/
def squareArea : FunctionDef :=
  ⟨shapesNode 11, "area", [], some (shapesType "int"),
    [.ret (shapesNode 12) (some (.binary (shapesNode 13) (squareSide 14) (some .star)
      (squareSide 16)))],
    some ⟨shapesNode 18, "square", shapesType "Square"⟩⟩

/-- With the method the struct satisfies the interface, and its value has the same record. -/
theorem check_withMethod_shapes : ∃ c c', shapes.check {} = .ok c ∧
    (shapes.withFunction squareArea).check {} = .ok c' ∧ c.accepted = true ∧ c'.accepted = true ∧
    Fact.typeAt? (shapesNode 3).place c'.facts = Fact.typeAt? (shapesNode 3).place c.facts ∧
    Fact.backingAt? (shapesNode 3).place c'.facts = Fact.backingAt? (shapesNode 3).place
      c.facts := by
  have hrun : ((shapes.check {}).toOption.bind fun c =>
      (Signatures.signatureOf c.env.registry squareArea).toOption.bind fun signature =>
      signature.receiver.bind fun t => (c.env.registry.membersOf t).toOption.bind fun ms =>
      (checkBody (c.env.withMethod t signature) true ⟨squareArea, signature⟩).toOption.map fun o =>
        (c.accepted, t, (ms.find? "area").isNone, o.found.all fun d => !d.isError)) =
      some (true, .struct ⟨2, "Square"⟩, true, true) := by
    decide +kernel
  simp only [Option.bind_eq_some_iff, Option.map_eq_some_iff, toOption_eq_some,
    Prod.mk.injEq] at hrun
  obtain ⟨c, hc, signature, hsignature, t, hreceiver, ms, hms, o, ho, haccepted, rfl, hnew,
    hclean⟩ := hrun
  have hnone : ∀ ms, c.env.registry.membersOf (.struct ⟨2, "Square"⟩) = .ok ms →
      ms.find? squareArea.name = none := by
    intro ms' hms'
    rw [← Except.ok.inj (hms.symm.trans hms')]
    exact Option.isNone_iff_eq_none.1 hnew
  have hown : NoErrors o.found := by simpa [NoErrors] using hclean
  obtain ⟨c', hc', haccepted', -, -, -, hsame⟩ := check_withMethod (by decide) hc haccepted
    hsignature hreceiver (.inr ⟨_, rfl⟩) hnone ho hown
  exact ⟨c, c', hc, hc', haccepted, haccepted', hsame (shapesNode 3).place (by decide)⟩

end Module

end TreeTyping
