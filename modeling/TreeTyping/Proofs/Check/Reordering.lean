/-
Checking a module whose type declarations stand in another order.

Registration leaves the same registry up to the identities of types.  From there on two checks go in
step: a function gets the same signature or is refused for the same reason, each variable and each
body is found right or wrong for the same reason, and with as many errors before it the limit is
reached at the same declaration.
-/
import TreeTyping.Proofs.Check.Reissued
import TreeTyping.Proofs.Registry.Extension
import TreeTyping.Proofs.Registry.Reordering

namespace TreeTyping

open List
open Progress (BodyOutcome checkBody variableScopes)

/-! ### Functions -/

theorem Reissue.ofRenaming_signature (σ : Renaming) (s : Signature) :
    (ofRenaming σ).KnownSignature s :=
  ⟨fun _ _ => ofRenaming_known σ _, fun _ _ => ofRenaming_known σ _,
    fun _ _ => ofRenaming_known σ _⟩

namespace Registry

variable {σ : Renaming} {r r' : Registry}

theorem Reissued.containsType {v : Reissue} (h : r.Reissued v r') (t : Ty) :
    r'.containsType (t.rename v.ids) = r.containsType t := by
  rw [Registry.containsType, Registry.containsType, Ty.name_rename, h.names]
  rcases r.lookup? t.name with _ | u
  · simp
  · simp

theorem Receives.rename {t : Ty} (h : Receives t) (σ : Renaming) : Receives (t.rename σ) := by
  rcases h with ⟨n, rfl⟩ | ⟨n, rfl⟩
  · exact .inl ⟨_, rfl⟩
  · exact .inr ⟨_, rfl⟩

/-- One registry comes from another by renaming, and both are open or neither is. -/
structure Renamed (σ : Renaming) (r r' : Registry) : Prop where
  reissued : r.Reissued (.ofRenaming σ) r'
  frozen : r'.frozen = r.frozen

namespace Renamed

theorem methods (h : Renamed σ r r') : r'.methods = r.methods.map (MethodEntry.rename σ) :=
  h.reissued.methods.trans (append_nil _)

theorem withMethod (h : Renamed σ r r') (e : MethodEntry) :
    Renamed σ (r.withMethod e) (r'.withMethod (e.rename σ)) := by
  refine ⟨reissued_ofRenaming h.reissued.names h.reissued.definitions h.reissued.length ?_,
    h.frozen⟩
  rw [Registry.withMethod, Registry.withMethod, h.methods, map_append]
  rfl

theorem find?_method (h : Renamed σ r r') (receiver : Ty) (name : String) :
    (r'.methods.find? fun m => m.receiver = receiver.rename σ && m.member.name = name) =
      (r.methods.find? fun m => m.receiver = receiver && m.member.name = name).map
      (MethodEntry.rename σ) := by
  rw [h.methods, find?_map]
  refine congrArg (fun p => (r.methods.find? p).map (MethodEntry.rename σ)) (funext fun m => ?_)
  show (decide (m.receiver.rename σ = receiver.rename σ) && decide (m.member.name = name)) = _
  simp only [Ty.rename_inj]

/-- **A method is declared on the renamed type, or refused for the same reason.** -/
theorem addMethod (h : Renamed σ r r') (receiver : Ty) (name : String) (t : Ty) (span : Span) :
    Except.Agree (Renamed σ) (r.addMethod receiver name t span)
      (r'.addMethod (receiver.rename σ) name (t.rename σ) span) := by
  have hmutable : r'.mutable = r.mutable := by rw [mutable, mutable, h.frozen]
  by_cases hreceiver : Receives receiver
  · have hcontains : r'.containsType (receiver.rename σ) = r.containsType receiver :=
      h.reissued.containsType receiver
    have hmembers : r'.structuralMembers (receiver.rename σ) =
        (r.structuralMembers receiver).map (Keyed.mapValues (Member.rename σ)) :=
          h.reissued.structuralMembers receiver
    rw [addMethod_receives _ _ _ hreceiver, addMethod_receives _ _ _ (hreceiver.rename σ), hmutable,
      hcontains, hmembers, h.find?_method, Ty.name_rename]
    rcases r.mutable with f | _
    · exact .error f
    refine Except.Agree.ite _ (.error _) ?_
    refine (Except.Agree.of_map rfl).bind fun members _ heq => ?_
    rw [heq, Keyed.has_mapValues]
    refine Except.Agree.ite _ (.error _) ?_
    rcases List.find? _ r.methods with _ | previous
    · exact .ok (h.withMethod _)
    · exact .error _
  · have hrenamed : ¬Receives (receiver.rename σ) := by
      intro hrenamed
      rw [← Ty.rename_symm σ receiver] at hreceiver
      exact hreceiver (hrenamed.rename σ.symm)
    rw [addMethod_refuses _ _ _ hreceiver, addMethod_refuses _ _ _ hrenamed, hmutable,
      Ty.name_rename]
    rcases r.mutable with f | _
    · exact .error f
    · exact .error _

end Renamed

end Registry

namespace Signatures

/-- Two states of registering functions are the same up to identities. -/
structure Matches (σ : Renaming) (s s' : Signatures) : Prop where
  registry : s.registry.Renamed σ s'.registry
  functions : s'.functions = s.functions.mapValues (Signature.rename σ)
  bodies : s'.bodies = s.bodies.map (Body.rename σ)
  found : s'.found = s.found
  facts : Fact.SameFindings σ s.facts s'.facts

variable {σ : Renaming} {s s' : Signatures}

namespace Matches

theorem add (h : s.Matches σ s') (signature : Signature) :
    Except.Agree (Matches σ) (s.add signature) (s'.add (signature.rename σ)) := by
  have hreceiver : (signature.rename σ).receiver = signature.receiver.map (Ty.rename σ) := rfl
  unfold Signatures.add
  rw [hreceiver]
  rcases signature.receiver with _ | receiver
  · have hname : (signature.rename σ).name = signature.name := rfl
    dsimp only [Option.map_none]
    rw [hname, h.functions, Keyed.find?_mapValues]
    rcases s.functions.find? signature.name with _ | previous
    · refine .ok ⟨h.registry, ?_, h.bodies, h.found, h.facts⟩
      exact Keyed.insert_mapValues _ _ _ _
    · exact .error _
  · dsimp only [Option.map_some]
    rw [Signature.type_rename]
    refine (h.registry.addMethod receiver signature.name signature.type signature.span).bind
      fun r r' hr => ?_
    exact .ok ⟨hr, h.functions, h.bodies, h.found, h.facts.note _ _⟩

theorem register (h : s.Matches σ s') (f : FunctionDef) :
    Except.Agree (Matches σ) (s.register f) (s'.register f) := by
  refine (Except.Agree.of_map (signatureOf_rename h.registry.reissued.names f)).bind
    fun signature _ heq => ?_
  subst heq
  refine (h.add signature).bind fun t t' ht =>
    .ok ⟨ht.registry, ht.functions, ?_, ht.found, ht.facts.note _ _⟩
  rw [ht.bodies, map_append]
  rfl

theorem step (h : s.Matches σ s') (entry : Entry FunctionDef) :
    Except.Agree (Matches σ) (s.step entry) (s'.step entry) := by
  have hreport (d : Diagnostic) :
      Matches σ { s with found := s.found ++ [d] } { s' with found := s'.found ++ [d] } :=
    ⟨h.registry, h.functions, h.bodies, congrArg (· ++ [d]) h.found, h.facts⟩
  cases entry with
  | foreign f => exact .ok (hreport _)
  | proper f =>
    have hregister := h.register f
    rw [Signatures.step, Signatures.step]
    generalize s.register f = x at hregister ⊢
    generalize s'.register f = y at hregister ⊢
    cases hregister with
    | ok hnext => exact .ok hnext
    | error e =>
      cases e with
      | found d => exact .ok (hreport d)
      | fault fault => exact .error _

end Matches

/-- **Functions get the same signatures, up to identities, or are refused for the same reasons.** -/
theorem run_matches {r r' : Registry} (h : r.Renamed σ r') (functions : List (Entry FunctionDef)) :
    Except.Agree (Matches σ) (run r functions) (run r' functions) :=
  Except.Agree.foldlM (fun _ _ entry h => h.step entry) ⟨h, rfl, rfl, rfl, rfl⟩ functions

end Signatures

/-! ### Variables and bodies -/

namespace Progress

/--
Two checks are in step: they differ in the identities of types and in what was reported before, and
they have reported the same since.
-/
structure Matches (σ : Renaming) (base base' : List Diagnostic) (p p' : Progress) : Prop where
  env : p.env.Reissued (.ofRenaming σ) p'.env
  limit : p'.collector.limit = p.collector.limit
  found : ∃ more, p.collector.found = base ++ more ∧ p'.collector.found = base' ++ more
  facts : Fact.SameFindings σ p.facts p'.facts
  skipped : p'.skipped = p.skipped

variable {σ : Renaming} {base base' : List Diagnostic} {p p' : Progress}

namespace Matches

/-- The state after more has been established and reported. -/
theorem more (h : p.Matches σ base base' p') {q q' : Progress} {facts facts' : List Fact}
    {ds : List Diagnostic}
    (hfacts : Fact.SameFindings σ facts facts') (henv : q.env.Reissued (.ofRenaming σ) q'.env)
    (hq : q.facts = p.facts ++ facts ∧ q.collector = p.collector.extend ds ∧ q.skipped = p.skipped)
    (hq' : q'.facts = p'.facts ++ facts' ∧ q'.collector = p'.collector.extend ds ∧
      q'.skipped = p'.skipped) :
    q.Matches σ base base' q' := by
  obtain ⟨reported, hfound, hfound'⟩ := h.found
  obtain ⟨hqfacts, hqcollector, hqskipped⟩ := hq
  obtain ⟨hqfacts', hqcollector', hqskipped'⟩ := hq'
  refine ⟨henv, ?_, ⟨reported ++ ds, ?_, ?_⟩, ?_, ?_⟩
  · rw [hqcollector, hqcollector']
    exact h.limit
  · rw [hqcollector, Collector.extend, hfound, append_assoc]
  · rw [hqcollector', Collector.extend, hfound', append_assoc]
  · rw [hqfacts, hqfacts']
    exact h.facts.append hfacts
  · rw [hqskipped, hqskipped', h.skipped]

/-- Some declarations are left over. -/
theorem skip (h : p.Matches σ base base' p') (left : Nat) (trail trail' : List Fact) :
    Matches σ base base' { p with trail, skipped := p.skipped + left }
      { p' with trail := trail', skipped := p'.skipped + left } :=
  ⟨h.env, h.limit, h.found, h.facts, congrArg (· + left) h.skipped⟩

theorem errorCount (h : p.Matches σ base base' p')
    (hbase : (base'.filter Diagnostic.isError).length = (base.filter Diagnostic.isError).length) :
    p'.collector.errorCount = p.collector.errorCount := by
  obtain ⟨reported, hfound, hfound'⟩ := h.found
  rw [Collector.errorCount, Collector.errorCount, Collector.errors, Collector.errors, hfound,
    hfound', filter_append, filter_append, length_append, length_append, hbase]

theorem shouldStop (h : p.Matches σ base base' p')
    (hbase : (base'.filter Diagnostic.isError).length = (base.filter Diagnostic.isError).length) :
    p'.collector.shouldStop = p.collector.shouldStop := by
  rw [Collector.shouldStop, Collector.shouldStop, h.errorCount hbase, h.limit]

theorem takeVariable (h : p.Matches σ base base' p') (entry : Entry VarDecl) :
    Except.Agree (Matches σ base base') (p.takeVariable entry) (p'.takeVariable entry) := by
  have hfollows := variableScopes_follows h.env entry
  unfold Progress.takeVariable
  dsimp only
  rcases hresult : (variableScopes p.env entry).result with f | scopes
  · obtain ⟨hresult', hfacts⟩ := hfollows.fails rfl f hresult
    rw [hresult']
    cases f with
    | found d => exact .ok (h.more hfacts h.env ⟨rfl, rfl, rfl⟩ ⟨rfl, rfl, rfl⟩)
    | fault fault => exact .error _
  · obtain ⟨hresult', hscopes, hfacts⟩ := hfollows.concludes scopes hresult
    rw [hresult']
    exact .ok (h.more hfacts (h.env.withScopes hscopes) ⟨rfl, (Collector.extend_nil _).symm, rfl⟩
      ⟨rfl, (Collector.extend_nil _).symm, rfl⟩)

theorem close (h : p.Matches σ base base' p') : p.close.Matches σ base base' p'.close := by
  have hclosed := h.env.withScopes h.env.knownScopes.closed
  rw [Scopes.closed_rename, ← h.env.scopes] at hclosed
  exact ⟨hclosed, h.limit, h.found, h.facts, h.skipped⟩

theorem takeBody (h : p.Matches σ base base' p') {o o' : BodyOutcome} (ho : o.Matches σ o') :
    (p.takeBody o).Matches σ base base' (p'.takeBody o') := by
  refine h.more ho.facts h.env ⟨rfl, rfl, rfl⟩ ⟨rfl, ?_, rfl⟩
  rw [← ho.found]
  rfl

end Matches

section Passes

variable (hbase : (base'.filter Diagnostic.isError).length =
  (base.filter Diagnostic.isError).length)

include hbase

/-- **Two checks that are in step take in the same variables.** -/
theorem takeVariables_agree (vars : List (Entry VarDecl)) (h : p.Matches σ base base' p') :
    Except.Agree (Matches σ base base') (takeVariables vars p) (takeVariables vars p') := by
  induction vars generalizing p p' with
  | nil => exact .ok h
  | cons entry rest ih =>
    rw [takeVariables, takeVariables, h.shouldStop hbase]
    exact .ite _ (.ok (h.skip _ _ _)) ((h.takeVariable entry).bind fun _ _ => ih)

theorem bodiesInTurn_agree (warn : Bool) (bs : List Body) (h : p.Matches σ base base' p') :
    Except.Agree (Matches σ base base') (bodiesInTurn warn bs p)
      (bodiesInTurn warn (bs.map (Body.rename σ)) p') := by
  induction bs generalizing p p' with
  | nil => exact .ok h
  | cons b rest ih =>
    rw [map_cons, bodiesInTurn, bodiesInTurn, h.shouldStop hbase, length_map]
    have hb := Reissue.ofRenaming_signature σ b.signature
    refine (checkBody_agrees h.env rfl warn hb).bind fun o o' ho => ?_
    exact .ite _ (.ok (h.skip _ _ _)) (ih (h.takeBody ho))

theorem takeBodies_matches {outcomes outcomes' : List BodyOutcome}
    (houtcomes : List.Forall₂ (BodyOutcome.Matches σ) outcomes outcomes')
    (h : p.Matches σ base base' p') :
    (takeBodies outcomes p).Matches σ base base' (takeBodies outcomes' p') := by
  induction houtcomes generalizing p p' with
  | nil => exact h
  | cons ho hrest ih =>
    rw [takeBodies, takeBodies, h.shouldStop hbase, ← hrest.length_eq]
    split
    · exact h.skip _ _ _
    · exact ih (h.takeBody ho)

/-- **Two checks that are in step take in the same bodies.** -/
theorem bodies_agree (s : Settings) (bs : List Body) (h : p.Matches σ base base' p') :
    Except.Agree (Matches σ base base') (bodies s bs p) (bodies s (bs.map (Body.rename σ)) p') := by
  rw [bodies, bodies, length_map]
  refine .ite _ ?_ (bodiesInTurn_agree hbase _ bs h)
  have hbody (b : Body) :=
    checkBody_agrees h.env rfl s.warnUnreachable (Reissue.ofRenaming_signature σ b.signature)
  refine (Except.Agree.mapM hbody).bind fun outcomes outcomes' houtcomes => ?_
  exact .ok (takeBodies_matches hbase houtcomes ⟨h.env, h.limit, h.found, h.facts, h.skipped⟩)

end Passes

end Progress

/-! ### Modules -/

/--
Two checks come to the same: behind what was reported before they report the same, they record the
same types and backings up to identities, and so the same types by name, and they agree on the
verdict and on what is left over.
-/
structure Checked.Matches (σ : Renaming) (base base' : List Diagnostic) (c c' : Checked) :
    Prop where
  diagnostics : ∃ more, c.diagnostics = base ++ more ∧ c'.diagnostics = base' ++ more
  types : ∀ q, Fact.typeAt? q c'.facts = (Fact.typeAt? q c.facts).map (Ty.rename σ)
  typeNames : ∀ q, (Fact.typeAt? q c'.facts).map Ty.name = (Fact.typeAt? q c.facts).map Ty.name
  backings : ∀ q, Fact.backingAt? q c'.facts = (Fact.backingAt? q c.facts).map (Backing.rename σ)
  accepted : c'.accepted = c.accepted
  skipped : c'.skipped = c.skipped

namespace Module

/-- The module with its types declared otherwise. -/
def withTypes (m : Module) (types : List (Entry TypeDecl)) : Module := { m with types }

variable {m : Module} {σ : Renaming} {base base' : List Diagnostic}

theorem finish_matches {bs bs' : List Body} {p p' : Progress} (h : p.Matches σ base base' p')
    (hbase : (base'.filter Diagnostic.isError).length = (base.filter Diagnostic.isError).length)
    (m' : Module) : (m.finish bs p).Matches σ base base' (m'.finish bs' p') := by
  have htypes (q : Place) := h.facts.typeAt?_eq q
  refine ⟨?_, ?_, ?_, ?_, ?_, ?_⟩
  · simp only [Checked.diagnostics, finish_collector]
    exact h.found
  · simp only [finish_facts]
    exact htypes
  · intro q
    have hname : Ty.name ∘ Ty.rename σ = Ty.name := funext (Ty.name_rename σ)
    rw [finish_facts, finish_facts, htypes, Option.map_map, hname]
  · simp only [finish_facts]
    exact h.facts.backingAt?_eq
  · rw [Checked.accepted, Checked.accepted, finish_collector, finish_collector, h.errorCount hbase]
  · rw [finish_skipped, finish_skipped, h.skipped]

/-- **Where registration leaves the same up to identities, the check comes to the same.** -/
theorem check_matches {types : List (Entry TypeDecl)} {s : Settings} {r r' : Registration}
    (hr : Registration.run {} m.types = .ok r) (hr' : Registration.run {} types = .ok r')
    (hregistry : r.registry.Renamed σ r'.registry)
    (hfound : (r'.found.filter Diagnostic.isError).length =
      (r.found.filter Diagnostic.isError).length) :
    Except.Agree (Checked.Matches σ r.found r'.found) (m.check s)
      ((m.withTypes types).check s) := by
  have hdeclarations : Except.Agree
    (fun x x' => x.1.Matches σ r.found r'.found x'.1 ∧ x'.2 = x.2.map (Body.rename σ))
      (m.declarations s) ((m.withTypes types).declarations s) := by
    unfold declarations
    rw [hr, show Registration.run {} (m.withTypes types).types = _ from hr']
    refine (Signatures.run_matches hregistry m.functions).bind fun t t' ht =>
      .ok ⟨⟨?_, rfl, ?_, ?_, rfl⟩, ht.bodies⟩
    · have hfrozen : t.registry.freeze.Reissued (.ofRenaming σ) t'.registry.freeze :=
        Registry.reissued_ofRenaming ht.registry.reissued.names ht.registry.reissued.definitions
          ht.registry.reissued.length ht.registry.methods
      exact ⟨hfrozen, rfl, ht.functions, rfl, fun e _ => Reissue.ofRenaming_signature σ e.2,
        forall_mem_singleton.2 (forall_mem_nil _)⟩
    · exact ⟨t.found, rfl, congrArg (r'.found ++ ·) ht.found⟩
    · have hnote : Fact.SameFindings σ [.noted r.note] [.noted r'.note] :=
        .none (forall_mem_singleton.2 rfl) (forall_mem_singleton.2 rfl)
      exact (hnote.append ht.facts).note _ _
  unfold check
  refine hdeclarations.bind fun ⟨p, bs⟩ ⟨p', bs'⟩ ⟨hp, hbs⟩ => ?_
  dsimp only at hp hbs
  subst hbs
  refine (Progress.takeVariables_agree hfound m.vars hp).bind fun p₁ p₁' hp₁ => ?_
  refine (Progress.bodies_agree hfound s bs hp₁.close).bind fun p₂ p₂' hp₂ => ?_
  exact .ok (finish_matches hp₂ hfound _)

/--
**The order of type declarations does not matter.**  Of a module in which nothing is missing and
whose type declarations have distinct names, registration comes to an end in one order of the
declarations exactly when it does in another.  Then, up to a renaming of identities, the same names
are registered and have the same definitions, and as many errors are reported.  Behind that the two
checks come to the same.
-/
theorem check_reordered (hm : m.Intact) (hnames : (Registration.declaredNames m.types).Nodup)
    {types : List (Entry TypeDecl)} (hperm : m.types.Perm types) (s : Settings) :
    ((∃ r, Registration.run {} m.types = .ok r) ↔ ∃ r', Registration.run {} types = .ok r') ∧
    ∀ r r', Registration.run {} m.types = .ok r → Registration.run {} types = .ok r' →
      ∃ σ : Renaming,
      (∀ name, r'.registry.lookup? name = (r.registry.lookup? name).map (Ty.rename σ)) ∧
      (∀ i : Nat, r'.registry.definitions[σ i]? = (r.registry.definitions[i]?).map
        (Definition.rename σ)) ∧
      (r'.found.filter Diagnostic.isError).length = (r.found.filter Diagnostic.isError).length ∧
      Except.Agree (Checked.Matches σ r.found r'.found) (m.check s)
        ((m.withTypes types).check s) := by
  obtain ⟨σ, hσ⟩ := Registration.introduced_reordered hnames hperm
  have hintact := hm.introduced
  have hintact' : ∀ d ∈ Registration.introduced types, d.decl.Intact := by
    intro d' hd'
    obtain ⟨d, hd, rfl⟩ := hσ.exists_of_mem hd'
    exact hintact d hd
  refine ⟨⟨hσ.run_returns hintact, hσ.symm.run_returns hintact'⟩, fun r r' hr hr' => ?_⟩
  obtain ⟨hreissued, hfound⟩ := hσ.run hperm.length_eq.symm hr hr'
  have hopen : r'.registry.frozen = r.registry.frozen :=
    (Registration.run_settled hr').1.unfrozen.trans (Registration.run_settled hr).1.unfrozen.symm
  exact ⟨σ.shift, hreissued.names, hreissued.definitions, hfound,
    check_matches hr hr' ⟨hreissued, hopen⟩ hfound⟩

/--
A module in which `Spot` stands for `Point`, `Point` has a coordinate, and `Lost` has a field of a
type that is not declared.  One variable is a `Point`, and another one is declared to be `Lost`.
-/
def charts : Tree :=
  let on (line : Int) : Span := .point line 1 .null
  let type (line : Int) (name : String) : Tree := .node .simpleType (on line) [.text name]
  let field (line : Int) (name : String) (t : String) : Tree :=
    .node .fieldDecl (on line) [.text name, type line t]
  let one (line : Int) : Tree := .node .literal (on line) [.int 1, .literalKind .int]
  .node .compilationUnit (on 1)
    [.text "charts",
     .list [.node .typeAliasDecl (on 1) [.text "Spot", type 1 "Point"],
       .node .structDecl (on 2) [.text "Point", .list [field 2 "x" "int"]],
       .node .structDecl (on 3) [.text "Lost", .list [field 3 "home" "Nowhere"]]],
     .list [.node .varDecl (on 4)
       [.text "start", .null, .node .structLiteral (on 4) [.text "Point", .object [("x", one 4)]]],
       .node .varDecl (on 5) [.text "end", type 5 "Lost", one 5]],
     .list []]

/-- In the reverse order `Spot` has the number of `Lost`, and the two checks come to the same. -/
theorem check_reordered_charts : ∃ m, Module.ofTree? (.root 0) charts = some m ∧ m.Intact ∧
    ∃ r r', ∃ σ : Renaming,
    Registration.run {} m.types = .ok r ∧ Registration.run {} m.types.reverse = .ok r' ∧
    r.registry.lookup? "Spot" = some (.alias ⟨1, "Spot"⟩) ∧
      r'.registry.lookup? "Spot" = some (.alias ⟨3, "Spot"⟩) ∧
    σ 1 = 3 ∧
    Except.Agree (Checked.Matches σ r.found r'.found) (m.check {})
      ((m.withTypes m.types.reverse).check {}) := by
  obtain ⟨m, hm, hintact⟩ := Module.intact_ofTree? (t := charts) (by decide) (by decide) (.root 0)
  have hrun : ((Module.ofTree? (.root 0) charts).bind fun m =>
      (Registration.run {} m.types).toOption.bind fun r =>
      (Registration.run {} m.types.reverse).toOption.map fun r' =>
        (decide (Registration.declaredNames m.types).Nodup, r.registry.lookup? "Spot",
          r'.registry.lookup? "Spot")) =
      some (true, some (.alias ⟨1, "Spot"⟩), some (.alias ⟨3, "Spot"⟩)) := by
    decide +kernel
  simp only [hm, Option.bind_some, Option.bind_eq_some_iff, Option.map_eq_some_iff,
    Except.toOption_eq_some, Prod.mk.injEq] at hrun
  obtain ⟨r, hr, r', hr', hnames, hspot, hspot'⟩ := hrun
  obtain ⟨-, hall⟩ := check_reordered hintact (of_decide_eq_true hnames) (reverse_perm m.types).symm
    {}
  obtain ⟨σ, hlookup, -, -, hagree⟩ := hall r r' hr hr'
  have hmoved := hlookup "Spot"
  rw [hspot, hspot'] at hmoved
  have hid : σ 1 = 3 := (congrArg Nominal.id (Ty.alias.inj (Option.some.inj hmoved))).symm
  exact ⟨m, hm, hintact, r, r', σ, hr, hr', hspot, hspot', hid, hagree⟩

end Module

end TreeTyping
