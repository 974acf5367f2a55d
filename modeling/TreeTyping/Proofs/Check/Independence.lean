/-
Bodies do not interfere.

A function is known to the rest of a module by its signature.  Registration never looks at a body,
the variables are checked before any body, and each body is checked in the scopes of the module
alone.  So two modules that differ in one body are checked alike but for the outcome of that body.
What the outcome of a body says about places outside the body is what entering the function says,
which is the same for both, and in addition that variables of the module have been assigned to.
-/
import TreeTyping.Proofs.Check.Limit
import TreeTyping.Proofs.Check.Taken
import TreeTyping.Proofs.Fact.Tables
import TreeTyping.Proofs.Typing.Frame

namespace TreeTyping

open List TreeTyping.Except

/-! ### Entering a function -/

namespace Inference

/-- The scopes in which the body of a function is checked, with its receiver and parameters. -/
def entering (env : Env) (f : FunctionDef) (signature : Signature) : Inference Scopes := do
  let scopes ← receiver (env.scopes.push ("func " ++ f.qualifiedName)) f.receiver signature.receiver
  parameters scopes f.params signature.params

theorem entering_marks (env : Env) (f : FunctionDef) (signature : Signature) :
    ∀ fact ∈ (entering env f signature).log, fact.Marks [] := by
  have hleaves : Leaves (Fact.Marks []) (entering env f signature) :=
    .skip ((receiver_told (r := env.registry)).leaves.mono fun _ => Fact.OfParam.marks) fun _ =>
      (parameters_told (r := env.registry)).leaves.mono fun _ => Fact.OfParam.marks
  exact hleaves

/-- An inference that fills each of its places at most once fills no other. -/
theorem Records.confined {α : Type} {r : Registry} {x : Inference α} {places : List Place}
    (h : Records r x places) : Fact.Confined places x.log :=
  ⟨fun _ hq => h.not_recorded hq, h.marks⟩

theorem statements_confined (env : Env) (around : Surroundings) (body : List Stmt) :
    Fact.Confined (Stmt.placesOfAll body) (statements env around body).log := by
  have htold : StmtTold env (statements env around body) (Stmt.spotsOfAll body) :=
    @statements_told env around body (fun s _ => stmtFramed s) env.scopes
  exact (htold.records (Stmt.spotsOfAll_places fun s _ => s.spots_places)).confined

/-- **Behind what entering a function establishes, everything is about its body.** -/
theorem function_facts (env : Env) (f : FunctionDef) (signature : Signature) :
    ∃ own, (function env f signature).facts = (entering env f signature).facts ++ own ∧
      Fact.Confined (Stmt.placesOfAll f.body) own := by
  have hlog : (function env f signature).log = (entering env f signature >>= fun scopes =>
      statements (env.withScopes scopes) { signature := some signature } f.body >>= fun _ =>
        pure ()).log := by
    simp only [log, function, entering, run_bind, Logged.bind_assoc]
  rw [facts, facts, hlog]
  rcases hentered : (entering env f signature).result with e | scopes
  · exact ⟨[], by rw [log_bind_of_error hentered, append_nil], .nil _⟩
  · have hown := statements_confined (env.withScopes scopes) { signature := some signature } f.body
    refine ⟨_, log_bind_of_ok hentered, ?_⟩
    rcases hbody : (statements (env.withScopes scopes) { signature := some signature }
      f.body).result with e | _
    · rwa [log_bind_of_error hbody]
    · rw [log_bind_of_ok hbody, show (pure () : Inference Unit).log = [] from rfl, append_nil]
      exact hown

end Inference

open Progress (BodyOutcome checkBody variableOutcomes)

theorem Fact.Confined.remarks {places : List Place} {facts more : List Fact}
    (h : Confined places facts)
    (hmore : ∀ fact ∈ more, fact.isRemark = true) : Confined places (facts ++ more) := by
  refine ⟨fun q hq hmem => ?_, forall_mem_append.2 ⟨h.marks, fun fact hfact => ?_⟩⟩
  · rw [recorded_append, recorded_of_remarks hmore, append_nil] at hmem
    exact h.types q hq hmem
  · have hremark := hmore fact hfact
    cases fact with
    | backed o b | wrote d w => cases hremark
    | _ => trivial

/-- **What a body establishes**: what entering its function does, and then facts about the body. -/
theorem Progress.checkBody_facts {env : Env} {warn : Bool} {b : Body} {o : BodyOutcome}
    (h : checkBody env warn b = .ok o) :
    ∃ own, o.facts = (Inference.entering env b.function b.signature).facts ++ own ∧
      Fact.Confined (Stmt.placesOfAll b.function.body) own := by
  obtain ⟨own, hown, hconfined⟩ := Inference.function_facts env b.function b.signature
  obtain ⟨remarks, hfacts, hremarks⟩ := checkBody_remarks h
  exact ⟨own ++ remarks, by rw [hfacts, hown, append_assoc], hconfined.remarks hremarks⟩

/-- **What a body establishes elsewhere**: what entering its function does, and assignments. -/
theorem Progress.checkBody_elsewhere {env : Env} {warn : Bool} {b : Body} {o : BodyOutcome}
    (h : checkBody env warn b = .ok o) {q : Place} (hq : q ∉ Stmt.placesOfAll b.function.body) :
    Fact.typeAt? q o.facts = Fact.typeAt? q (Inference.entering env b.function b.signature).facts ∧
      Fact.backingAt? q o.facts = none ∧ ∀ w ∈ Fact.writesAt q o.facts, w.kind = .assignment := by
  obtain ⟨own, hfacts, hconfined⟩ := checkBody_facts h
  have hentering := Inference.entering_marks env b.function b.signature
  rw [hfacts]
  refine ⟨?_, ?_, ?_⟩
  · rw [Fact.typeAt?_append, Fact.typeAt?_eq_none (hconfined.types q hq), Option.none_or]
  · rw [Fact.backingAt?_append, Fact.backingAt?_eq_none hconfined.marks hq, Option.none_or]
    exact Fact.backingAt?_eq_none hentering not_mem_nil
  · rw [Fact.writesAt_append]
    exact forall_mem_append.2 ⟨Fact.assignments_of_marks hentering not_mem_nil,
      Fact.assignments_of_marks hconfined.marks hq⟩

/-! ### Registering functions with other bodies -/

/-- The function with another body. -/
def FunctionDef.withBody (f : FunctionDef) (body : List Stmt) : FunctionDef := { f with body }

namespace Signatures

/-- The state with other bodies. -/
def withBodies (s : Signatures) (bs : List Body) : Signatures := { s with bodies := bs }

theorem add_withBodies (s : Signatures) (signature : Signature) (bs : List Body) :
    (s.withBodies bs).add signature = (s.add signature).map fun t => t.withBodies bs := by
  unfold add withBodies
  split
  · next receiver _ =>
      dsimp only
      rcases s.registry.addMethod receiver signature.name signature.type signature.span with f |
        registry <;> rfl
  · dsimp only
    split <;> rfl

/-- Registering a function looks neither at its body nor at those collected before. -/
theorem register_withBodies (s : Signatures) (f : FunctionDef) :
    (∃ e, ∀ bs body, (s.withBodies bs).register (f.withBody body) = .error e) ∨
    ∃ (signature : Signature) (t : Signatures), ∀ bs body,
      (s.withBodies bs).register (f.withBody body) = .ok
      (t.withBodies (bs ++ [⟨f.withBody body, signature⟩])) := by
  have hunfold (bs : List Body) (body : List Stmt) : (s.withBodies bs).register (f.withBody body) =
      signatureOf s.registry f >>= fun signature => (s.withBodies bs).add signature >>= fun t =>
        .ok { t with
          bodies := t.bodies ++ [⟨f.withBody body, signature⟩],
          facts := t.facts ++ [Fact.noted (.functionRegistered signature.describe)] } := rfl
  simp only [hunfold, add_withBodies]
  rcases signatureOf s.registry f with e | signature
  · exact .inl ⟨e, fun _ _ => rfl⟩
  · rcases hadd : s.add signature with e | t
    · refine .inl ⟨e, fun bs body => ?_⟩
      show ((s.add signature).map _ >>= _) = _
      rw [hadd]
      rfl
    · refine .inr ⟨signature, { t with
        facts := t.facts ++ [Fact.noted (.functionRegistered signature.describe)] },
          fun bs body => ?_⟩
      show ((s.add signature).map _ >>= _) = _
      rw [hadd]
      rfl

/-- What an entry of a function adds: its body, if it has a signature. -/
theorem step_proper (s : Signatures) (f : FunctionDef) :
    (∃ e, ∀ bs body, (s.withBodies bs).step (.proper (f.withBody body)) = .error e) ∨
    ∃ (signature? : Option Signature) (t : Signatures), ∀ bs body, (s.withBodies bs).step
      (.proper (f.withBody body)) =
      .ok (t.withBodies (bs ++ signature?.toList.map (Body.mk (f.withBody body)))) := by
  rcases register_withBodies s f with ⟨e, he⟩ | ⟨signature, t, ht⟩
  · cases e with
    | found d =>
      refine .inr ⟨none, { s with found := s.found ++ [d] }, fun bs body => ?_⟩
      rw [step, he bs body, Option.toList_none, map_nil, append_nil]
      rfl
    | fault fault =>
      refine .inl ⟨.fault fault, fun bs body => ?_⟩
      rw [step, he bs body]
  · refine .inr ⟨some signature, t, fun bs body => ?_⟩
    rw [step, ht bs body]
    rfl

/-- Bodies are collected, and not looked at. -/
theorem step_withBodies {s s' : Signatures} {entry : Entry FunctionDef}
    (h : s.step entry = .ok s') : ∃ more, s'.bodies = s.bodies ++ more ∧
      ∀ bs, (s.withBodies bs).step entry = .ok (s'.withBodies (bs ++ more)) := by
  cases entry with
  | foreign f =>
    cases h
    exact ⟨[], (append_nil _).symm, fun bs => by rw [append_nil]; rfl⟩
  | proper f =>
    rcases step_proper s f with ⟨e, he⟩ | ⟨signature?, t, ht⟩
    · cases h.symm.trans (he s.bodies f.body)
    · cases h.symm.trans (ht s.bodies f.body)
      exact ⟨_, rfl, fun bs => ht bs f.body⟩

/-- Registering one function after the other collects their bodies, and does not look at them. -/
theorem foldlM_withBodies {functions : List (Entry FunctionDef)} {s s' : Signatures}
    (h : functions.foldlM step s = .ok s') :
    ∃ more, s'.bodies = s.bodies ++ more ∧
      ∀ bs, functions.foldlM step (s.withBodies bs) = .ok (s'.withBodies (bs ++ more)) := by
  induction functions generalizing s with
  | nil =>
    cases h
    refine ⟨[], (append_nil _).symm, fun bs => ?_⟩
    rw [append_nil]
    rfl
  | cons entry rest ih =>
    rw [foldlM_cons] at h
    obtain ⟨next, hnext, h⟩ := bind_eq_ok.1 h
    obtain ⟨first, hfirst, hstep⟩ := step_withBodies hnext
    obtain ⟨others, hothers, hrest⟩ := ih h
    refine ⟨first ++ others, by rw [hothers, hfirst, append_assoc], fun bs => ?_⟩
    rw [foldlM_cons, hstep bs, ← append_assoc]
    exact hrest (bs ++ first)

/-- **The body of a function decides nothing about what is registered but itself.** -/
theorem run_withBody {r : Registry} {before after : List (Entry FunctionDef)} {f : FunctionDef}
    {s : Signatures} (h : run r (before ++ .proper f :: after) = .ok s) :
    ∃ (first rest : List Body) (signature? : Option Signature),
      s.bodies = first ++ signature?.toList.map (Body.mk f) ++ rest ∧
      ∀ body, run r (before ++ .proper (f.withBody body) :: after) =
        .ok (s.withBodies (first ++ signature?.toList.map (Body.mk (f.withBody body)) ++
          rest)) := by
  rw [run, foldlM_append] at h
  obtain ⟨s₁, hbefore, h⟩ := bind_eq_ok.1 h
  rw [foldlM_cons] at h
  obtain ⟨s₂, hown, h⟩ := bind_eq_ok.1 h
  obtain ⟨rest, hrest, hagain⟩ := foldlM_withBodies h
  rcases step_proper s₁ f with ⟨e, he⟩ | ⟨signature?, t, ht⟩
  · cases hown.symm.trans (he s₁.bodies f.body)
  · cases hown.symm.trans (ht s₁.bodies f.body)
    refine ⟨s₁.bodies, rest, signature?, hrest, fun body => ?_⟩
    rw [run, foldlM_append, hbefore]
    show List.foldlM step (s₁.withBodies s₁.bodies) (.proper (f.withBody body) :: after) = _
    rw [foldlM_cons, ht s₁.bodies body]
    exact hagain _

end Signatures

/-! ### Checks of modules that differ in one body -/

theorem Except.mapM_append_eq_ok {ε α β : Type} {f : α → Except ε β} {xs ys : List α}
    {zs : List β} : (xs ++ ys).mapM f = .ok zs ↔
      ∃ as bs, xs.mapM f = .ok as ∧ ys.mapM f = .ok bs ∧ zs = as ++ bs := by
  rw [mapM_append, bind_eq_ok]
  constructor
  · rintro ⟨as, has, h⟩
    obtain ⟨bs, hbs, h⟩ := bind_eq_ok.1 h
    exact ⟨as, bs, has, hbs, (Except.ok.inj h).symm⟩
  · rintro ⟨as, bs, has, hbs, rfl⟩
    exact ⟨as, has, bind_eq_ok.2 ⟨bs, hbs, rfl⟩⟩

theorem Except.mapM_singleton_eq_ok {ε α β : Type} {f : α → Except ε β} {x : α} {ys : List β} :
    [x].mapM f = .ok ys ↔ ∃ y, f x = .ok y ∧ ys = [y] := by
  rw [mapM_eq_ok, forall₂_cons_left_iff]
  simp

/-- Items with their results. -/
theorem Except.mapM_zip {ε α β : Type} {f : α → Except ε β} {xs : List α} {ys : List β}
    (h : xs.mapM f = .ok ys) :
    (xs.zip ys).map Prod.fst = xs ∧ (xs.zip ys).map Prod.snd = ys ∧
    ∀ e ∈ xs.zip ys, f e.1 = .ok e.2 := by
  rw [mapM_eq_ok] at h
  refine ⟨map_fst_zip h.length_eq.le, map_snd_zip h.length_eq.ge, ?_⟩
  rintro ⟨x, y⟩ hmem
  exact forall₂_zip h hmem

/--
What a check that is not cut short came to: what registration found, and then the outcomes of the
variables and of the bodies.
-/
structure Checked.Parts (c : Checked) (s : Settings) (m : Module) (p : Progress) (last : Scopes)
    (vars : List BodyOutcome) (bodies : List (Body × BodyOutcome)) : Prop where
  registration : m.declarations s = .ok (p, bodies.map Prod.fst)
  declared : variableOutcomes p.env m.vars = .ok (last, vars)
  checked : ∀ e ∈ bodies, checkBody (p.env.withScopes last.closed) s.warnUnreachable e.1 = .ok e.2
  diagnostics : c.diagnostics = p.collector.found ++ foundIn vars ++ foundIn (bodies.map Prod.snd)
  facts : c.facts = p.facts ++ factsIn vars ++ factsIn (bodies.map Prod.snd)

theorem bodies_around {env : Env} {warn : Bool} {first own rest : List Body}
    {outcomes : List BodyOutcome}
    (h : (first ++ own ++ rest).mapM (checkBody env warn) = .ok outcomes) :
    ∃ outs mine others, first.mapM (checkBody env warn) = .ok outs ∧
      own.mapM (checkBody env warn) = .ok mine ∧
      rest.mapM (checkBody env warn) = .ok others ∧ outcomes = outs ++ mine ++ others := by
  obtain ⟨front, others, hfront, hothers, rfl⟩ := mapM_append_eq_ok.1 h
  obtain ⟨outs, mine, houts, hmine, rfl⟩ := mapM_append_eq_ok.1 hfront
  exact ⟨outs, mine, others, houts, hmine, hothers, rfl⟩

section Parts

variable {s : Settings} {m : Module} {p : Progress} {last : Scopes}
  {vars outs mine others : List BodyOutcome} {c : Checked} {first own rest : List Body}

theorem Unfolds.parts (h : Unfolds s m p (first ++ own ++ rest) last vars (outs ++ mine ++ others))
    (hc : c.TookIn p (first ++ own ++ rest) (vars ++ (outs ++ mine ++ others)) 0)
    (houts : first.mapM (checkBody (p.env.withScopes last.closed) s.warnUnreachable) = .ok outs)
    (hmine : own.mapM (checkBody (p.env.withScopes last.closed) s.warnUnreachable) = .ok mine)
    (hothers : rest.mapM (checkBody (p.env.withScopes last.closed) s.warnUnreachable) =
      .ok others) :
    c.Parts s m p last vars (first.zip outs ++ own.zip mine ++ rest.zip others) := by
  obtain ⟨hfirst, houts, hchecked₁⟩ := mapM_zip houts
  obtain ⟨hown, hmine, hchecked₂⟩ := mapM_zip hmine
  obtain ⟨hrest, hothers, hchecked₃⟩ := mapM_zip hothers
  refine ⟨?_, h.vars, ?_, ?_, ?_⟩
  · rw [map_append, map_append, hfirst, hown, hrest]
    exact h.declarations
  · simp only [forall_mem_append]
    exact ⟨⟨hchecked₁, hchecked₂⟩, hchecked₃⟩
  · rw [map_append, map_append, houts, hmine, hothers, hc.diagnostics, foundIn_append,
      ← append_assoc p.collector.found]
  · rw [map_append, map_append, houts, hmine, hothers, hc.facts, factsIn_append,
      ← append_assoc p.facts]

end Parts

namespace Module

variable {m : Module} {s : Settings} {before after : List (Entry FunctionDef)} {f : FunctionDef}

/-- The module with another body of one of its functions. -/
def withBody (m : Module) (before : List (Entry FunctionDef)) (f : FunctionDef)
    (after : List (Entry FunctionDef)) (body : List Stmt) : Module :=
  { m with functions := before ++ .proper (f.withBody body) :: after }

theorem declarations_withBody (hm : m.functions = before ++ .proper f :: after) {p : Progress}
    {bs : List Body} (h : m.declarations s = .ok (p, bs)) :
    ∃ (first rest : List Body) (signature? : Option Signature),
      bs = first ++ signature?.toList.map (Body.mk f) ++ rest ∧
      ∀ body, (m.withBody before f after body).declarations s =
        .ok (p, first ++ signature?.toList.map (Body.mk (f.withBody body)) ++ rest) := by
  obtain ⟨types, htypes, h⟩ := bind_eq_ok.1 h
  obtain ⟨signatures, hsignatures, h⟩ := bind_eq_ok.1 h
  rw [hm] at hsignatures
  obtain ⟨first, rest, signature?, hbodies, hagain⟩ := Signatures.run_withBody hsignatures
  cases h
  refine ⟨first, rest, signature?, hbodies, fun body => ?_⟩
  exact bind_eq_ok.2 ⟨types, htypes, bind_eq_ok.2 ⟨_, hagain body, rfl⟩⟩

/-- The outcomes of one function with two bodies agree on every place outside the bodies. -/
theorem own_outcomes {env : Env} {warn : Bool} {signature? : Option Signature} {body : List Stmt}
    {mine mine' : List BodyOutcome}
    (h : (signature?.toList.map (Body.mk f)).mapM (checkBody env warn) = .ok mine)
    (h' : (signature?.toList.map (Body.mk (f.withBody body))).mapM (checkBody env warn) = .ok mine')
    {q : Place}
    (hq : q ∉ Stmt.placesOfAll f.body) (hq' : q ∉ Stmt.placesOfAll body)
    (earlier later : List Fact) :
    Fact.AgreeAt q (earlier ++ factsIn mine ++ later) (earlier ++ factsIn mine' ++ later)
      (factsIn mine) (factsIn mine') := by
  cases signature? with
  | none =>
    cases h
    cases h'
    exact .around rfl rfl (forall_mem_nil _) _ _
  | some signature =>
    obtain ⟨o, ho, rfl⟩ := mapM_singleton_eq_ok.1 h
    obtain ⟨o', ho', rfl⟩ := mapM_singleton_eq_ok.1 h'
    obtain ⟨htypes, hbackings, hwrites⟩ := Progress.checkBody_elsewhere ho hq
    obtain ⟨htypes', hbackings', hwrites'⟩ := Progress.checkBody_elsewhere ho' hq'
    simp only [factsIn_cons, factsIn_nil, append_nil]
    -- entering a function does not look at its body
    exact .around (htypes.trans htypes'.symm) (hbackings.trans hbackings'.symm)
      (forall_mem_append.2 ⟨hwrites, hwrites'⟩) _ _

/--
**Bodies do not interfere.**  Two checks of modules that differ in the body of one function, with a
limit that neither reaches, find the same in registration, in every variable and in the body of
every other function, in the same order.  At a place outside the two bodies they record the same
type and the same backing, and the writes to the variable that is declared there are the same, but
for assignments in the bodies.
-/
theorem check_withBody (hm : m.functions = before ++ .proper f :: after) {body : List Stmt}
    {c c' : Checked}
    (hc : m.check s = .ok c) (hc' : (m.withBody before f after body).check s = .ok c')
    (hlimit : (c.collector.errorCount : Int) < s.maxErrors)
    (hlimit' : (c'.collector.errorCount : Int) < s.maxErrors) :
    ∃ p last vars first own own' rest, c.Parts s m p last vars (first ++ own ++ rest) ∧
      c'.Parts s (m.withBody before f after body) p last vars (first ++ own' ++ rest) ∧
      (own = [] ∧ own' = [] ∨
        ∃ signature o o', own = [(⟨f, signature⟩, o)] ∧
          own' = [(⟨f.withBody body, signature⟩, o')]) ∧
      ∀ q, q ∉ Stmt.placesOfAll f.body → q ∉ Stmt.placesOfAll body →
        Fact.AgreeAt q c.facts c'.facts (factsIn (own.map Prod.snd))
          (factsIn (own'.map Prod.snd)) := by
  obtain ⟨p, bs, last, vars, outcomes, hunfolds, htook, -⟩ := check_unfolds (s := s) hc hlimit
  obtain ⟨p', bs', last', vars', outcomes', hunfolds', htook', -⟩ :=
    check_unfolds (s := s) hc' hlimit'
  obtain ⟨first, rest, signature?, rfl, hagain⟩ := declarations_withBody hm hunfolds.declarations
  cases (hagain body).symm.trans hunfolds'.declarations
  cases hunfolds.vars.symm.trans hunfolds'.vars
  obtain ⟨outs, mine, others, houts, hmine, hothers, rfl⟩ := bodies_around hunfolds.bodies
  obtain ⟨outs', mine', others', houts', hmine', hothers', rfl⟩ := bodies_around hunfolds'.bodies
  cases houts.symm.trans houts'
  cases hothers.symm.trans hothers'
  refine ⟨p, last, vars, first.zip outs, _, _, rest.zip others, hunfolds.parts htook houts hmine
    hothers, hunfolds'.parts htook' houts hmine' hothers, ?_, fun q hq hq' => ?_⟩
  · cases signature? with
    | none => exact .inl ⟨rfl, rfl⟩
    | some signature =>
      obtain ⟨o, -, rfl⟩ := mapM_singleton_eq_ok.1 hmine
      obtain ⟨o', -, rfl⟩ := mapM_singleton_eq_ok.1 hmine'
      exact .inr ⟨signature, o, o', rfl, rfl⟩
  · have hagree := own_outcomes hmine hmine' hq hq' (p.facts ++ factsIn vars ++ factsIn outs)
      (factsIn others)
    rw [(mapM_zip hmine).2.1, (mapM_zip hmine').2.1, htook.facts, htook'.facts]
    simpa only [factsIn_append, append_assoc] using hagree

/-- A node of a module, by a number. -/
def tallyNode (n : Nat) : Origin := ⟨⟨0, [.item n]⟩, .point n 1 .null⟩

/-- An assignment to the variable `total`. -/
def tallyAssignment (value : Value) (kind : LiteralKind) : Stmt :=
  .assign (tallyNode 5) (.identifier (tallyNode 6) "total")
    (.literal (tallyNode 7) value (some kind))

/-- A function that sets a variable of its module. -/
def tallyReset : FunctionDef :=
  ⟨tallyNode 3, "reset", [], none, [tallyAssignment (.int 0) .int], none⟩

/-- A function that gives the variable back. -/
def tallyRead : FunctionDef :=
  ⟨tallyNode 8, "read", [], some (.simple .nowhere "int"),
    [.ret (tallyNode 9) (some (.identifier (tallyNode 10) "total"))], none⟩

/-- A variable, and two functions that use it. -/
def tally : Module where
  name := some "tally"
  types := []
  vars := [.proper ⟨tallyNode 1, "total", none, some (.literal (tallyNode 2) (.int 1) (some .int))⟩]
  functions := [.proper tallyReset, .proper tallyRead]

/-- The module in which the first function assigns a text to the variable. -/
def tallyOfTexts : Module := tally.withBody [] tallyReset [.proper tallyRead]
    [tallyAssignment (.text "none") .string]

/-- One module has no errors and the other has one; of the variable they record the same. -/
theorem check_withBody_tally : ∃ c c', tally.check {} = .ok c ∧ tallyOfTexts.check {} = .ok c' ∧
    c.collector.errorCount = 0 ∧ c'.collector.errorCount = 1 ∧
    ∃ mine mine', Fact.AgreeAt (tallyNode 1).place c.facts c'.facts mine mine' := by
  have hrun : (tally.check {}).toOption.map (fun c => c.collector.errorCount) = some 0 := by
    decide +kernel
  have hrun' : (tallyOfTexts.check {}).toOption.map (fun c => c.collector.errorCount) = some 1 := by
    decide +kernel
  obtain ⟨c, hc, hcount⟩ := Option.map_eq_some_iff.1 hrun
  obtain ⟨c', hc', hcount'⟩ := Option.map_eq_some_iff.1 hrun'
  have hc := toOption_eq_some.1 hc
  have hc' := toOption_eq_some.1 hc'
  have hm : tally.functions = [] ++ .proper tallyReset :: [.proper tallyRead] := rfl
  obtain ⟨p, last, vars, first, own, own', rest, -, -, -, hagree⟩ :=
    check_withBody hm hc hc' (by rw [hcount]; decide) (by rw [hcount']; decide)
  exact ⟨c, c', hc, hc', hcount, hcount', _, _, hagree (tallyNode 1).place (by decide) (by decide)⟩

end Module

end TreeTyping
