/-
Warnings change nothing.

Whether unreachable statements are reported is decided while the ways out of statements are worked
out, and the warnings go through the same collector as the errors that end a check.  They take no
part in either: the ways out are the same, since every statement of a loaded module has a span to
report, and the limit counts errors alone.

A check without warnings is therefore the check with them, step by step, in states from which the
warnings have been taken out.  Each step is shown to come to the same with the warnings taken out
before it or behind it, and so are the passes.
-/
import TreeTyping.Proofs.Check.Module
import TreeTyping.Proofs.Check.Outcomes
import TreeTyping.Proofs.Flow.Exactness
import TreeTyping.Proofs.Registry.Reordering
import TreeTyping.Proofs.Tree.Loading

namespace TreeTyping

open List TreeTyping.Except

theorem Diagnostic.code_ne_iff (d : Diagnostic) : (d.code != "W301") = d.isError := by
  rw [code, isError]
  cases d.kind? with
  | none => rfl
  | some kind => cases kind <;> rfl

/-! ### Ways out -/

/-- Nothing is written down where neither part writes anything down. -/
theorem Logged.log_bind_eq_nil {ω ε α β : Type} {x : Logged ω ε α} {f : α → Logged ω ε β}
    (hx : x.log = []) (hf : ∀ a, (f a).log = []) : (x >>= f).log = [] := by
  rcases h : x.result with e | a
  · rw [bind_of_error h, hx]
  · rw [bind_of_ok h, hx, hf, nil_append]

/-- Two sets of ways out with the same members are the same. -/
theorem Exits.eq_of_mem_iff {e e' : Exits} (h : ∀ x, x ∈ e ↔ x ∈ e') : e = e' := by
  have hsame (x : Exit) : e.has x = e'.has x := Bool.eq_iff_iff.2 (h x)
  obtain ⟨normal, returns, breaks, continues⟩ := e
  obtain ⟨normal', returns', breaks', continues'⟩ := e'
  obtain rfl : normal = normal' := hsame .normal
  obtain rfl : returns = returns' := hsame .returns
  obtain rfl : breaks = breaks' := hsame .breaks
  obtain rfl : continues = continues' := hsame .continues
  rfl

namespace Reach

open Logged

theorem unreached_silent (body : List Stmt) : (unreached false body).log = [] := by
  cases body <;> rfl

mutual

theorem ofStmt_silent : ∀ s : Stmt, (ofStmt false s).log = []
  | .declare _ | .assign _ _ _ | .expr _ _ | .pass _ | .ret _ _ | .panic _ _ | .brk _ | .cont _
  | .foreign _
  | .unreadable => by
      rw [ofStmt]
      rfl
  | .cond _ _ body more otherwise => by
      rw [ofStmt]
      exact log_bind_eq_nil (ofSequence_silent body) fun _ =>
        log_bind_eq_nil (ofBranches_silent more) fun _ =>
        log_bind_eq_nil (ofOptional_silent otherwise) fun _ => rfl
  | .select _ _ arms otherwise => by
      rw [ofStmt]
      exact log_bind_eq_nil (ofCases_silent arms) fun _ =>
        log_bind_eq_nil (ofOptional_silent otherwise) fun _ => rfl
  | .loop _ c body => by
      rw [ofStmt]
      split
      · exact log_bind_eq_nil (unreached_silent body) fun _ => rfl
      · exact log_bind_eq_nil (ofSequence_silent body) fun _ => rfl
  | .iterate _ _ _ body => by
      rw [ofStmt]
      exact log_bind_eq_nil (ofSequence_silent body) fun _ => rfl
  | .block _ body => by
      rw [ofStmt]
      exact ofSequence_silent body

theorem ofSequence_silent : ∀ body : List Stmt, (ofSequence false body).log = []
  | [] => by
      rw [ofSequence]
      rfl
  | s :: rest => by
      rw [ofSequence]
      refine log_bind_eq_nil (ofStmt_silent s) fun e => ?_
      split
      · exact log_bind_eq_nil (ofSequence_silent rest) fun _ => rfl
      · exact log_bind_eq_nil (unreached_silent rest) fun _ => rfl

theorem ofOptional_silent : ∀ otherwise : Option (List Stmt), (ofOptional false otherwise).log = []
  | none => by
      rw [ofOptional]
      rfl
  | some body => by
      rw [ofOptional]
      exact ofSequence_silent body

theorem ofBranches_silent : ∀ more : List Branch, (ofBranches false more).log = []
  | [] => by
      rw [ofBranches]
      rfl
  | .mk _ body :: rest => by
      rw [ofBranches]
      exact log_bind_eq_nil (ofSequence_silent body) fun _ =>
        log_bind_eq_nil (ofBranches_silent rest) fun _ => rfl

theorem ofCases_silent : ∀ arms : List Case, (ofCases false arms).log = []
  | [] => by
      rw [ofCases]
      rfl
  | .mk _ body :: rest => by
      rw [ofCases]
      exact log_bind_eq_nil (ofSequence_silent body) fun _ =>
        log_bind_eq_nil (ofCases_silent rest) fun _ => rfl

end

/-- **The ways out of statements proper do not depend on whether warnings are asked for.** -/
theorem ofSequence_result {body : List Stmt} (h : Stmt.AllProper body) (warn warn' : Bool) :
    (ofSequence warn body).result = (ofSequence warn' body).result := by
  obtain ⟨e, he⟩ : ∃ e, (ofSequence warn body).result = .ok e := ofSequence_answers h
  obtain ⟨e', he'⟩ : ∃ e, (ofSequence warn' body).result = .ok e := ofSequence_answers h
  -- Both are exactly the ways that runs take.
  have hsame : e = e' := Exits.eq_of_mem_iff fun x =>
    (ofSequence_exact he x).trans (ofSequence_exact he' x).symm
  rw [he, he', hsame]

end Reach

/-- Without warnings a body has the same flow and the same complaint. -/
theorem FunctionDef.bodyFlow_silent {f : FunctionDef} (h : Stmt.AllProper f.body)
    (signature : Signature) :
    f.bodyFlow false signature = { f.bodyFlow true signature with warnings := [] } := by
  have hresult := Reach.ofSequence_result h false true
  have hwarnings : (Reach.ofSequence false f.body).warnings = [] := by
    rw [Reach.warnings, Reach.ofSequence_silent]
    rfl
  unfold bodyFlow
  dsimp only
  rw [hresult, hwarnings]

theorem FunctionDef.bodyFlow_complaint {f : FunctionDef} {warn : Bool} {signature : Signature}
    {d : Diagnostic} (h : (f.bodyFlow warn signature).complaint = some d) : d.isError = true := by
  unfold bodyFlow at h
  dsimp only at h
  split at h
  · cases h
    rfl
  · cases h

/-! ### Taking the warnings out -/

/-- The collector with its errors alone. -/
def Collector.errorsOnly (c : Collector) : Collector := { c with found := c.errors }

namespace Collector

variable (c : Collector)

theorem errorsOnly_extend (ds : List Diagnostic) :
    (c.extend ds).errorsOnly = c.errorsOnly.extend (ds.filter Diagnostic.isError) := by
  simp only [errorsOnly, errors, extend, filter_append]

/-- An error stays where it was reported. -/
theorem errorsOnly_add {d : Diagnostic} (hd : d.isError = true) :
    (c.add d).errorsOnly = c.errorsOnly.add d := by
  have hkept : [d].filter Diagnostic.isError = [d] := filter_cons_of_pos hd
  show (c.extend [d]).errorsOnly = _
  rw [errorsOnly_extend, hkept]
  rfl

theorem errorsOnly_errorCount : c.errorsOnly.errorCount = c.errorCount := by
  simp only [errorCount, errors, errorsOnly, filter_filter, Bool.and_self]

/-- Warnings do not count towards the limit. -/
theorem errorsOnly_shouldStop : c.errorsOnly.shouldStop = c.shouldStop := by
  rw [shouldStop, shouldStop, errorsOnly_errorCount]
  rfl

end Collector

namespace Progress

/-- The outcome with its errors alone. -/
def BodyOutcome.errorsOnly (o : BodyOutcome) :
    BodyOutcome := { o with found := o.found.filter Diagnostic.isError }

/-- The state with its errors alone. -/
def errorsOnly (p : Progress) : Progress := { p with collector := p.collector.errorsOnly }

/-! ### Variables -/

theorem takeVariable_errorsOnly (p : Progress) (entry : Entry VarDecl) :
    p.errorsOnly.takeVariable entry = (p.takeVariable entry).map errorsOnly := by
  have henv : p.errorsOnly.env = p.env := rfl
  unfold takeVariable
  dsimp only
  rw [henv]
  rcases (variableScopes p.env entry).result with (@⟨d, hd⟩ | f) | scopes
  · show Except.ok { (p.keep (variableScopes p.env entry).facts).errorsOnly with
      collector := p.collector.errorsOnly.add d } = _
    rw [← Collector.errorsOnly_add p.collector hd]
    rfl
  · rfl
  · rfl

/-- **The variables that are taken in do not depend on the warnings before them.** -/
theorem takeVariables_errorsOnly (vars : List (Entry VarDecl)) (p : Progress) :
    takeVariables vars p.errorsOnly = (takeVariables vars p).map errorsOnly := by
  induction vars generalizing p with
  | nil => rfl
  | cons entry rest ih =>
    have hstop : p.errorsOnly.collector.shouldStop = p.collector.shouldStop :=
      p.collector.errorsOnly_shouldStop
    rw [takeVariables, takeVariables, hstop]
    split
    · rfl
    · rw [takeVariable_errorsOnly]
      rcases p.takeVariable entry with f | p'
      · rfl
      · exact ih p'

/-! ### Bodies -/

theorem flowOutcome_silent {b : Body} (h : Stmt.AllProper b.function.body) (facts : List Fact) :
    flowOutcome false b facts = (flowOutcome true b facts).map BodyOutcome.errorsOnly := by
  have hwarnings : (b.function.bodyFlow true b.signature).warnings.filter Diagnostic.isError = [] :=
    warnings_errors _
  unfold flowOutcome
  rw [FunctionDef.bodyFlow_silent h]
  dsimp only
  rcases (b.function.bodyFlow true b.signature).flow with f | flow
  · rfl
  · dsimp only
    rcases hcomplaint : (b.function.bodyFlow true b.signature).complaint with _ | d
    · simp only [Except.map, BodyOutcome.errorsOnly, hwarnings]
    · have hd := FunctionDef.bodyFlow_complaint hcomplaint
      simp only [Except.map, BodyOutcome.errorsOnly, rejected, filter_append, hwarnings,
        filter_cons_of_pos hd, filter_nil]

/-- **Without warnings a body has the outcome it has with them, the warnings taken out.** -/
theorem checkBody_silent {b : Body} (h : Stmt.AllProper b.function.body) (env : Env) :
    checkBody env false b = (checkBody env true b).map BodyOutcome.errorsOnly := by
  unfold checkBody
  dsimp only
  rcases (Inference.function env b.function b.signature).result with (@⟨d, hd⟩ | f) | u
  · simp only [Except.map, BodyOutcome.errorsOnly, rejected, nil_append, filter_cons_of_pos hd,
      filter_nil]
  · rfl
  · exact flowOutcome_silent h _

theorem takeBody_errorsOnly (p : Progress) (o : BodyOutcome) :
    p.errorsOnly.takeBody o.errorsOnly = (p.takeBody o).errorsOnly := by
  unfold takeBody errorsOnly
  dsimp only
  rw [Collector.errorsOnly_extend]
  rfl

theorem bodiesInTurn_silent {bs : List Body} (h : ∀ b ∈ bs, Stmt.AllProper b.function.body)
    (p : Progress) :
    bodiesInTurn false bs p.errorsOnly = (bodiesInTurn true bs p).map errorsOnly := by
  induction bs generalizing p with
  | nil => rfl
  | cons b rest ih =>
    obtain ⟨hb, hrest⟩ := forall_mem_cons.1 h
    have hstop : p.errorsOnly.collector.shouldStop = p.collector.shouldStop :=
      p.collector.errorsOnly_shouldStop
    rw [bodiesInTurn, bodiesInTurn, hstop, show p.errorsOnly.env = p.env from rfl,
      checkBody_silent hb]
    rcases checkBody p.env true b with f | o
    · rfl
    · show (if p.collector.shouldStop then _ else bodiesInTurn false rest
        (p.errorsOnly.takeBody o.errorsOnly)) =
        (if p.collector.shouldStop then _ else bodiesInTurn true rest (p.takeBody o) :
          Except Failure Progress).map _
      rw [takeBody_errorsOnly, ih hrest]
      split <;> rfl

theorem takeBodies_errorsOnly (outcomes : List BodyOutcome) (p : Progress) :
    takeBodies (outcomes.map BodyOutcome.errorsOnly)
      p.errorsOnly = (takeBodies outcomes p).errorsOnly := by
  induction outcomes generalizing p with
  | nil => rfl
  | cons o rest ih =>
    have hfacts : ((o :: rest).map BodyOutcome.errorsOnly).flatMap BodyOutcome.facts =
        (o :: rest).flatMap BodyOutcome.facts := flatMap_map ..
    rw [map_cons] at hfacts ⊢
    rw [takeBodies, takeBodies, show p.errorsOnly.collector.shouldStop = _
      from p.collector.errorsOnly_shouldStop, hfacts, length_map, takeBody_errorsOnly, ih]
    split <;> rfl

/-- **The bodies that are taken in do not depend on the warnings**, with one worker or several. -/
theorem bodies_silent (s : Settings) {bs : List Body} (h : ∀ b ∈ bs, Stmt.AllProper b.function.body)
    (p : Progress) : bodies { s with warnUnreachable := false } bs p.errorsOnly =
      (bodies { s with warnUnreachable := true } bs p).map errorsOnly := by
  have hmapM : bs.mapM (checkBody p.env false) =
      (bs.mapM (checkBody p.env true)).map (List.map BodyOutcome.errorsOnly) :=
    Except.mapM_map fun b hb => checkBody_silent (h b hb) p.env
  unfold bodies
  dsimp only
  split
  · show (bs.mapM (checkBody p.env false) >>= _) = _
    rw [hmapM]
    rcases bs.mapM (checkBody p.env true) with f | outcomes
    · rfl
    · exact congrArg Except.ok (takeBodies_errorsOnly outcomes (p.note _))
  · exact bodiesInTurn_silent h p

end Progress

/-! ### Declarations -/

namespace Signatures

/-- Only errors are reported about functions, and the bodies to be checked are those of entries. -/
structure Reported (entries : List (Entry FunctionDef)) (s : Signatures) : Prop where
  errors : ∀ d ∈ s.found, d.isError = true
  bodies : ∀ b ∈ s.bodies, .proper b.function ∈ entries

theorem Reported.step {entries : List (Entry FunctionDef)} {s s' : Signatures}
    {entry : Entry FunctionDef}
    (h : Reported entries s) (hentry : entry ∈ entries) (hs : s.step entry = .ok s') :
    Reported entries s' := by
  obtain ⟨f, rfl, hregister⟩ | ⟨d, hd, rfl⟩ := step_cases hs
  · obtain ⟨hfound, signature, added, -, hadd, rfl⟩ := register_eq_ok hregister
    refine ⟨hfound ▸ h.errors, ?_⟩
    rw [(add_eq_ok hadd).2.1]
    exact forall_mem_append.2 ⟨h.bodies, forall_mem_singleton.2 hentry⟩
  · exact ⟨forall_mem_append.2 ⟨h.errors, forall_mem_singleton.2 hd⟩, h.bodies⟩

theorem run_reported {r : Registry} {entries : List (Entry FunctionDef)} {s : Signatures}
    (h : run r entries = .ok s) : Reported entries s :=
  foldlM_invariant (P := fun _ s => Reported entries s)
    (fun _ _ _ _ _ hsplit hs hstep => hs.step (hsplit ▸ mem_append_right _ mem_cons_self) hstep)
    ⟨forall_mem_nil _, forall_mem_nil _⟩ h

end Signatures

/--
Two checks come to the same but for warnings.  The second has the diagnostics of the first, in
order, without those with the code of unreachable statements.  Both have the same verdict and the
same errors, the same registry, global scope and signatures, and the same facts, of which all tables
of types, backings and writes are views, and both have left over as many declarations.
-/
structure Checked.SameButWarnings (c c' : Checked) : Prop where
  diagnostics : c'.diagnostics = c.diagnostics.filter fun d => d.code != "W301"
  errors : c'.collector.errors = c.collector.errors
  accepted : c'.accepted = c.accepted
  env : c'.env = c.env
  bodies : c'.bodies = c.bodies
  facts : c'.facts = c.facts
  cache : c'.cache = c.cache
  skipped : c'.skipped = c.skipped

namespace Module

variable {m : Module} {s : Settings}

/-- Declarations are reported by errors alone, and bodies are those of functions. -/
theorem declarations_errorsOnly {p : Progress} {bs : List Body}
    (h : m.declarations s = .ok (p, bs)) :
    p.errorsOnly = p ∧ ∀ b ∈ bs, .proper b.function ∈ m.functions := by
  obtain ⟨types, htypes, h⟩ := bind_eq_ok.1 h
  obtain ⟨signatures, hsignatures, h⟩ := bind_eq_ok.1 h
  cases h
  have hreported := Signatures.run_reported hsignatures
  have hfound : (types.found ++ signatures.found).filter Diagnostic.isError =
      types.found ++ signatures.found :=
    filter_eq_self.2 (forall_mem_append.2
      ⟨(Registration.run_tallied htypes).errors, hreported.errors⟩)
  refine ⟨?_, hreported.bodies⟩
  unfold Progress.errorsOnly Collector.errorsOnly Collector.errors
  dsimp only
  rw [hfound]

theorem finish_sameButWarnings (bs : List Body) (p : Progress) :
    (m.finish bs p).SameButWarnings (m.finish bs p.errorsOnly) := by
  have hcount : p.errorsOnly.collector.errorCount = p.collector.errorCount :=
    p.collector.errorsOnly_errorCount
  refine ⟨?_, ?_, ?_, ?_, rfl, ?_, ?_, ?_⟩
  · simp only [Checked.diagnostics, finish_collector, Diagnostic.code_ne_iff]
    rfl
  · simp only [finish_collector]
    exact filter_filter.trans (by simp only [Bool.and_self, Collector.errors])
  · simp only [Checked.accepted, finish_collector, hcount]
  · simp only [finish_env]
    rfl
  · simp only [finish_facts]
    rfl
  · have hskipped : p.errorsOnly.skipped = p.skipped := rfl
    unfold finish
    dsimp only
    rw [hcount, hskipped]
    split <;> rfl
  · simp only [finish_skipped]
    rfl

/-- **Warnings change nothing in the check of a module in which nothing is missing.** -/
theorem check_sameButWarnings (h : m.Intact) (s : Settings) :
    Except.Agree Checked.SameButWarnings (m.check { s with warnUnreachable := true })
      (m.check { s with warnUnreachable := false }) := by
  have hdeclarations : m.declarations { s with warnUnreachable := false } =
      m.declarations { s with warnUnreachable := true } := rfl
  unfold check
  rw [hdeclarations]
  rcases hdeclared : m.declarations { s with warnUnreachable := true } with f | ⟨p, bs⟩
  · exact .error f
  obtain ⟨hp, hbs⟩ := declarations_errorsOnly hdeclared
  show Except.Agree _ (Progress.takeVariables m.vars p >>= _)
    (Progress.takeVariables m.vars p >>= _)
  rcases htaken : Progress.takeVariables m.vars p with f | p₁
  · exact .error f
  -- No warning has been reported before the bodies are looked at.
  have hp₁ : p₁.errorsOnly = p₁ := by
    have htaken' := Progress.takeVariables_errorsOnly m.vars p
    rw [hp, htaken] at htaken'
    exact (Except.ok.inj htaken').symm
  have hproper : ∀ b ∈ bs, Stmt.AllProper b.function.body := by
    intro b hb
    obtain ⟨f, hf, hintact⟩ := h.functions _ (hbs b hb)
    obtain rfl := Entry.proper.inj hf
    exact hintact.body.allProper
  have hbodies := Progress.bodies_silent s hproper p₁.close
  rw [show p₁.close.errorsOnly = p₁.errorsOnly.close from rfl, hp₁] at hbodies
  exact (Except.Agree.of_map hbodies).bind fun p₂ p₂' hp₂ =>
    .ok (hp₂ ▸ finish_sameButWarnings bs p₂)

/--
**Warnings about unreachable statements never change the outcome.**

Let a module be loaded from a document, or from the text of one, and take any settings, once with
these warnings and once without.  Then either both checks fail, and in the same way, or both come to
an end.  In that case the check without warnings has the diagnostics of the other in the same order,
those about unreachable statements taken out, and otherwise the two come to the same.
-/
theorem check_unwarned {t : Tree}
    (hload : (∃ doc, Tree.ofDocument doc = .ok t) ∨ ∃ text, Tree.ofText text = .ok t)
    (place : Place) (s : Settings) :
    ∃ m, ofTree? place t = some m ∧
      Except.Agree Checked.SameButWarnings (m.check { s with warnUnreachable := true })
        (m.check { s with warnUnreachable := false }) := by
  obtain ⟨hwell, hroot⟩ := Tree.loaded_wellFormed hload
  obtain ⟨m, hm, hintact⟩ := intact_ofTree? hwell hroot place
  exact ⟨m, hm, check_sameButWarnings hintact s⟩

/--
A document of a module with three functions.  The first goes on after it has returned, the second
calls a function that is not there, and the third has a loop that is never entered.
-/
def idleDocument : Json :=
  let on (line column : Int) : String × Json := ("span", .arr [.int line, .int column])
  let body (line : Int) (statements : List Json) : Json :=
    .obj [("node", .str "Block"), on line 20, ("statements", .arr statements)]
  let function (line : Int) (name : String) (statements : List Json) : Json :=
    .obj [("node", .str "FunctionDef"), on line 1, ("name", .str name), ("parameters", .arr []),
      ("return_type", .null), ("body", body line statements)]
  let call : Json := .obj [("node", .str "FunctionCall"), on 5 5,
    ("callee", .obj [("node", .str "Identifier"), on 5 5, ("name", .str "missing")])]
  let never : Json := .obj
    [("node", .str "Literal"), on 7 11, ("value", .bool false), ("literal_kind", .str "bool")]
  .obj [("file", .str "idle.src"),
    ("module", .obj [("node", .str "Module"), on 1 1, ("name", .str "idle"), ("functions", .arr [
      function 1 "f" [.obj [("node", .str "ReturnStatement"), on 2 5],
        .obj [("node", .str "PassStatement"), on 3 5]],
      function 4 "g" [.obj [("node", .str "ExpressionStatement"), on 5 5, ("expression", call)]],
      function 6 "h" [.obj [("node", .str "WhileStatement"), on 7 5, ("condition", never),
        ("body", body 7 [.obj [("node", .str "PassStatement"), on 8 9]])]]])])]

/-- With two workers there is a warning, an error and another warning, or the error alone. -/
theorem check_unwarned_idle : ∃ t m c c', Tree.ofDocument idleDocument = .ok t ∧ ofTree? (.root 0)
    t = some m ∧ m.check { workers := 2, warnUnreachable := true } = .ok c ∧
    m.check { workers := 2, warnUnreachable := false } = .ok c' ∧
    c.diagnostics.map Diagnostic.code = ["W301", "E201", "W301"] ∧
    c'.diagnostics.map Diagnostic.code = ["E201"] ∧ c.SameButWarnings c' := by
  have hrun : ((Tree.ofDocument idleDocument).toOption.bind (ofTree? (.root 0))).map (fun m =>
      (m.check { workers := 2, warnUnreachable := true }).toOption.map fun c => c.diagnostics.map
        Diagnostic.code) = some (some ["W301", "E201", "W301"]) := by decide +kernel
  obtain ⟨m, hread, hcheck⟩ := Option.map_eq_some_iff.1 hrun
  obtain ⟨t, hload, hm⟩ := Option.bind_eq_some_iff.1 hread
  obtain ⟨c, hc, hcodes⟩ := Option.map_eq_some_iff.1 hcheck
  have hload := toOption_eq_some.1 hload
  have hc := toOption_eq_some.1 hc
  obtain ⟨m', hm', hagree⟩ := check_unwarned (.inl ⟨_, hload⟩) (.root 0) { workers := 2 }
  obtain rfl := Option.some.inj (hm'.symm.trans hm)
  obtain ⟨c', hc', hsame⟩ := hagree.exists_ok hc
  have hcodes' : c'.diagnostics.map Diagnostic.code = ["W301", "E201", "W301"].filter
      (· != "W301") := by
    rw [hsame.diagnostics, ← hcodes, filter_map]
    rfl
  exact ⟨t, m', c, c', hload, hm, hc, hc', hcodes, hcodes', hsame⟩

end Module

end TreeTyping
