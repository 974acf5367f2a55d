/-
Checks that are carried out on an engine.

An engine is changed as a check goes on: scopes are opened and closed, names are defined, loops are
entered and left.  What has been changed stays so when a later step fails, so a scope has to be
closed and a loop left on every way out.  A check on an engine comes to what the inference comes to
and finds the same facts; whether it succeeds or fails, it leaves the scopes and loops it was
started in.
-/
import TreeTyping.Proofs.Syntax.Occurrence
import TreeTyping.Proofs.Typing.Scoping

namespace TreeTyping

/-- What a check changes as it goes on. -/
structure Engine where
  env : Env
  signature : Option Signature := none
  /-- The number of loops around. -/
  loops : Nat := 0
  facts : List Fact := []

namespace Engine

def around (s : Engine) : Surroundings := ⟨s.signature, decide (0 < s.loops)⟩

def withScopes (s : Engine) (scopes : Scopes) : Engine := { s with env := s.env.withScopes scopes }

def told (s : Engine) (facts : List Fact) : Engine := { s with facts := s.facts ++ facts }

/-- A check on an engine, which stays as it is when the check fails. -/
abbrev Check := EStateM Failure Engine

/-- What a check comes to, and the engine it leaves. -/
def ends {α : Type} (result : Except Failure α) (s : Engine) : EStateM.Result Failure Engine α :=
  match result with
  | .ok a => .ok a s
  | .error e => .error e s

/-- A rule reads the engine and adds the facts it finds. -/
def rule {α : Type} (x : Env → Surroundings → Inference α) : Check α := fun s =>
  ends (x s.env s.around).result (s.told (x s.env s.around).log)

/-- A rule that defines names. -/
def defining (x : Env → Surroundings → Inference Scopes) : Check Unit := do
  let scopes ← rule x
  modify (·.withScopes scopes)

def inScope (name : String) (x : Check Unit) : Check Unit := do
  modify fun s => s.withScopes (s.env.scopes.push name)
  try x finally modify fun s => s.withScopes s.env.scopes.pop

def inLoop (x : Check Unit) : Check Unit := do
  modify fun s => { s with loops := s.loops + 1 }
  try x finally modify fun s => { s with loops := s.loops - 1 }

/-! ### Statements and functions -/

mutual

def statement : Stmt → Check Unit
  | .cond _ c body more otherwise => do
    rule fun env _ => Inference.condition env "if condition" c
    inScope "if branch" (statements body)
    branches more
    optionalBlock "else branch" otherwise
  | .select _ subject arms otherwise => do
    let t ← rule fun env _ => Inference.infer env none subject
    cases t arms
    optionalBlock "match default" otherwise
  | .loop _ c body => do
    rule fun env _ => Inference.condition env "while condition" c
    inLoop (inScope "while loop" (statements body))
  | .iterate o name e body => do
    let t ← rule fun env _ => Inference.iterated env e
    inLoop (inScope "for loop" do
      defining fun env _ => do
        let scopes ← Inference.define "variable" env.scopes
          ⟨name, .variable, t, some o.span, some ⟨o, some name⟩⟩ o.span
        Inference.record (.typed o.place t)
        return scopes
      inScope "for body" (statements body))
  | .block _ body => inScope "block" (statements body)
  -- whatever has no block opens no scope
  | s => defining fun env around => Inference.statement env around s

def statements : List Stmt → Check Unit
  | [] => pure ()
  | s :: rest => do
    statement s
    statements rest

def optionalBlock (scope : String) : Option (List Stmt) → Check Unit
  | none => pure ()
  | some body => inScope scope (statements body)

def branches : List Branch → Check Unit
  | [] => pure ()
  | .mk c body :: rest => do
    rule fun env _ => Inference.condition env "elif condition" c
    inScope "elif branch" (statements body)
    branches rest

def cases (subject : Ty) : List Case → Check Unit
  | [] => pure ()
  | .mk values body :: rest => do
    rule fun env _ => Inference.armValues env subject values
    inScope "match case" (statements body)
    cases subject rest

end

def parameters : List Param → List (String × Ty) → Check Unit
  | p :: params, (_, t) :: types => do
    defining fun env _ => Inference.define "parameter" env.scopes
      ⟨p.name, .parameter, t, some p.origin.span, some p.declaration⟩ p.origin.span
    rule fun _ _ => Inference.record (.typed p.origin.place t)
    parameters params types
  | _, _ => pure ()

/-- The body of a function; in the end the engine is in no function and in no loop. -/
def function (f : FunctionDef) (signature : Signature) : Check Unit := do
  modify fun s => { s with signature := some signature, loops := 0 }
  try
    inScope ("func " ++ f.qualifiedName) do
      defining fun env _ => Inference.receiver env.scopes f.receiver signature.receiver
      parameters f.params signature.params
      statements f.body
  finally
    modify fun s => { s with signature := none }

/-! ### Following an inference -/

/--
On the engine `s` the check `m` comes to what the inference `x` comes to, with the same facts.
Whatever that is, the innermost scope has at most grown; when both succeed the scopes that are left
are related to the results.
-/
def Follows {α β : Type} (T : Scopes → α → β → Prop) (s : Engine) (x : Inference α) (m : Check β) :
    Prop :=
  ∃ r scopes, m s = ends r ((s.withScopes scopes).told x.log) ∧ s.env.scopes.Grows scopes ∧
    Except.Agree (T scopes) x.result r

/-- A check that succeeds leaves the scopes as they are. -/
abbrev Keeps {α : Type} (s : Engine) (x : Inference α) (m : Check Unit) : Prop :=
  Follows (fun scopes _ _ => scopes = s.env.scopes) s x m

/-- A check that succeeds leaves the scopes that the inference comes to. -/
abbrev Leaves (s : Engine) (x : Inference Scopes) (m : Check Unit) : Prop :=
  Follows (fun scopes found _ => scopes = found) s x m

theorem told_told (s : Engine) (facts more : List Fact) :
    (s.told facts).told more = s.told (facts ++ more) := by
  simp only [told, List.append_assoc]

/-- What is done at the end is done whatever comes before it. -/
theorem finally_eq {m : Check Unit} {f : Engine → Engine} {s s' : Engine} {r : Except Failure Unit}
    (h : m s = ends r s') : (tryFinally m (modify f) : Check Unit) s = ends r (f s') := by
  cases r <;> simp only [tryFinally, Functor.map, EStateM.map, tryFinally', h, ends] <;> rfl

namespace Follows

variable {α β γ δ : Type} {s : Engine} {x : Inference α} {T' : Scopes → γ → δ → Prop}

section Bind

variable {T : Scopes → α → β → Prop} {m : Check β} {y : α → Inference γ}

theorem done {a : α} {b : β} (h : T s.env.scopes a b) : Follows T s (pure a) (pure b) := by
  refine ⟨.ok b, s.env.scopes, ?_, .refl _, .ok h⟩
  show EStateM.Result.ok b s = .ok b (s.told [])
  rw [told, List.append_nil]

theorem rule {x : Env → Surroundings → Inference α} :
    Follows (fun scopes a b => scopes = s.env.scopes ∧ a = b) s (x s.env s.around) (rule x) := by
  refine ⟨(x s.env s.around).result, s.env.scopes, rfl, .refl _, ?_⟩
  rcases (x s.env s.around).result with e | a
  · exact .error e
  · exact .ok ⟨rfl, rfl⟩

theorem bind {k : β → Check δ} (h : Follows T s x m)
    (hk : ∀ scopes a b facts, T scopes a b → Follows T' ((s.withScopes scopes).told facts)
      (y a) (k b)) :
    Follows T' s (x >>= y) (m >>= k) := by
  obtain ⟨r, scopes, hm, hgrows, hagree⟩ := h
  have hbind : (m >>= k) s = EStateM.bind m k s := rfl
  rw [EStateM.bind, hm] at hbind
  rcases hx : x.result with e | a <;> rw [hx] at hagree <;> cases hagree
  case error =>
    -- what the first check changed stays, and the second is not begun
    refine ⟨.error e, scopes, ?_, hgrows, by rw [Inference.result_bind_of_error hx]; exact .error e⟩
    rw [hbind, Inference.log_bind_of_error hx]
    rfl
  case ok b hT =>
    obtain ⟨r', scopes', hk, hgrows', hagree'⟩ := hk scopes a b x.log hT
    refine ⟨r', scopes', ?_, hgrows.trans hgrows', by rwa [Inference.result_bind_of_ok hx]⟩
    rw [Inference.log_bind_of_ok hx, ← told_told]
    exact hbind.trans hk

theorem last {T' : Scopes → γ → β → Prop} {c : γ} (h : Follows T s x m)
    (hT : ∀ scopes a b, T scopes a b → T' scopes c b) : Follows T' s (x >>= fun _ => pure c) m := by
  rw [← bind_pure m]
  exact h.bind fun scopes a b _ hab => done (hT scopes a b hab)

theorem after_rule {x : Env → Surroundings → Inference α} {k : α → Check δ}
    (hk : ∀ a facts, Follows T' (s.told facts) (y a) (k a)) :
    Follows T' s (x s.env s.around >>= y) (Engine.rule x >>= k) := by
  refine rule.bind fun scopes a b facts h => ?_
  obtain ⟨rfl, rfl⟩ := h
  exact hk a facts

end Bind

variable {m : Check Unit} {k : Check δ}

theorem after {y : α → Inference γ} (h : Keeps s x m)
    (hk : ∀ a facts, Follows T' (s.told facts) (y a) k) :
    Follows T' s (x >>= y) (m >>= fun _ => k) := by
  refine h.bind fun scopes a b facts h => ?_
  obtain rfl := h
  exact hk a facts

theorem after_leaving {x : Inference Scopes} {y : Scopes → Inference γ} (h : Leaves s x m)
    (hk : ∀ scopes facts, Follows T' ((s.withScopes scopes).told facts) (y scopes) k) :
    Follows T' s (x >>= y) (m >>= fun _ => k) := by
  refine h.bind fun scopes a b facts h => ?_
  obtain rfl := h
  exact hk scopes facts

theorem defining {x : Env → Surroundings → Inference Scopes}
    (h : ∀ scopes, (x s.env s.around).result = .ok scopes → s.env.scopes.Grows scopes) :
    Leaves s (x s.env s.around) (defining x) := by
  have hbind : Engine.defining x s = EStateM.bind (Engine.rule x)
    (fun scopes => modify (·.withScopes scopes)) s := rfl
  rw [EStateM.bind, Engine.rule] at hbind
  rcases hx : (x s.env s.around).result with e | scopes <;> rw [hx] at hbind
  · exact ⟨.error e, s.env.scopes, hbind, .refl _, hx ▸ .error e⟩
  · exact ⟨.ok (), scopes, hbind, h scopes hx, hx ▸ .ok rfl⟩

/-- **A scope is closed whatever comes of the check in it.** -/
theorem inScope_eq {T : Scopes → α → Unit → Prop} {name : String}
    (h : Follows T (s.withScopes (s.env.scopes.push name)) x m) :
    inScope name m s = ends (x.result.map fun _ => ()) (s.told x.log) := by
  obtain ⟨r, scopes, hm, hgrows, hagree⟩ := h
  have hr : r = x.result.map fun _ => () := by
    generalize x.result = result at hagree
    cases hagree <;> rfl
  refine (finally_eq hm).trans ?_
  show ends r ((s.withScopes scopes.pop).told x.log) = _
  rw [Scopes.Grows.pop hgrows, hr]
  rfl

theorem inScope {T T' : Scopes → α → Unit → Prop} {name : String}
    (h : Follows T (s.withScopes (s.env.scopes.push name)) x m)
    (hT : ∀ scopes a, T scopes a () → T' s.env.scopes a ()) : Follows T' s x (inScope name m) := by
  refine ⟨_, s.env.scopes, inScope_eq h, .refl _, ?_⟩
  obtain ⟨r, scopes, -, -, hagree⟩ := h
  generalize x.result = result at hagree ⊢
  cases hagree with
  | ok h => exact .ok (hT _ _ h)
  | error e => exact .error e

theorem inLoop {T : Scopes → α → Unit → Prop} (h : Follows T { s with loops := s.loops + 1 } x m) :
    Follows T s x (inLoop m) := by
  obtain ⟨r, scopes, hm, hrest⟩ := h
  exact ⟨r, scopes, finally_eq hm, hrest⟩

end Follows

/-! ### Statements -/

/-- Wherever the statement stands, its check follows the inference. -/
def StmtFollowed (st : Stmt) :
    Prop := ∀ s : Engine, Leaves s (Inference.statement s.env s.around st) (statement st)

variable {s : Engine}

theorem statements_leaves {body : List Stmt} (h : ∀ st ∈ body, StmtFollowed st) {s : Engine} :
    Leaves s (Inference.statements s.env s.around body) (statements body) := by
  induction body generalizing s with
  | nil => exact .done rfl
  | cons st rest ih =>
    obtain ⟨hst, hrest⟩ := List.forall_mem_cons.1 h
    exact .after_leaving (hst s) fun _ _ => ih hrest

theorem block_keeps {name : String} {body : List Stmt} (h : ∀ st ∈ body, StmtFollowed st) :
    Keeps s (Inference.statements (s.env.inside name) s.around body)
      (inScope name (statements body)) :=
  .inScope (statements_leaves h) fun _ _ _ => rfl

theorem optionalBlock_keeps {scope : String} {otherwise : Option (List Stmt)}
    (h : ∀ last, otherwise = some last → ∀ st ∈ last, StmtFollowed st) :
    Keeps s (Inference.optionalBlock s.env s.around scope otherwise)
      (optionalBlock scope otherwise) := by
  cases otherwise with
  | none => exact .done rfl
  | some body => exact (block_keeps (h body rfl)).last fun _ _ _ => id

theorem branches_keeps {more : List Branch} (h : ∀ b ∈ more, ∀ st ∈ b.body, StmtFollowed st)
    {s : Engine} : Keeps s (Inference.branches s.env s.around more) (branches more) := by
  induction more generalizing s with
  | nil => exact .done rfl
  | cons b rest ih =>
    obtain ⟨c, body⟩ := b
    obtain ⟨hb, hrest⟩ := List.forall_mem_cons.1 h
    exact .after_rule fun _ _ => .after (block_keeps hb) fun _ _ => ih hrest

theorem cases_keeps {subject : Ty} {arms : List Case}
    (h : ∀ a ∈ arms, ∀ st ∈ a.body, StmtFollowed st) {s : Engine} :
    Keeps s (Inference.cases s.env s.around subject arms) (cases subject arms) := by
  induction arms generalizing s with
  | nil => exact .done rfl
  | cons a rest ih =>
    obtain ⟨values, body⟩ := a
    obtain ⟨ha, hrest⟩ := List.forall_mem_cons.1 h
    exact .after_rule fun _ _ => .after (block_keeps ha) fun _ _ => ih hrest

/-- **The check of a statement follows the inference.** -/
theorem stmtFollowed (st : Stmt) : StmtFollowed st := by
  induction st using Stmt.byForm with intro s
  | cond o c body more otherwise hbody hmore hlast =>
    rw [Inference.statement, statement]
    refine .after_rule fun _ _ => .after (block_keeps hbody) fun _ _ =>
      .after (branches_keeps hmore) fun _ _ => ?_
    exact (optionalBlock_keeps hlast).last fun _ _ _ => id
  | select o subject arms otherwise harms hlast =>
    rw [Inference.statement, statement]
    refine .after_rule fun _ _ => .after (cases_keeps harms) fun _ _ => ?_
    exact (optionalBlock_keeps hlast).last fun _ _ _ => id
  | loop o c body hbody =>
    rw [Inference.statement, statement]
    exact .after_rule fun _ _ => (Follows.inLoop (block_keeps hbody)).last fun _ _ _ => id
  | iterate o name e body hbody =>
    rw [Inference.statement, statement]
    -- the loop variable has a scope of its own around that of the body, and both are closed in the
    -- end
    refine .after_rule fun t _ =>
      .inLoop (.inScope (T := fun _ found _ => s.env.scopes = found) ?_ fun _ _ => id)
    exact .after_leaving (.defining fun _ h => Inference.loopScope_grows h) fun _ _ =>
      (block_keeps hbody).last fun _ _ _ _ => rfl
  | block o body hbody =>
    rw [Inference.statement, statement]
    exact (block_keeps hbody).last fun _ _ _ => id
  | _ => exact Follows.defining fun _ h => Inference.statement_grows h

/-! ### Functions -/

theorem parameters_leaves {params : List Param} {types : List (String × Ty)} {s : Engine} :
    Leaves s (Inference.parameters s.env.scopes params types) (parameters params types) := by
  induction params generalizing s types with
  | nil => exact .done rfl
  | cons p params ih =>
    cases types with
    | nil => exact .done rfl
    | cons entry types =>
      exact .after_leaving (.defining fun _ h => Inference.define_grows h) fun _ _ =>
        .after_rule fun _ _ => ih

theorem function_eq {f : FunctionDef} {signature : Signature} :
    function f signature s = ends (Inference.function s.env f signature).result
      { s.told (Inference.function s.env f signature).log with signature := none, loops := 0 } := by
  show (tryFinally (inScope ("func " ++ f.qualifiedName) _) (modify _) : Check Unit)
    { s with signature := some signature, loops := 0 } = _
  refine (finally_eq (Follows.inScope_eq (x := Inference.function s.env f signature)
    (T := fun _ _ _ => True) ?_)).trans ?_
  · refine .after_leaving (.defining fun _ h => Inference.receiver_grows h) fun _ _ => ?_
    refine .after_leaving parameters_leaves fun _ _ => ?_
    exact (statements_leaves fun st _ => stmtFollowed st).last fun _ _ _ _ => trivial
  · cases (Inference.function s.env f signature).result <;> rfl

/--
**Whatever comes of a check, it leaves the scopes and the loops it was started in.**  A statement
that is accepted or refused adds symbols to the innermost scope at most, under names that were free
there.  A block adds none, and after a function all scopes are as they were.  All of them come to
what the inference comes to, with the same facts.
-/
theorem scopes_restored (s : Engine) :
    (∀ st, ∃ r scopes,
      statement st s = ends r ((s.withScopes scopes).told
        (Inference.statement s.env s.around st).log) ∧
      s.env.scopes.Grows scopes ∧
      Except.Agree (fun found _ => scopes = found)
        (Inference.statement s.env s.around st).result r) ∧
    (∀ name body, inScope name (statements body) s =
      ends ((Inference.statements (s.env.inside name) s.around body).result.map fun _ => ())
        (s.told (Inference.statements (s.env.inside name) s.around body).log)) ∧
    ∀ f signature, function f signature s = ends (Inference.function s.env f signature).result
      { s.told (Inference.function s.env f signature).log with signature := none, loops := 0 } := by
  refine ⟨fun st => stmtFollowed st s, fun name body => ?_, fun f signature => function_eq⟩
  exact Follows.inScope_eq (statements_leaves fun st _ => stmtFollowed st)

end Engine

end TreeTyping
