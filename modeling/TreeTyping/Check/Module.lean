/-
Checking a module.

Types are registered first, then the signatures of functions; then the registry is closed.  Next
come the variables of the module, in order, each in scope for those after it, and last the bodies of
functions, each on its own.  An error ends the check of the declaration it is found in and of
nothing else.

Once the limit on errors is reached no further declaration is taken in, and those left over are
counted as skipped.  Bodies are checked one at a time, and the limit is looked at after each: one
body more than needed may have been checked, and what was established about it is not kept, though
its questions about interfaces have been asked.  With several workers all bodies are checked before
the first is taken in, which makes no difference to the outcome.
-/
import TreeTyping.Check.Signatures
import TreeTyping.Diagnostic.Collector
import TreeTyping.Fact.Tables
import TreeTyping.Flow.Body
import TreeTyping.Settings.Basic
import TreeTyping.Typing.Stmt

namespace TreeTyping

/-- The state of a check after registration. -/
structure Progress where
  env : Env
  collector : Collector
  /-- What has been established about the declarations taken in. -/
  facts : List Fact
  /-- Everything that has been established, whether it is kept or not. -/
  trail : List Fact
  /-- The number of declarations left over when the limit was reached. -/
  skipped : Nat := 0

namespace Progress

/-- The state with facts that are kept. -/
def keep (p : Progress) (facts : List Fact) : Progress :=
  { p with facts := p.facts ++ facts, trail := p.trail ++ facts }

/-- The state with facts that are not kept. -/
def drop (p : Progress) (facts : List Fact) : Progress := { p with trail := p.trail ++ facts }

def note (p : Progress) (n : Note) : Progress := p.drop [.noted n]

/-! ### Variables -/

/-- Checks one entry of a module's variables; the scopes are those after it. -/
def variableScopes (env : Env) : Entry VarDecl → Inference Scopes
  | .foreign f => Inference.complain (.notAVariable f.kind) f.span
  | .proper d => Inference.declare env d

def takeVariable (p : Progress) (entry : Entry VarDecl) : Except Failure Progress :=
  let inference := variableScopes p.env entry
  let p := p.keep inference.facts
  match inference.result with
  | .ok scopes => .ok { p with env := p.env.withScopes scopes }
  | .error (.found d) => .ok { p with collector := p.collector.add d }
  | .error f => .error f

/-- Takes in variables until the limit is reached. -/
def takeVariables : List (Entry VarDecl) → Progress → Except Failure Progress
  | [], p => .ok p
  | entry :: rest, p =>
    if p.collector.shouldStop then .ok { p with skipped := p.skipped + (rest.length + 1) }
    else do
      let p ← p.takeVariable entry
      takeVariables rest p

def close (p : Progress) : Progress :=
  let scopes := p.env.scopes
  { p with env := p.env.withScopes { scopes with global := { scopes.global with frozen := true } } }

/-! ### Bodies -/

/-- What the check of a body established and reports. -/
structure BodyOutcome where
  facts : List Fact
  found : List Diagnostic

/-- The outcome of a body in which an error was found. -/
def rejected (b : Body) (facts : List Fact) (warnings : List Diagnostic) (d : Diagnostic) :
    BodyOutcome :=
  { facts := facts ++ [.noted (.functionRejected b.signature.qualifiedName d.message)]
    found := warnings ++ [d] }

/-- The outcome of a body whose statements are right, by its flow. -/
def flowOutcome (warn : Bool) (b : Body) (facts : List Fact) : Except Failure BodyOutcome :=
  let body := b.function.bodyFlow warn b.signature
  match body.flow with
  | .error f => .error (.fault f)
  | .ok flow =>
    let facts := facts ++ [.noted (.bodyFlow b.signature.qualifiedName flow.name)]
    match body.complaint with
    | none => .ok { facts, found := body.warnings }
    | some d => .ok (rejected b facts body.warnings d)

/-- Checks a body: its statements, and then its flow. -/
def checkBody (env : Env) (warn : Bool) (b : Body) : Except Failure BodyOutcome :=
  let inference := Inference.function env b.function b.signature
  match inference.result with
  | .ok () => flowOutcome warn b inference.facts
  | .error (.found d) => .ok (rejected b inference.facts [] d)
  | .error f => .error f

def takeBody (p : Progress) (o : BodyOutcome) : Progress :=
  { p.keep o.facts with collector := p.collector.extend o.found }

/-- Checks bodies one at a time until the limit is reached. -/
def bodiesInTurn (warn : Bool) : List Body → Progress → Except Failure Progress
  | [], p => .ok p
  | b :: rest, p => do
    let o ← checkBody p.env warn b
    if p.collector.shouldStop then
      return { p.drop o.facts with skipped := p.skipped + (rest.length + 1) }
    else
      bodiesInTurn warn rest (p.takeBody o)

/-- Takes in the outcomes of bodies until the limit is reached. -/
def takeBodies : List BodyOutcome → Progress → Progress
  | [], p => p
  | o :: rest, p =>
    if p.collector.shouldStop then
      { p.drop ((o :: rest).flatMap BodyOutcome.facts) with
        skipped := p.skipped + (rest.length + 1) }
    else takeBodies rest (p.takeBody o)

def bodies (s : Settings) (bs : List Body) (p : Progress) : Except Failure Progress :=
  if s.workers > 1 ∧ bs.length > 1 then do
    let outcomes ← bs.mapM (checkBody p.env s.warnUnreachable)
    return takeBodies outcomes (p.note (.bodiesShared bs.length s.workers))
  else bodiesInTurn s.warnUnreachable bs p

end Progress

/-! ### The outcome -/

structure Checked where
  /-- What later questions about the module refer to; its scopes hold the module's variables. -/
  env : Env
  /-- The functions that were registered, in order. -/
  bodies : List Body
  collector : Collector
  facts : List Fact
  trail : List Fact
  /-- The answers about interfaces that are remembered. -/
  cache : SatisfactionCache
  skipped : Nat

namespace Checked

def diagnostics (c : Checked) : List Diagnostic := c.collector.found

/-- Whether a module is accepted: warnings do not matter. -/
def accepted (c : Checked) : Bool := c.collector.errorCount = 0

/-- Whether the limit on errors cut the check short. -/
def truncated (c : Checked) : Bool := c.skipped > 0

def notes (c : Checked) : List Note := Fact.notes c.trail

end Checked

namespace Module

def label (m : Module) : String :=
  match m.name with
  | none => "<anonymous>"
  | some name => if name = "" then "<anonymous>" else name

/-- The outcome of a check that has come to its end. -/
def finish (m : Module) (bodies : List Body) (p : Progress) : Checked :=
  let errors := p.collector.errorCount
  let p := if p.skipped > 0 then p.note (.stopped errors p.skipped) else p
  let cache := SatisfactionCache.replay {} p.env.registry (Fact.questions p.trail)
  let p := p.note (.cacheStats cache.hits cache.misses cache.answers.length)
  let p := p.note (.verdict m.label (errors = 0) errors p.collector.warningCount)
  { env := p.env, bodies, collector := p.collector, facts := p.facts, trail := p.trail, cache,
    skipped := p.skipped }

/-- The state after types and functions are registered. -/
def declarations (s : Settings) (m : Module) : Except Failure (Progress × List Body) := do
  let types ← Registration.run {} m.types
  let signatures ← Signatures.run types.registry m.functions
  let registry := signatures.registry.freeze
  let facts := [.noted types.note] ++ signatures.facts ++
    [.noted (.registryFrozen registry.names.length)]
  let p : Progress :=
    { env := { registry, wordBits := s.wordBits, functions := signatures.functions, scopes := {} }
      collector := { limit := s.maxErrors, found := types.found ++ signatures.found }
      facts, trail := facts }
  return (p, signatures.bodies)

def check (s : Settings) (m : Module) : Except Failure Checked := do
  let (p, bodies) ← m.declarations s
  let p ← Progress.takeVariables m.vars p
  let p ← Progress.bodies s bodies p.close
  return m.finish bodies p

end Module

end TreeTyping
