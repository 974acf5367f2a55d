/-
Sessions.

After a module has been checked, further statements and expressions can be checked against it, one
at a time.  A session keeps the scopes that are open, the facts established since it began, and the
answers about interfaces that are remembered.  Its global scope is that of the module, to which
nothing can be added.

Whatever fails leaves the scopes as they were; the facts established before the failure stay.
-/
import TreeTyping.Check.Module

namespace TreeTyping

/-- What is kept between questions about a checked module. -/
structure Session where
  env : Env
  facts : List Fact := []
  cache : SatisfactionCache := {}

namespace Session

def ofChecked (c : Checked) : Session := { env := c.env, cache := c.cache }

def scopes (s : Session) : Scopes := s.env.scopes

def withScopes (s : Session) (scopes : Scopes) :
    Session := { s with env := s.env.withScopes scopes }

def push (s : Session) (name : String) : Session := s.withScopes (s.scopes.push name)

def pop (s : Session) : Session := s.withScopes s.scopes.pop

/-- The session after facts were established: the questions among them have been asked. -/
def learn (s : Session) (facts : List Fact) : Session :=
  { s with
    facts := s.facts ++ facts
    cache := s.cache.replay s.env.registry (Fact.questions facts) }

/-- The outcome of an inference, and the session after it. -/
def infer {α : Type} (s : Session) (x : Inference α) : Except Failure α × Session :=
  (x.result, s.learn x.facts)

/-- Checks a statement; a declaration stays in scope. -/
def statement (s : Session) (stmt : Stmt) : Except Failure Unit × Session :=
  let x := Inference.statement s.env {} stmt
  match x.result with
  | .ok scopes => (.ok (), (s.learn x.facts).withScopes scopes)
  | .error f => (.error f, s.learn x.facts)

def function (s : Session) (f : FunctionDef) (signature : Signature) :
    Except Failure Unit × Session :=
  s.infer (Inference.function s.env f signature)

end Session

end TreeTyping
