/-
Rules for statements.

A statement is checked in the scopes that are open and leaves them as they are, except that a
declaration adds its variable to the innermost one.  A block opens a scope of its own, and a loop
over a collection one for its variable and another for its body.  A declared name is not in scope in
its own initializer: the variable is added last, after everything that can fail.
-/
import TreeTyping.Composed.Default
import TreeTyping.Typing.Expr

namespace TreeTyping

/-- The declaration a variable statement is; a variable without a name is listed without one. -/
def VarDecl.declaration (d : VarDecl) : Declaration :=
  ⟨d.origin, if d.name = "" then none else some d.name⟩

/-- The declaration a parameter is; a parameter without a name is listed without one. -/
def Param.declaration (p : Param) : Declaration :=
  ⟨p.origin, if p.name = "" then none else some p.name⟩

namespace Inference

/-! ### Single rules -/

def define (what : String) (scopes : Scopes) (symbol : Symbol) (span : Span) :
    Inference Scopes := do
  match ← lift (scopes.define symbol) with
  | .inl scopes => return scopes
  | .inr previous => complain (.duplicate what symbol.name previous.span?) span

def recordBacking (o : Origin) (t : Ty) : Inference Unit :=
  match Backing.ofType? t with
  | some b => record (.backed o b)
  | none => pure ()

def defaultOf (r : Registry) (t : Ty) : Inference Value :=
  match r.default t with
  | .ok v => pure v
  | .error f => faulty f

/-- The first write to a variable that is declared without a value. -/
def defaultWrite (env : Env) (d : VarDecl) (declared : Option Ty) : Inference (Ty × Write) :=
  match declared with
  | none => complain (.untypedDeclaration d.name) d.origin.span
  | some t => do
    let v ← defaultOf env.registry t
    recordBacking d.origin t
    return (t, ⟨.default, t, v, d.origin.span⟩)

/-- The first write to a variable that is declared with a value. -/
def initialWrite (env : Env) (d : VarDecl) (declared : Option Ty) (e : Expr) :
    Inference (Ty × Write) := do
  let found ← infer env declared e
  let write : Write := ⟨.initializer, found, e.constant, d.origin.span⟩
  match declared with
  | none => return (found, write)
  | some t => do
    requireAssignable env.registry t found (← spanOf e.span?)
    if !e.isComposedLiteral then
      recordBacking d.origin t
    return (t, write)

/-- The type of a declared variable, and the first write to it. -/
def declaredWrite (env : Env) (d : VarDecl) : Inference (Ty × Write) := do
  let declared ← lift (env.registry.typeOf? d.typeExpr)
  match d.initializer with
  | none => defaultWrite env d declared
  | some e => initialWrite env d declared e

/-- A variable declaration; the scopes have the variable in the end. -/
def declare (env : Env) (d : VarDecl) : Inference Scopes := do
  let (t, write) ← declaredWrite env d
  let scopes ← define "variable" env.scopes
    ⟨d.name, .variable, t, some d.origin.span, some d.declaration⟩ d.origin.span
  record (.typed d.origin.place t)
  record (.wrote d.declaration write)
  record (.noted (.declared d.name t.name write.kind.name))
  return scopes

def isTarget : Expr → Bool
  | .identifier _ _ | .member _ _ _ | .index _ _ _ => true
  | _ => false

/-- Requires the target of an assignment to be one; functions are not. -/
def requireTarget (env : Env) (target : Expr) : Inference Unit := do
  if !isTarget target then
    complain .cannotAssign (← spanOf target.span?)
  if let .identifier o name := target then
    if (env.scopes.lookup? name).isNone && env.functions.has name then
      complain (.cannotAssignFunction name) o.span

/-- Records the write to the variable an assignment names. -/
def recordAssignment (env : Env) (target : Expr) (write : Write) : Inference Unit :=
  match target with
  | .identifier _ name =>
    match (env.scopes.lookup? name).bind Symbol.declaration? with
    | some d => record (.wrote d write)
    | none => pure ()
  | _ => pure ()

def assign (env : Env) (o : Origin) (target e : Expr) : Inference Unit := do
  requireTarget env target
  let t ← infer env none target
  let found ← infer env (some t) e
  requireAssignable env.registry t found (← spanOf e.span?)
  recordAssignment env target ⟨.assignment, found, e.constant, o.span⟩

/-- A return from the function it is in. -/
def giveBack (env : Env) (around : Surroundings) (o : Origin) (e? : Option Expr) : Inference Unit :=
  match around.signature with
  | none => complain .returnOutsideFunction o.span
  | some signature =>
    match e?, signature.result with
    | none, none => pure ()
    | none, some t => complain (.missingReturnValue signature.qualifiedName t.name) o.span
    | some e, none => do complain (.procedureReturns signature.qualifiedName) (← spanOf e.span?)
    | some e, some t => do
      let found ← infer env (some t) e
      requireAssignable env.registry t found (← spanOf e.span?)

/-- The message of a panic, which is a string. -/
def panicMessage (env : Env) (e? : Option Expr) : Inference Unit :=
  match e? with
  | none => pure ()
  | some e => do
    let t ← infer env none e
    if t ≠ .string then
      complain (.notAssignable Ty.string.name t.name []) (← spanOf e.span?)

/-- Requires a loop around a statement that leaves one. -/
def requireLoop (around : Surroundings) (keyword : String) (o : Origin) : Inference Unit :=
  if around.inLoop then pure () else complain (.outsideLoop keyword) o.span

def condition (env : Env) (what : String) (e : Expr) : Inference Unit := do
  let t ← infer env none e
  if t ≠ .bool then
    complain (.conditionType what t.name) (← spanOf e.span?)

/-- The values of an arm of a match, which have the type of its subject. -/
def armValues (env : Env) (subject : Ty) : List Expr → Inference Unit
  | [] => pure ()
  | e :: rest => do
    let t ← infer env (some subject) e
    if t ≠ subject then
      complain (.notAssignable subject.name t.name []) (← spanOf e.span?)
    armValues env subject rest

def iterated (env : Env) (e : Expr) : Inference Ty := do
  let t ← infer env none e
  match (← lift (env.registry.resolveUnderlying t .nowhere)).iterated? with
  | some element => return element
  | none => complain (.notIterable t.name) (← spanOf e.span?)

/-- The scope of the variable of a loop over a collection. -/
def loopScope (env : Env) (o : Origin) (name : String) (t : Ty) : Inference Scopes := do
  let scopes ← define "variable" (env.scopes.push "for loop")
    ⟨name, .variable, t, some o.span, some ⟨o, some name⟩⟩ o.span
  record (.typed o.place t)
  return scopes

/-! ### Statements -/

mutual

/-- A statement; the scopes are those after it. -/
def statement (env : Env) (around : Surroundings) : Stmt → Inference Scopes
  | .declare d => declare env d
  | .assign o target e => do
    assign env o target e
    return env.scopes
  | .expr _ e => do
    let _ ← yieldOf env none e
    return env.scopes
  | .ret o e? => do
    giveBack env around o e?
    return env.scopes
  | .panic _ e? => do
    panicMessage env e?
    return env.scopes
  | .brk o => do
    requireLoop around "break" o
    return env.scopes
  | .cont o => do
    requireLoop around "continue" o
    return env.scopes
  | .pass _ => pure env.scopes
  | .cond _ c body more otherwise => do
    condition env "if condition" c
    let _ ← statements (env.inside "if branch") around body
    branches env around more
    optionalBlock env around "else branch" otherwise
    return env.scopes
  | .select _ subject arms otherwise => do
    let t ← infer env none subject
    cases env around t arms
    optionalBlock env around "match default" otherwise
    return env.scopes
  | .loop _ c body => do
    condition env "while condition" c
    let _ ← statements (env.inside "while loop") around.looping body
    return env.scopes
  | .iterate o name e body => do
    let scopes ← loopScope env o name (← iterated env e)
    let _ ← statements ((env.withScopes scopes).inside "for body") around.looping body
    return env.scopes
  | .block _ body => do
    let _ ← statements (env.inside "block") around body
    return env.scopes
  | .foreign f => complain (.unsupportedStatement f.kind) f.span
  | .unreadable => faulty .missingPart

/-- Statements one after the other, each in the scopes the one before leaves. -/
def statements (env : Env) (around : Surroundings) : List Stmt → Inference Scopes
  | [] => pure env.scopes
  | s :: rest => do
    let scopes ← statement env around s
    statements (env.withScopes scopes) around rest

def optionalBlock (env : Env) (around : Surroundings) (scope : String) :
    Option (List Stmt) → Inference Unit
  | none => pure ()
  | some body => do
    let _ ← statements (env.inside scope) around body

def branches (env : Env) (around : Surroundings) : List Branch → Inference Unit
  | [] => pure ()
  | .mk c body :: rest => do
    condition env "elif condition" c
    let _ ← statements (env.inside "elif branch") around body
    branches env around rest

def cases (env : Env) (around : Surroundings) (subject : Ty) : List Case → Inference Unit
  | [] => pure ()
  | .mk values body :: rest => do
    armValues env subject values
    let _ ← statements (env.inside "match case") around body
    cases env around subject rest

end

/-! ### Functions -/

/-- The scopes with parameters added, each with its type. -/
def parameters (scopes : Scopes) : List Param → List (String × Ty) → Inference Scopes
  | p :: params, (_, t) :: types => do
    let scopes ← define "parameter" scopes
      ⟨p.name, .parameter, t, some p.origin.span, some p.declaration⟩ p.origin.span
    record (.typed p.origin.place t)
    parameters scopes params types
  | _, _ => pure scopes

/-- The scopes with the receiver added, if there is one. -/
def receiver (scopes : Scopes) (param : Option Param) (type : Option Ty) : Inference Scopes :=
  match param, type with
  | some p, some t => do
    let scopes ← define "receiver" scopes
      ⟨p.name, .receiver, t, some p.origin.span, some p.declaration⟩ p.origin.span
    record (.typed p.origin.place t)
    return scopes
  | _, _ => pure scopes

/-- The body of a function, in one scope with its receiver and parameters. -/
def function (env : Env) (f : FunctionDef) (signature : Signature) : Inference Unit := do
  let scopes ← receiver (env.scopes.push ("func " ++ f.qualifiedName)) f.receiver signature.receiver
  let scopes ← parameters scopes f.params signature.params
  let _ ← statements (env.withScopes scopes) { signature := some signature } f.body

end Inference

end TreeTyping
