/-
Types of expressions.

An expression yields a value of some type; a call of a procedure yields nothing.  The type of the
place a value goes to is passed down: it guides composed literals and lets number literals take
another width.  Operands come before operators and arguments after the name that is called, so the
first thing wrong in that order is what is reported.

A literal on the left of a binary operator, with something else on the right, takes the type of the
right operand, which is therefore looked at first.
-/
import TreeTyping.Composed.Literal
import TreeTyping.Typing.Conversion
import TreeTyping.Typing.Env
import TreeTyping.Typing.Operand

namespace TreeTyping

inductive Yield where
  | value (type : Ty)
  /-- Nothing, since the procedure with this name was called. -/
  | nothing (procedure : String)

namespace Inference

/-! ### Single rules -/

/-- Requires a value; the span is that of the expression. -/
def value (span? : Option Span) (x : Inference Yield) : Inference Ty := do
  match ← x with
  | .value t => return t
  | .nothing procedure => complain (.noValue procedure) (← spanOf span?)

/-- Concludes that the expression with the given origin has a type. -/
def conclude (o : Origin) (t : Ty) : Inference Yield := do
  record (.typed o.place t)
  return .value t

/-- Concludes what a call of a function with the given result yields. -/
def concludeCall (o : Origin) (name : String) (result : Option Ty) : Inference Yield :=
  match result with
  | some t => conclude o t
  | none => pure (.nothing name)

def nameType (env : Env) (name : String) (span : Span) : Inference Ty :=
  match env.typeOfName? name with
  | some t => pure t
  | none => complain (.undefinedVariable name) span

def requireCount (name : String) (params : List Ty) (args : List Expr) (span : Span) :
    Inference Unit :=
  if args.length = params.length then pure ()
  else complain (.argumentCount name params.length args.length) span

def methodType (env : Env) (object : Ty) (name : String) (span : Span) :
    Inference (List Ty × Option Ty) := do
  match (← lift (env.registry.membersOf object)).find? name with
  | none => complain (.noMethod object.name name) span
  | some member =>
    match member.kind, member.type with
    | .field, _ => complain (.fieldCalled name object.name) span
    | .method, .function params result => return (params, result)
    | .method, _ => faulty .missingPart

def fieldType (env : Env) (object : Ty) (name : String) (span : Span) : Inference Ty := do
  match (← lift (env.registry.membersOf object)).find? name with
  | none => complain (.noField object.name name) span
  | some member =>
    match member.kind with
    | .field => return member.type
    | .method => complain (.methodNotCalled name object.name) span

/-- What the place of a converted expression asks for: the target guides composed literals. -/
def conversionExpected (env : Env) (target : Ty) (operand : Expr) : Inference (Option Ty) := do
  let resolved ← lift (env.registry.resolveUnderlying target .nowhere)
  return if operand.isComposedLiteral then some resolved else none

def listType (expected : Option Ty) (b : Backing) : Ty :=
  match expected with
  | some (.array _ _) => b.concrete
  | _ => b.abstract

def mapType (expected : Option Ty) (b : Backing) : Ty :=
  match expected with
  | some (.hashMap _ _) => b.concrete
  | _ => b.abstract

def setType (expected : Option Ty) (b : Backing) : Ty :=
  match expected with
  | some (.hashSet _) => b.concrete
  | _ => b.abstract

/-- The struct a struct literal names, and its fields. -/
def literalStruct (env : Env) (name : String) (span : Span) : Inference (Ty × Keyed Ty) := do
  let t ← lift (env.registry.resolve name span)
  match ← lift (env.registry.resolveUnderlying t .nowhere) with
  | .struct n => return (t, env.registry.structFields n)
  | _ => complain (.notAStruct t.name) span

/-- Requires a struct literal to give every field a value. -/
def requireAllFields (struct : Ty) (declared : Keyed Ty) (given : List String) (span : Span) :
    Inference Unit :=
  match declared.names.filter fun name => !given.contains name with
  | [] => pure ()
  | missing => complain (.missingFields struct.name missing) span

/-! ### Expressions -/

mutual

/-- What an expression yields at a place that asks for the expected type. -/
def yieldOf (env : Env) (expected : Option Ty) : Expr → Inference Yield
  | .literal o v kind => do
    conclude o (← literalType env.wordBits expected false v kind o.span)
  | .identifier o name => do
    conclude o (← nameType env name o.span)
  | .binary o left op right => do
    if left.isLiteral && !right.isLiteral then
      let r ← value right.span? (yieldOf env none right)
      let l ← value left.span? (yieldOf env (some r) left)
      conclude o (← binaryType env.registry op l r o.span)
    else
      let l ← value left.span? (yieldOf env none left)
      let r ← value right.span? (yieldOf env (some l) right)
      conclude o (← binaryType env.registry op l r o.span)
  | .unary o op (.literal inner v kind) => do
    let signed := op.any Operator.isSign
    let t ← literalType env.wordBits (if signed then expected else none) (op == some .minus) v
      kind inner.span
    record (.typed inner.place t)
    conclude o (← unaryType env.registry op t o.span)
  | .unary o op operand => do
    let t ← value operand.span? (yieldOf env none operand)
    conclude o (← unaryType env.registry op t o.span)
  | .call o (.identifier name callee) args =>
    match env.calleeOf callee with
    | .function params result => do
      record (.typed name.place (.function params result))
      requireCount callee params args o.span
      arguments env params args
      concludeCall o callee result
    | .conversion target =>
      match args with
      | [operand] => do
        let source ← value operand.span?
          (yieldOf env (← conversionExpected env target operand) operand)
        requireConvertible env.registry target source o.span
        conclude o target
      | _ => complain (.conversionArguments callee) o.span
    | .notCallable t => complain (.notCallable callee t.name) name.span
    | .unknown => complain (.undefinedVariable callee) name.span
  | .call _ callee _ => do
    complain .calleeNotNamed (← spanOf callee.span?)
  | .methodCall o object method args => do
    let t ← value object.span? (yieldOf env none object)
    let (params, result) ← methodType env t method o.span
    let name := t.name ++ "." ++ method
    requireCount name params args o.span
    arguments env params args
    concludeCall o name result
  | .member o object name => do
    let t ← value object.span? (yieldOf env none object)
    conclude o (← fieldType env t name o.span)
  | .index o object i => do
    let t ← value object.span? (yieldOf env none object)
    let resolved ← lift (env.registry.resolveUnderlying t .nowhere)
    match resolved.listElement?, resolved.mapEntry? with
    | some element, _ => do
      let found ← value i.span? (yieldOf env none i)
      if found.isInteger then conclude o element
      else complain (.indexType found.name) (← spanOf i.span?)
    | none, some (key, v) => do
      let found ← value i.span? (yieldOf env (some key) i)
      requireAssignable env.registry key found (← spanOf i.span?)
      conclude o v
    | none, none => complain (.notIndexable t.name) o.span
  | .cast o typeExpr operand => do
    let target ← lift (env.registry.typeOf typeExpr)
    let source ← value operand.span? (yieldOf env (← conversionExpected env target operand) operand)
    requireConvertible env.registry target source o.span
    conclude o target
  | .list o elements => do
    let types ← items env (expected.bind Ty.listElement?) elements
    let b ← listBacking env.registry env.wordBits types expected (elements.map Expr.constant) o.span
    record (.backed o b)
    conclude o (listType expected b)
  | .map o pairs => do
    let types ← entries env (expected.bind Ty.mapEntry?) pairs
    let b ← mapBacking env.registry (types.map Prod.fst) (types.map Prod.snd) expected o.span
    record (.backed o b)
    conclude o (mapType expected b)
  | .set o elements => do
    let types ← items env (expected.bind Ty.setElement?) elements
    let b ← setBacking env.registry types expected o.span
    record (.backed o b)
    conclude o (setType expected b)
  | .record o typeName given => do
    let (struct, declared) ← literalStruct env typeName o.span
    fields env struct declared given
    requireAllFields struct declared (given.map Prod.fst) o.span
    conclude o struct
  | .foreign f => complain (.unsupportedExpression f.kind) f.span
  | .unreadable => faulty .missingPart

/-- The arguments of a call, each at its parameter. -/
def arguments (env : Env) : List Ty → List Expr → Inference Unit
  | param :: params, arg :: args => do
    let t ← value arg.span? (yieldOf env (some param) arg)
    requireAssignable env.registry param t (← spanOf arg.span?)
    arguments env params args
  | _, _ => pure ()

def items (env : Env) (expected : Option Ty) : List Expr → Inference (List Ty)
  | [] => pure []
  | e :: rest => do
    let t ← value e.span? (yieldOf env expected e)
    let ts ← items env expected rest
    return t :: ts

/-- The types of the keys and values of a map literal. -/
def entries (env : Env) (expected : Option (Ty × Ty)) :
    List (Expr × Expr) → Inference (List (Ty × Ty))
  | [] => pure []
  | (k, v) :: rest => do
    let key ← value k.span? (yieldOf env (expected.map Prod.fst) k)
    let val ← value v.span? (yieldOf env (expected.map Prod.snd) v)
    let ts ← entries env expected rest
    return (key, val) :: ts

/-- The fields of a struct literal, each at the field it is given to. -/
def fields (env : Env) (struct : Ty) (declared : Keyed Ty) : List (String × Expr) → Inference Unit
  | [] => pure ()
  | (name, e) :: rest => do
    match declared.find? name with
    | none => complain (.noField struct.name name) (← spanOf e.span?)
    | some t => do
      let found ← value e.span? (yieldOf env (some t) e)
      requireAssignable env.registry t found (← spanOf e.span?)
      fields env struct declared rest

end

/-- The type of an expression that has to yield a value. -/
def infer (env : Env) (expected : Option Ty) (e : Expr) : Inference Ty :=
  value e.span? (yieldOf env expected e)

end Inference

end TreeTyping
