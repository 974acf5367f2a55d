/-
Putting trees together by hand.

Each constructor takes plain values where a node is asked for: a text is an identifier or a type
string, a number or truth value is a literal, a line number is a span.  A span that is left out is
that of what has no source text, and it is handed on to every node a constructor makes itself.
Nodes that are given are used as they are.
-/
import TreeTyping.Tree.Write
import TreeTyping.TypeText

namespace TreeTyping

/-- Why a constructor refuses its arguments. -/
inductive MakeError where
  | typeText (e : TypeText.Error)
  | notAnOperator (found : Json)
  /-- A value of a kind the constructor has no use for. -/
  | wrongKind
  /-- A value where a type string or annotation is asked for. -/
  | notATypeString
  /-- A value where a span or a line number is asked for. -/
  | notASpan
  /-- A list of the wrong length where a pair is asked for. -/
  | notAPair (found : Nat)
  /-- A list or text that is too short to be a receiver. -/
  | shortReceiver
  /-- An object where a receiver is asked for. -/
  | keyedReceiver
  /-- Arguments that do not go with the parameters of a constructor. -/
  | wrongArguments
  | unknownConstructor
deriving Repr

namespace MakeError

/-- The text of an error; errors about the kind of a value have none. -/
def message : MakeError → String
  | .typeText e => e.message
  | .notAnOperator found => found.display ++ " is not a valid Operator"
  | .notAPair found =>
    if found < 2 then "not enough values to unpack (expected 2, got " ++ toString found ++ ")"
    else "too many values to unpack (expected 2)"
  | _ => ""

end MakeError

namespace Tree.Make

abbrev Made := Except MakeError Tree

/-! ### Coercions -/

/-- A span from nothing, a line number or a span. -/
def spanOf : Tree → Except MakeError Span
  | .null => .ok .nowhere
  | .int n => .ok (.point n 1 .null)
  | .bool b => .ok ⟨⟨.flag b, .number 1⟩, ⟨.flag b, .number 1⟩, .null⟩
  | .location s => .ok s
  | _ => .error .notASpan

def typeRef (t span : Tree) : Made :=
  match t with
  | .node .simpleType _ _ => .ok t
  | .node .genericType _ _ => .ok t
  | .text s => do
    let span ← spanOf span
    match TypeText.parse s with
    | .ok written => return written.toTree span
    | .error e => throw (.typeText e)
  | _ => do
    let _ ← spanOf span
    throw .notATypeString

def typeOrNull (t span : Tree) : Made :=
  match t with
  | .null => .ok .null
  | t => typeRef t span

/-- A literal; its kind follows from the value. -/
def literal (value span : Tree) : Made := do
  let kind ← match value with
    | .bool _ => pure LiteralKind.bool
    | .int _ => pure LiteralKind.int
    | .float _ => pure LiteralKind.float
    | .text _ => pure LiteralKind.string
    | _ => throw .wrongKind
  return .node .literal (← spanOf span) [value, .literalKind kind]

def identifier (name span : Tree) : Made := do
  return .node .identifier (← spanOf span) [name]

/-- An expression from a node, a text or a plain value. -/
def expr (value span : Tree) : Made :=
  match value with
  | .node cls _ _ => if cls.category? == some .expression then .ok value else .error .wrongKind
  | .text _ => identifier value span
  | _ => literal value span

def exprOrNull (value span : Tree) : Made :=
  match value with
  | .null => .ok .null
  | value => expr value span

def itemsOf : Tree → Except MakeError (List Tree)
  | .list items => .ok items
  | .object entries => .ok (entries.map fun e => .text e.1)
  | .text s => .ok (s.toList.map fun c => .text c.toString)
  | _ => .error .wrongKind

def pairOf (t : Tree) : Except MakeError (Tree × Tree) := do
  match ← itemsOf t with
  | [a, b] => return (a, b)
  | items => throw (.notAPair items.length)

/-- What is made of names and what belongs to them: entries of an object, or a list of pairs. -/
def mapNamed (make : (name value : Tree) → Made) : Tree → Except MakeError (List Tree)
  | .object entries => entries.mapM fun e => make (.text e.1) e.2
  | t => do
    (← itemsOf t).mapM fun item => do
      let (name, value) ← pairOf item
      make name value

def exprs (values : List Tree) (span : Tree) : Except MakeError Tree := do
  return .list (← values.mapM fun v => expr v span)

def operatorOf (t : Tree) : Made :=
  match t with
  | .operator _ => .ok t
  | .text s =>
    match Operator.ofSymbol? s with
    | some op => .ok (.operator op)
    | none => .error (.notAnOperator t.toJson)
  | t => .error (.notAnOperator t.toJson)

/-! ### Expressions -/

def binary (left op right span : Tree) : Made := do
  let s ← spanOf span
  let left ← expr left span
  let op ← operatorOf op
  let right ← expr right span
  return .node .binaryOp s [left, op, right]

def unary (op operand span : Tree) : Made := do
  let s ← spanOf span
  let op ← operatorOf op
  let operand ← expr operand span
  return .node .unaryOp s [op, operand]

def call (name : Tree) (args : List Tree) (span : Tree) : Made := do
  let s ← spanOf span
  return .node .functionCall s [← identifier name span, ← exprs args span]

def methodCall (object name : Tree) (args : List Tree) (span : Tree) : Made := do
  let s ← spanOf span
  return .node .methodCall s [← expr object span, name, ← exprs args span]

def member (object name span : Tree) : Made := do
  let s ← spanOf span
  return .node .memberAccess s [← expr object span, name]

def index (object i span : Tree) : Made := do
  let s ← spanOf span
  return .node .indexAccess s [← expr object span, ← expr i span]

def cast (target operand span : Tree) : Made := do
  let s ← spanOf span
  return .node .castExpr s [← typeRef target span, ← expr operand span]

def listLiteral (elements : List Tree) (span : Tree) : Made := do
  let s ← spanOf span
  return .node .listLiteral s [← exprs elements span]

def mapLiteral (entries span : Tree) : Made := do
  let s ← spanOf span
  let entry (t : Tree) : Made := do
    let (key, value) ← pairOf t
    return .node .mapEntry s [← expr key span, ← expr value span]
  return .node .mapLiteral s [.list (← (← itemsOf entries).mapM entry)]

def setLiteral (elements : List Tree) (span : Tree) : Made := do
  let s ← spanOf span
  return .node .setLiteral s [← exprs elements span]

def structLiteral (typeName span : Tree) (fields : List (String × Tree)) : Made := do
  let s ← spanOf span
  let fields ← fields.mapM fun f => do return (f.1, ← expr f.2 span)
  return .node .structLiteral s [typeName, .object fields]

/-! ### Statements -/

def var (name typeExpr init span : Tree) : Made := do
  let s ← spanOf span
  return .node .varDecl s [name, ← typeOrNull typeExpr span, ← exprOrNull init span]

def assign (target value span : Tree) : Made := do
  let s ← spanOf span
  return .node .assignmentStatement s [← expr target span, ← expr value span]

def exprStatement (expression span : Tree) : Made := do
  let s ← spanOf span
  return .node .expressionStatement s [← expr expression span]

def ret (value span : Tree) : Made := do
  let s ← spanOf span
  return .node .returnStatement s [← exprOrNull value span]

def panic (message span : Tree) : Made := do
  let s ← spanOf span
  return .node .panicStatement s [← exprOrNull message span]

def bare (cls : NodeClass) (span : Tree) : Made := do
  return .node cls (← spanOf span) []

def block (statements : List Tree) (span : Tree) : Made := do
  return .node .block (← spanOf span) [.list statements]

/-- A block from a block node or a list of statements. -/
def blockOf (body span : Tree) : Made :=
  match body with
  | .node .block _ _ => .ok body
  | body => do block (← itemsOf body) span

def blockOrNull (body span : Tree) : Made :=
  match body with
  | .null => .ok .null
  | body => blockOf body span

def elifBranch (condition : Tree) (body : List Tree) (span : Tree) : Made := do
  let s ← spanOf span
  return .node .elifBranch s [← expr condition span, ← block body span]

def ifStatement (condition thenBranch elifs elseBranch span : Tree) : Made := do
  let s ← spanOf span
  let condition ← expr condition span
  let thenBranch ← blockOf thenBranch span
  let elifs ← itemsOf elifs
  return .node .ifStatement s [condition, thenBranch, .list elifs, ← blockOrNull elseBranch span]

def matchCase (values : Tree) (body : List Tree) (span : Tree) : Made := do
  let s ← spanOf span
  return .node .matchCase s [← exprs (← itemsOf values) span, ← block body span]

def matchStatement (subject cases default span : Tree) : Made := do
  let s ← spanOf span
  let subject ← expr subject span
  let cases ← itemsOf cases
  return .node .matchStatement s [subject, .list cases, ← blockOrNull default span]

def whileStatement (condition : Tree) (body : List Tree) (span : Tree) : Made := do
  let s ← spanOf span
  return .node .whileStatement s [← expr condition span, ← block body span]

def forStatement (name iterable : Tree) (body : List Tree) (span : Tree) : Made := do
  let s ← spanOf span
  return .node .forStatement s [name, ← expr iterable span, ← block body span]

/-! ### Declarations -/

def parameter (name typeExpr span : Tree) : Made := do
  return .node .parameter (← spanOf span) [name, ← typeRef typeExpr span]

def parameters (params span : Tree) : Made := do
  return .list (← mapNamed (fun name typeExpr => parameter name typeExpr span) params)

/-- A function, procedure or method, with its receiver node or none. -/
def functionWith (name params returns body span receiver : Tree) : Made := do
  let s ← spanOf span
  let params ← parameters params span
  let returns ← typeOrNull returns span
  let body ← block (← itemsOf body) span
  return .node .functionDef s [name, params, returns, body, receiver]

def function (name params returns body span : Tree) : Made :=
  functionWith name params returns body span .null

/-- The name and the type of a receiver: the first two items of a list or text. -/
def receiverOf : Tree → Except MakeError (Tree × Tree)
  | .object _ => .error .keyedReceiver
  | t => do
    match ← itemsOf t with
    | name :: typeExpr :: _ => return (name, typeExpr)
    | _ => throw .shortReceiver

/-- A method; the receiver is a pair of its name and its type. -/
def method (receiver name params returns body span : Tree) : Made := do
  let _ ← function name params returns body span
  let (label, typeExpr) ← receiverOf receiver
  functionWith name params returns body span (← parameter label typeExpr span)

def typeAlias (name underlying span : Tree) : Made := do
  return .node .typeAliasDecl (← spanOf span) [name, ← typeRef underlying span]

def field (name typeExpr span : Tree) : Made := do
  return .node .fieldDecl (← spanOf span) [name, ← typeRef typeExpr span]

def struct (name fields span : Tree) : Made := do
  let s ← spanOf span
  return .node .structDecl s
    [name, .list (← mapNamed (fun name typeExpr => field name typeExpr span) fields)]

def methodSig (name params returns span : Tree) : Made := do
  let s ← spanOf span
  return .node .methodSig s [name, ← parameters params span, ← typeOrNull returns span]

def interface (name : Tree) (members : List Tree) (span : Tree) : Made := do
  return .node .interfaceDecl (← spanOf span) [name, .list members]

/-- Declarations sorted into types, variables and functions. -/
structure Sorted where
  types : List Tree := []
  vars : List Tree := []
  functions : List Tree := []

/-- One declaration put where it belongs. -/
def Sorted.push (sorted : Sorted) (decl : Tree) : Except MakeError Sorted :=
  match decl with
  | .node .typeAliasDecl _ _ => .ok { sorted with types := sorted.types ++ [decl] }
  | .node .structDecl _ _ => .ok { sorted with types := sorted.types ++ [decl] }
  | .node .interfaceDecl _ _ => .ok { sorted with types := sorted.types ++ [decl] }
  | .node .varDecl _ _ => .ok { sorted with vars := sorted.vars ++ [decl] }
  | .node .functionDef _ _ => .ok { sorted with functions := sorted.functions ++ [decl] }
  | _ => .error .wrongKind

def compilationUnit (decls : List Tree) (name span : Tree) : Made := do
  let s ← spanOf span
  let sorted ← decls.foldlM Sorted.push {}
  return .node .compilationUnit s
    [name, .list sorted.types, .list sorted.vars, .list sorted.functions]

/-! ### Nodes without checks -/

/-- A node of the class with the given fields; fields left out take their defaults. -/
def node (cls : NodeClass) (span : Tree) (given : List (String × Tree)) : Made := do
  let known := cls.fields.map FieldSpec.name
  if given.any fun f => !known.contains f.1 then
    throw .wrongKind
  let s ← spanOf span
  let fields ← cls.fields.mapM fun spec =>
    match (Keyed.find? spec.name given).or (ofDefault? spec.default) with
    | some t => pure t
    | none => throw .wrongKind
  return .node cls s fields

end Tree.Make

end TreeTyping
