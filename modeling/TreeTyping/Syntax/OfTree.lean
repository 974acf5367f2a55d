/-
Abstract syntax from trees.

Reading never fails: a value that is not what its place asks for becomes foreign, and one whose
parts cannot be named becomes unreadable.  Places are built up on the way down, so the place of an
expression or statement is that of its node.  Where a parameter is asked for, any node that has a
name and an annotation serves: parameters, fields and annotated variables are read alike.
-/
import TreeTyping.Syntax.Basic

namespace TreeTyping

/-- The value a tree stands for; nodes stand for none. -/
def Value.ofTree : Tree → Value
  | .bool b => .bool b
  | .int n => .int n
  | .float x => .float x
  | .text s => .text s
  | _ => .none

namespace TypeExpr

/-- The length in an annotation; nothing but a number counts. -/
def lengthOf : Tree → Option Int
  | .int n => some n
  | _ => none

mutual

def ofTree : Tree → TypeExpr
  | .node .simpleType span [.text name] => .simple span name
  | .node .genericType span [.text name, .list args, length] =>
    .generic span name (ofTrees args) (lengthOf length)
  | t => .foreign (.ofTree t)

def ofTrees : List Tree → List TypeExpr
  | [] => []
  | t :: rest => ofTree t :: ofTrees rest

end

def ofTree? : Tree → Option TypeExpr
  | .null => none
  | t => some (ofTree t)

end TypeExpr

def Operator.ofTree? : Tree → Option Operator
  | .operator op => some op
  | _ => none

def LiteralKind.ofTree? : Tree → Option LiteralKind
  | .literalKind kind => some kind
  | _ => none

namespace Expr

mutual

def ofTree (p : Place) : Tree → Expr
  | .node .literal s [value, kind] => .literal ⟨p, s⟩ (.ofTree value) (LiteralKind.ofTree? kind)
  | .node .identifier s [.text name] => .identifier ⟨p, s⟩ name
  | .node .binaryOp s [left, op, right] =>
    .binary ⟨p, s⟩ (ofTree (p.field "left") left) (Operator.ofTree? op)
      (ofTree (p.field "right") right)
  | .node .unaryOp s [op, operand] =>
    .unary ⟨p, s⟩ (Operator.ofTree? op) (ofTree (p.field "operand") operand)
  | .node .functionCall s [callee, .list args] =>
    .call ⟨p, s⟩ (ofTree (p.field "callee") callee) (ofItems (p.field "arguments") 0 args)
  | .node .methodCall s [object, .text method, .list args] =>
    .methodCall ⟨p, s⟩ (ofTree (p.field "object") object) method
      (ofItems (p.field "arguments") 0 args)
  | .node .memberAccess s [object, .text name] =>
    .member ⟨p, s⟩ (ofTree (p.field "object") object) name
  | .node .indexAccess s [object, i] =>
    .index ⟨p, s⟩ (ofTree (p.field "object") object) (ofTree (p.field "index") i)
  | .node .castExpr s [target, operand] =>
    .cast ⟨p, s⟩ (.ofTree target) (ofTree (p.field "operand") operand)
  | .node .listLiteral s [.list elements] => .list ⟨p, s⟩ (ofItems (p.field "elements") 0 elements)
  | .node .mapLiteral s [.list entries] => .map ⟨p, s⟩ (ofMapEntries (p.field "entries") 0 entries)
  | .node .setLiteral s [.list elements] => .set ⟨p, s⟩ (ofItems (p.field "elements") 0 elements)
  | .node .structLiteral s [.text typeName, .object fields] =>
    .record ⟨p, s⟩ typeName (ofEntries (p.field "fields") fields)
  | .node cls s _ => if cls.category? == some .expression then
      .unreadable else .foreign ⟨cls.name, some s⟩
  | t => .foreign (.ofTree t)

/-- The expressions of a list, numbered from `index` on. -/
def ofItems (p : Place) (index : Nat) : List Tree → List Expr
  | [] => []
  | t :: rest => ofTree (p.item index) t :: ofItems p (index + 1) rest

/-- The entries of a map literal, numbered from `index` on. -/
def ofMapEntries (p : Place) (index : Nat) : List Tree → List (Expr × Expr)
  | [] => []
  | .node .mapEntry _ [key, value] :: rest =>
    let q := p.item index
    (ofTree (q.field "key") key, ofTree (q.field "value") value) :: ofMapEntries p (index + 1) rest
  | _ :: rest => (.unreadable, .unreadable) :: ofMapEntries p (index + 1) rest

def ofEntries (p : Place) : List (String × Tree) → List (String × Expr)
  | [] => []
  | (key, t) :: rest => (key, ofTree (p.key key) t) :: ofEntries p rest

end

def ofTree? (p : Place) : Tree → Option Expr
  | .null => none
  | t => some (ofTree p t)

end Expr

/-- A variable declaration at the given place, from its fields. -/
def VarDecl.ofFields? (p : Place) (s : Span) : List Tree → Option VarDecl
  | [.text name, typeExpr, init] =>
    some ⟨⟨p, s⟩, name, TypeExpr.ofTree? typeExpr, Expr.ofTree? (p.field "initializer") init⟩
  | _ => none

namespace Stmt

mutual

def ofTree (p : Place) : Tree → Stmt
  | .node .varDecl s fields =>
    match VarDecl.ofFields? p s fields with
    | some d => .declare d
    | none => .unreadable
  | .node .assignmentStatement s [target, value] =>
    .assign ⟨p, s⟩ (.ofTree (p.field "target") target) (.ofTree (p.field "value") value)
  | .node .expressionStatement s [e] => .expr ⟨p, s⟩ (.ofTree (p.field "expression") e)
  | .node .returnStatement s [value] => .ret ⟨p, s⟩ (Expr.ofTree? (p.field "value") value)
  | .node .panicStatement s [message] => .panic ⟨p, s⟩ (Expr.ofTree? (p.field "message") message)
  | .node .breakStatement s _ => .brk ⟨p, s⟩
  | .node .continueStatement s _ => .cont ⟨p, s⟩
  | .node .passStatement s _ => .pass ⟨p, s⟩
  | .node .ifStatement s [condition, body, .list branches, otherwise] =>
    .cond ⟨p, s⟩ (.ofTree (p.field "condition") condition) (ofBlock (p.field "then_branch") body)
      (ofBranches (p.field "elif_branches") 0 branches) (ofBlock? (p.field "else_branch") otherwise)
  | .node .matchStatement s [subject, .list cases, otherwise] =>
    .select ⟨p, s⟩ (.ofTree (p.field "subject") subject) (ofCases (p.field "cases") 0 cases)
      (ofBlock? (p.field "default") otherwise)
  | .node .whileStatement s [condition, body] =>
    .loop ⟨p, s⟩ (.ofTree (p.field "condition") condition) (ofBlock (p.field "body") body)
  | .node .forStatement s [.text name, iterable, body] =>
    .iterate ⟨p, s⟩ name (.ofTree (p.field "iterable") iterable) (ofBlock (p.field "body") body)
  | .node .block s [.list statements] => .block ⟨p, s⟩ (ofItems (p.field "statements") 0 statements)
  | .node cls s _ =>
    if cls.category? == some .statement || cls == .block then
      .unreadable else .foreign ⟨cls.name, some s⟩
  | t => .foreign (.ofTree t)

/-- The statements of a list, numbered from `index` on. -/
def ofItems (p : Place) (index : Nat) : List Tree → List Stmt
  | [] => []
  | t :: rest => ofTree (p.item index) t :: ofItems p (index + 1) rest

/-- The statements of a block; anything but a block is unreadable. -/
def ofBlock (p : Place) : Tree → List Stmt
  | .node .block _ [.list statements] => ofItems (p.field "statements") 0 statements
  | _ => [.unreadable]

def ofBlock? (p : Place) : Tree → Option (List Stmt)
  | .null => none
  | .node .block _ [.list statements] => some (ofItems (p.field "statements") 0 statements)
  | _ => some [.unreadable]

/-- The further branches of a conditional, numbered from `index` on. -/
def ofBranches (p : Place) (index : Nat) : List Tree → List Branch
  | [] => []
  | .node .elifBranch _ [condition, body] :: rest =>
    let q := p.item index
    .mk (.ofTree (q.field "condition") condition) (ofBlock (q.field "body") body) ::
      ofBranches p (index + 1) rest
  | _ :: rest => .mk .unreadable [.unreadable] :: ofBranches p (index + 1) rest

/-- The arms of a match, numbered from `index` on. -/
def ofCases (p : Place) (index : Nat) : List Tree → List Case
  | [] => []
  | .node .matchCase _ [.list values, body] :: rest =>
    let q := p.item index
    .mk (Expr.ofItems (q.field "values") 0 values) (ofBlock (q.field "body") body) ::
      ofCases p (index + 1) rest
  | _ :: rest => .mk [.unreadable] [.unreadable] :: ofCases p (index + 1) rest

end

end Stmt

/-! ### Declarations -/

namespace Param

def ofTree (p : Place) : Tree → Param
  | .node .parameter s [.text name, typeExpr] => ⟨⟨p, s⟩, name, .ofTree typeExpr⟩
  | .node .fieldDecl s [.text name, typeExpr] => ⟨⟨p, s⟩, name, .ofTree typeExpr⟩
  | .node .varDecl s [.text name, typeExpr, _] => ⟨⟨p, s⟩, name, .ofTree typeExpr⟩
  | t => ⟨⟨p, (Foreign.ofTree t).span⟩, "", .foreign ⟨t.kindName, none⟩⟩

def ofItems (p : Place) (items : List Tree) : List Param :=
  items.mapIdx fun i t => ofTree (p.item i) t

def ofTree? (p : Place) : Tree → Option Param
  | .null => none
  | t => some (ofTree p t)

end Param

def FunctionDef.ofTree? (p : Place) : Tree → Option FunctionDef
  | .node .functionDef s [.text name, .list params, returns, body, receiver] =>
    some
      { origin := ⟨p, s⟩
        name := name
        params := Param.ofItems (p.field "parameters") params
        returnType := TypeExpr.ofTree? returns
        body := Stmt.ofBlock (p.field "body") body
        receiver := Param.ofTree? (p.field "receiver") receiver }
  | _ => none

namespace MemberDecl

/-- The name a node of any class gives itself. -/
def nameOf? : Tree → Option String
  | .node cls _ (.text name :: _) =>
    if (cls.fields.head?.map FieldSpec.name) == some "name" then some name else none
  | _ => none

def ofTree (p : Place) : Tree → MemberDecl
  | .node .fieldDecl s [.text name, typeExpr] => .field s name (.ofTree typeExpr)
  | .node .methodSig s [.text name, .list params, returns] =>
    .method s name (Param.ofItems (p.field "parameters") params) (TypeExpr.ofTree? returns)
  | t => .foreign (nameOf? t) (.ofTree t)

end MemberDecl

namespace TypeDecl

def ofTree (p : Place) : Tree → Entry TypeDecl
  | .node .typeAliasDecl s [.text name, underlying] => .proper (.alias s name (.ofTree underlying))
  | .node .structDecl s [.text name, .list fields] =>
    .proper (.struct s name (Param.ofItems (p.field "fields") fields))
  | .node .interfaceDecl s [.text name, .list members] =>
    .proper (.interface s name (members.mapIdx fun i t => .ofTree ((p.field "members").item i) t))
  | t => .foreign (.ofTree t)

end TypeDecl

def VarDecl.ofTree (p : Place) (t : Tree) : Entry VarDecl :=
  match t with
  | .node .varDecl s fields =>
    match VarDecl.ofFields? p s fields with
    | some d => .proper d
    | none => .foreign (.ofTree t)
  | t => .foreign (.ofTree t)

def FunctionDef.ofTree (p : Place) (t : Tree) : Entry FunctionDef :=
  match FunctionDef.ofTree? p t with
  | some f => .proper f
  | none => .foreign (.ofTree t)

def Module.nameOf : Tree → Option String
  | .text s => some s
  | _ => none

/-- The module a tree describes, if its root is one. -/
def Module.ofTree? (p : Place) : Tree → Option Module
  | .node .compilationUnit _ [name, .list types, .list vars, .list functions] =>
    some
      { name := nameOf name
        types := types.mapIdx fun i t => TypeDecl.ofTree ((p.field "types").item i) t
        vars := vars.mapIdx fun i t => VarDecl.ofTree ((p.field "variables").item i) t
        functions := functions.mapIdx fun i t =>
          FunctionDef.ofTree ((p.field "functions").item i) t }
  | _ => none

end TreeTyping
