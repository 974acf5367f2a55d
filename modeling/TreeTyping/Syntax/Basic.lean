/-
Abstract syntax.

These are the trees the checker works on: one type for annotations, one for expressions, one for
statements, and records for declarations.  Every expression and statement knows its place in the
tree it came from and its source span, so that what is found out about it can be recorded and
reported.

A hand-made tree may hold anything in any place.  A value that is not what its place asks for
becomes `foreign`: the checker reports it by its kind.  Where not even that can be said, because the
checker would have to look inside a value that has no such part, the place is `unreadable`.
-/
import TreeTyping.Tree.Place

namespace TreeTyping

/-- Where a node stands: its place in its tree, and its span in the source text. -/
structure Origin where
  place : Place
  span : Span
deriving Repr

/-- A value that is not what its place asks for; only nodes have a span. -/
structure Foreign where
  kind : String
  span? : Option Span
deriving Repr

namespace Foreign

/-- The span of a foreign value, or that of what has no source text. -/
def span (f : Foreign) : Span := f.span?.getD .nowhere

def ofTree (t : Tree) : Foreign := ⟨t.kindName, t.span?⟩

end Foreign

/-- An entry of a list of declarations that may hold something else. -/
inductive Entry (α : Type) where
  | proper (a : α)
  | foreign (f : Foreign)
deriving Repr

/-! ### Values -/

/--
Values that are known before a program runs: those of literals, and those variables start with.

`none` is the value of what has no default, or of an expression that is not constant.
-/
inductive Value where
  | none
  | bool (b : Bool)
  | int (n : Int)
  | float (x : Binary64)
  | text (s : String)
  | list (items : List Value)
  | record (fields : List (String × Value))
  | emptySet
deriving Repr, Inhabited

/-! ### Annotations -/

inductive TypeExpr where
  | simple (span : Span) (name : String)
  | generic (span : Span) (name : String) (args : List TypeExpr) (length : Option Int)
  | foreign (f : Foreign)
deriving Repr

/-! ### Expressions -/

inductive Expr where
  /-- The kind is missing when the tree holds something else in its place. -/
  | literal (o : Origin) (value : Value) (kind : Option LiteralKind)
  | identifier (o : Origin) (name : String)
  /-- The operator is missing when the tree holds something else in its place. -/
  | binary (o : Origin) (left : Expr) (op : Option Operator) (right : Expr)
  | unary (o : Origin) (op : Option Operator) (operand : Expr)
  | call (o : Origin) (callee : Expr) (args : List Expr)
  | methodCall (o : Origin) (object : Expr) (method : String) (args : List Expr)
  | member (o : Origin) (object : Expr) (name : String)
  | index (o : Origin) (object index : Expr)
  | cast (o : Origin) (target : TypeExpr) (operand : Expr)
  | list (o : Origin) (elements : List Expr)
  | map (o : Origin) (entries : List (Expr × Expr))
  | set (o : Origin) (elements : List Expr)
  | record (o : Origin) (typeName : String) (fields : List (String × Expr))
  | foreign (f : Foreign)
  | unreadable
deriving Repr, Inhabited

namespace Expr

def origin? : Expr → Option Origin
  | .literal o _ _ | .identifier o _ | .binary o _ _ _ | .unary o _ _ | .call o _ _
  | .methodCall o _ _ _ | .member o _ _ | .index o _ _ | .cast o _ _ | .list o _ | .map o _
  | .set o _ | .record o _ _ => some o
  | .foreign _ | .unreadable => Option.none

/-- The span of an expression; a plain value has none. -/
def span? : Expr → Option Span
  | .foreign f => f.span?
  | e => e.origin?.map Origin.span

/-- Whether an expression is a literal, or an operator applied to a literal. -/
def isLiteral : Expr → Bool
  | .literal _ _ _ => true
  | .unary _ _ (.literal _ _ _) => true
  | _ => false

def isComposedLiteral : Expr → Bool
  | .list _ _ | .map _ _ | .set _ _ => true
  | _ => false

/-- The number with the opposite sign; truth values count as numbers. -/
def negateValue : Value → Value
  | .int n => .int (-n)
  | .float x => .float x.neg
  | .bool b => .int (if b then -1 else 0)
  | _ => .none

/-- The opposite truth value; other values count as true unless they are empty or zero. -/
def invertValue : Value → Value
  | .bool b => .bool (!b)
  | .int n => .bool (n == 0)
  | .float x => .bool x.isZero
  | .text s => .bool (s == "")
  | .list items => .bool items.isEmpty
  | .record fields => .bool fields.isEmpty
  | .emptySet => .bool true
  | .none => .bool true

/-- The value of an expression that is known before a program runs. -/
def constant : Expr → Value
  | .literal _ value _ => value
  | .unary _ op (.literal _ value kind) =>
    match op, kind with
    | some .minus, some .int => negateValue value
    | some .minus, some .float => negateValue value
    | some .not, some .bool => invertValue value
    | _, _ => .none
  | _ => .none

end Expr

/-! ### Statements -/

structure VarDecl where
  origin : Origin
  name : String
  typeExpr : Option TypeExpr
  initializer : Option Expr
deriving Repr

mutual

inductive Stmt where
  | declare (d : VarDecl)
  | assign (o : Origin) (target value : Expr)
  | expr (o : Origin) (e : Expr)
  | ret (o : Origin) (value : Option Expr)
  | panic (o : Origin) (message : Option Expr)
  | brk (o : Origin)
  | cont (o : Origin)
  | pass (o : Origin)
  | cond (o : Origin) (condition : Expr) (body : List Stmt) (branches : List Branch)
      (otherwise : Option (List Stmt))
  | select (o : Origin) (subject : Expr) (cases : List Case) (otherwise : Option (List Stmt))
  | loop (o : Origin) (condition : Expr) (body : List Stmt)
  | iterate (o : Origin) (name : String) (iterable : Expr) (body : List Stmt)
  | block (o : Origin) (body : List Stmt)
  | foreign (f : Foreign)
  | unreadable

inductive Branch where
  | mk (condition : Expr) (body : List Stmt)

inductive Case where
  | mk (values : List Expr) (body : List Stmt)

end

instance : Inhabited Stmt := ⟨.unreadable⟩

/-- The span of a statement; a plain value has none. -/
def Stmt.span? : Stmt → Option Span
  | .declare d => some d.origin.span
  | .assign o _ _ | .expr o _ | .ret o _ | .panic o _ | .brk o | .cont o | .pass o
  | .cond o _ _ _ _ | .select o _ _ _ | .loop o _ _ | .iterate o _ _ _ | .block o _ => some o.span
  | .foreign f => f.span?
  | .unreadable => Option.none

/-! ### Declarations -/

/-- A parameter, receiver or field: a name with its annotation. -/
structure Param where
  origin : Origin
  name : String
  typeExpr : TypeExpr
deriving Repr

structure FunctionDef where
  origin : Origin
  name : String
  params : List Param
  returnType : Option TypeExpr
  body : List Stmt
  receiver : Option Param

/-- The name of a function, behind that of its receiver's type when that is a plain name. -/
def FunctionDef.qualifiedName (f : FunctionDef) : String :=
  match f.receiver with
  | some ⟨_, _, .simple _ receiver⟩ => receiver ++ "." ++ f.name
  | _ => f.name

inductive MemberDecl where
  | field (span : Span) (name : String) (typeExpr : TypeExpr)
  | method (span : Span) (name : String) (params : List Param) (returnType : Option TypeExpr)
  /-- A node of another class; the name is missing when it has none. -/
  | foreign (name : Option String) (f : Foreign)
deriving Repr

inductive TypeDecl where
  | alias (span : Span) (name : String) (underlying : TypeExpr)
  | struct (span : Span) (name : String) (fields : List Param)
  | interface (span : Span) (name : String) (members : List MemberDecl)
deriving Repr

namespace TypeDecl

def name : TypeDecl → String
  | .alias _ n _ | .struct _ n _ | .interface _ n _ => n

def span : TypeDecl → Span
  | .alias s _ _ | .struct s _ _ | .interface s _ _ => s

end TypeDecl

structure Module where
  name : Option String
  types : List (Entry TypeDecl)
  vars : List (Entry VarDecl)
  functions : List (Entry FunctionDef)

end TreeTyping
