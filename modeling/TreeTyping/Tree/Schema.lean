/-
The classes of syntax tree nodes and the fields of each.

A node has a class, and the class fixes the names of its fields, their order, the shape of what each
may hold, and what a field holds when a document leaves it out.  Three categories of classes occur
in shapes: type annotations, expressions and statements.  A block is not a statement: documents
cannot use one where a statement is asked for, though a tree that was put together by hand may.
-/
namespace TreeTyping

inductive Operator where
  | plus | minus | star | slash | percent
  | eq | ne | lt | le | gt | ge
  | and | or | not
deriving DecidableEq, Repr

namespace Operator

def all : List Operator :=
  [.plus, .minus, .star, .slash, .percent, .eq, .ne, .lt, .le, .gt, .ge, .and, .or, .not]

def symbol : Operator → String
  | .plus => "+"
  | .minus => "-"
  | .star => "*"
  | .slash => "/"
  | .percent => "%"
  | .eq => "=="
  | .ne => "!="
  | .lt => "<"
  | .le => "<="
  | .gt => ">"
  | .ge => ">="
  | .and => "and"
  | .or => "or"
  | .not => "not"

def ofSymbol? (s : String) : Option Operator := all.find? fun op => op.symbol == s

inductive Family where
  | arithmetic | ordering | equality | logical | negation
deriving DecidableEq, Repr

def family : Operator → Family
  | .plus | .minus | .star | .slash | .percent => .arithmetic
  | .lt | .le | .gt | .ge => .ordering
  | .eq | .ne => .equality
  | .and | .or => .logical
  | .not => .negation

end Operator

inductive LiteralKind where
  | int | float | string | bool
deriving DecidableEq, Repr

namespace LiteralKind

def all : List LiteralKind := [.int, .float, .string, .bool]

def symbol : LiteralKind → String
  | .int => "int"
  | .float => "float"
  | .string => "string"
  | .bool => "bool"

def ofSymbol? (s : String) : Option LiteralKind := all.find? fun k => k.symbol == s

end LiteralKind

inductive Category where
  | typeNode | expression | statement
deriving DecidableEq, Repr

def Category.name : Category → String
  | .typeNode => "TypeNode"
  | .expression => "Expression"
  | .statement => "Statement"

inductive NodeClass where
  | simpleType | genericType
  | literal | identifier | binaryOp | unaryOp | functionCall | methodCall | memberAccess
  | indexAccess
  | castExpr | listLiteral | mapEntry | mapLiteral | setLiteral | structLiteral
  | varDecl | assignmentStatement | expressionStatement | returnStatement | panicStatement
  | breakStatement | continueStatement | passStatement | block | elifBranch | ifStatement
  | matchCase
  | matchStatement | whileStatement | forStatement
  | parameter | functionDef | typeAliasDecl | fieldDecl | methodSig | structDecl | interfaceDecl
  | compilationUnit
deriving DecidableEq, Repr

namespace NodeClass

def all : List NodeClass :=
  [.simpleType, .genericType, .literal, .identifier, .binaryOp, .unaryOp,
    .functionCall, .methodCall,
   .memberAccess, .indexAccess, .castExpr, .listLiteral, .mapEntry, .mapLiteral, .setLiteral,
   .structLiteral, .varDecl, .assignmentStatement, .expressionStatement, .returnStatement,
   .panicStatement, .breakStatement, .continueStatement, .passStatement, .block, .elifBranch,
   .ifStatement, .matchCase, .matchStatement, .whileStatement, .forStatement, .parameter,
   .functionDef, .typeAliasDecl, .fieldDecl, .methodSig, .structDecl, .interfaceDecl,
   .compilationUnit]

def name : NodeClass → String
  | .simpleType => "SimpleType"
  | .genericType => "GenericType"
  | .literal => "Literal"
  | .identifier => "Identifier"
  | .binaryOp => "BinaryOp"
  | .unaryOp => "UnaryOp"
  | .functionCall => "FunctionCall"
  | .methodCall => "MethodCall"
  | .memberAccess => "MemberAccess"
  | .indexAccess => "IndexAccess"
  | .castExpr => "CastExpr"
  | .listLiteral => "ListLiteral"
  | .mapEntry => "MapEntry"
  | .mapLiteral => "MapLiteral"
  | .setLiteral => "SetLiteral"
  | .structLiteral => "StructLiteral"
  | .varDecl => "VarDecl"
  | .assignmentStatement => "AssignmentStatement"
  | .expressionStatement => "ExpressionStatement"
  | .returnStatement => "ReturnStatement"
  | .panicStatement => "PanicStatement"
  | .breakStatement => "BreakStatement"
  | .continueStatement => "ContinueStatement"
  | .passStatement => "PassStatement"
  | .block => "Block"
  | .elifBranch => "ElifBranch"
  | .ifStatement => "IfStatement"
  | .matchCase => "MatchCase"
  | .matchStatement => "MatchStatement"
  | .whileStatement => "WhileStatement"
  | .forStatement => "ForStatement"
  | .parameter => "Parameter"
  | .functionDef => "FunctionDef"
  | .typeAliasDecl => "TypeAliasDecl"
  | .fieldDecl => "FieldDecl"
  | .methodSig => "MethodSig"
  | .structDecl => "StructDecl"
  | .interfaceDecl => "InterfaceDecl"
  | .compilationUnit => "Module"

def ofName? (s : String) : Option NodeClass := all.find? fun c => c.name == s

/-- The category a class belongs to, if any. -/
def category? : NodeClass → Option Category
  | .simpleType | .genericType => some .typeNode
  | .literal | .identifier | .binaryOp | .unaryOp | .functionCall | .methodCall | .memberAccess
  | .indexAccess | .castExpr | .listLiteral | .mapLiteral | .setLiteral | .structLiteral =>
    some .expression
  | .varDecl | .assignmentStatement | .expressionStatement | .returnStatement | .panicStatement
  | .breakStatement | .continueStatement | .passStatement | .ifStatement | .matchStatement
  | .whileStatement | .forStatement => some .statement
  | _ => none

end NodeClass

inductive Shape where
  | category (c : Category)
  | node (c : NodeClass)
  | null
  | int
  | float
  | text
  | bool
  | operator
  | literalKind
  | list (item : Shape)
  | object (item : Shape)
  | either (first second : Shape)
deriving DecidableEq, Repr

namespace Shape

def describe : Shape → String
  | .category c => c.name ++ " node"
  | .node c => c.name ++ " node"
  | .null => "null"
  | .int => "int"
  | .float => "float"
  | .text => "str"
  | .bool => "bool"
  | .operator => "Operator"
  | .literalKind => "LiteralKind"
  | .list item => "a list of " ++ item.describe
  | .object item => "an object of " ++ item.describe
  | .either first second => first.describe ++ " or " ++ second.describe

def optional (s : Shape) : Shape := .either s .null

end Shape

inductive Default where
  | required | null | emptyList | emptyObject
deriving DecidableEq, Repr

structure FieldSpec where
  name : String
  shape : Shape
  default : Default
deriving DecidableEq, Repr

namespace NodeClass

def required (name : String) (shape : Shape) : FieldSpec := ⟨name, shape, .required⟩

/-- A field that may be left out and is null then. -/
def optional (name : String) (shape : Shape) : FieldSpec := ⟨name, shape.optional, .null⟩

/-- A field that holds a list, which is empty when it is left out. -/
def many (name : String) (item : Shape) : FieldSpec := ⟨name, .list item, .emptyList⟩

def fields : NodeClass → List FieldSpec
  | .simpleType => [required "name" .text]
  | .genericType =>
    [required "name" .text, required "type_args" (.list (.category .typeNode)),
      optional "length" .int]
  | .literal =>
    [required "value" (.either .int (.either .float (.either .text .bool))),
     required "literal_kind" .literalKind]
  | .identifier => [required "name" .text]
  | .binaryOp =>
    [required "left" (.category .expression), required "operator" .operator,
     required "right" (.category .expression)]
  | .unaryOp => [required "operator" .operator, required "operand" (.category .expression)]
  | .functionCall =>
    [required "callee" (.category .expression), many "arguments" (.category .expression)]
  | .methodCall =>
    [required "object" (.category .expression), required "method" .text,
     many "arguments" (.category .expression)]
  | .memberAccess => [required "object" (.category .expression), required "member" .text]
  | .indexAccess =>
    [required "object" (.category .expression), required "index" (.category .expression)]
  | .castExpr =>
    [required "target" (.category .typeNode), required "operand" (.category .expression)]
  | .listLiteral => [required "elements" (.list (.category .expression))]
  | .mapEntry => [required "key" (.category .expression), required "value" (.category .expression)]
  | .mapLiteral => [required "entries" (.list (.node .mapEntry))]
  | .setLiteral => [required "elements" (.list (.category .expression))]
  | .structLiteral =>
    [required "type_name" .text, ⟨"fields", .object (.category .expression), .emptyObject⟩]
  | .varDecl =>
    [required "name" .text, optional "type_annotation" (.category .typeNode),
     optional "initializer" (.category .expression)]
  | .assignmentStatement =>
    [required "target" (.category .expression), required "value" (.category .expression)]
  | .expressionStatement => [required "expression" (.category .expression)]
  | .returnStatement => [optional "value" (.category .expression)]
  | .panicStatement => [optional "message" (.category .expression)]
  | .breakStatement => []
  | .continueStatement => []
  | .passStatement => []
  | .block => [many "statements" (.category .statement)]
  | .elifBranch => [required "condition" (.category .expression), required "body" (.node .block)]
  | .ifStatement =>
    [required "condition" (.category .expression), required "then_branch" (.node .block),
     many "elif_branches" (.node .elifBranch), optional "else_branch" (.node .block)]
  | .matchCase => [required "values" (.list (.category .expression)),
      required "body" (.node .block)]
  | .matchStatement =>
    [required "subject" (.category .expression), many "cases" (.node .matchCase),
     optional "default" (.node .block)]
  | .whileStatement => [required "condition" (.category .expression),
      required "body" (.node .block)]
  | .forStatement =>
    [required "variable" .text, required "iterable" (.category .expression),
     required "body" (.node .block)]
  | .parameter => [required "name" .text, required "type_annotation" (.category .typeNode)]
  | .functionDef =>
    [required "name" .text, required "parameters" (.list (.node .parameter)),
     required "return_type" (Shape.optional (.category .typeNode)), required "body" (.node .block),
     optional "receiver" (.node .parameter)]
  | .typeAliasDecl => [required "name" .text, required "underlying" (.category .typeNode)]
  | .fieldDecl => [required "name" .text, required "type_annotation" (.category .typeNode)]
  | .methodSig =>
    [required "name" .text, required "parameters" (.list (.node .parameter)),
     optional "return_type" (.category .typeNode)]
  | .structDecl => [required "name" .text, many "fields" (.node .fieldDecl)]
  | .interfaceDecl =>
    [required "name" .text, many "members" (.either (.node .fieldDecl) (.node .methodSig))]
  | .compilationUnit =>
    [required "name" (Shape.optional .text),
     many "types" (.either (.node .typeAliasDecl)
       (.either (.node .structDecl) (.node .interfaceDecl))),
     many "variables" (.node .varDecl), many "functions" (.node .functionDef)]

end NodeClass

end TreeTyping
