/-
Diagnostics.

A diagnostic is a cause at a span.  The cause says what is wrong and with what; its kind, code,
text, hints and the span of an earlier definition all follow from it.  Every cause is an error
except the one that marks an unreachable statement, which is a warning and never changes a verdict.

Numbers in a text are written out at any length.  How many digits a number may have, and how deep a
recursion may go, are limits of a machine that runs the program and no part of it.
-/
import TreeTyping.Source

namespace TreeTyping

inductive ErrorKind where
  | unknownType | duplicateDefinition | cyclicAlias | typeMismatch | interfaceNotSatisfied
  | nonExhaustiveReturn
deriving DecidableEq, Repr

namespace ErrorKind

/-- All kinds, in the order in which they are listed. -/
def all : List ErrorKind :=
  [.unknownType, .duplicateDefinition, .cyclicAlias, .typeMismatch, .interfaceNotSatisfied,
   .nonExhaustiveReturn]

def name : ErrorKind → String
  | .unknownType => "UnknownType"
  | .duplicateDefinition => "DuplicateDefinition"
  | .cyclicAlias => "CyclicAlias"
  | .typeMismatch => "TypeMismatch"
  | .interfaceNotSatisfied => "InterfaceNotSatisfied"
  | .nonExhaustiveReturn => "NonExhaustiveReturn"

def code : ErrorKind → String
  | .unknownType => "E201"
  | .duplicateDefinition => "E202"
  | .cyclicAlias => "E203"
  | .typeMismatch => "E210"
  | .interfaceNotSatisfied => "E220"
  | .nonExhaustiveReturn => "E230"

end ErrorKind

inductive Cause where
  | unknownType (name : String)
  | undefinedVariable (name : String)
  | duplicate (what name : String) (previous : Option Span)
  | cyclicAlias (chain : List String)
  /-- A mismatch in the caller's own words. -/
  | mismatch (message : String) (hints : List String)
  | notAssignable (expected found : String) (hints : List String)
  | methodReceiver (receiver : String)
  | typeArguments (name : String) (arity found : Nat)
  | lengthOfNonArray (name : String)
  | negativeLength (length : Int)
  | nestedFixedArray
  | notATypeExpr (kind : String)
  | notATypeDeclaration (kind : String)
  | notAnInterfaceMember (kind : String)
  | notAVariable (kind : String)
  | notAFunction (kind : String)
  | unsupportedStatement (kind : String)
  | unsupportedExpression (kind : String)
  | outsideLoop (keyword : String)
  | untypedDeclaration (name : String)
  | cannotAssign
  | cannotAssignFunction (name : String)
  | returnOutsideFunction
  | missingReturnValue (function result : String)
  | procedureReturns (procedure : String)
  | conditionType (what found : String)
  | notIterable (type : String)
  | outOfRange (value : Int) (type low high : String)
  | operandTypes (op left right : String)
  | operatorUndefined (op type : String)
  | argumentCount (name : String) (expected found : Nat)
  | noValue (procedure : String)
  | calleeNotNamed
  | conversionArguments (name : String)
  | notCallable (name type : String)
  | noMethod (type name : String)
  | fieldCalled (name type : String)
  | noField (type name : String)
  | methodNotCalled (name type : String)
  | indexType (found : String)
  | notIndexable (type : String)
  | noConversion (source target : String)
  | notAStruct (type : String)
  | missingFields (type : String) (names : List String)
  | emptyLiteral (what : String)
  | noCommonType (what : String) (types : List String)
  | literalLength (found : Nat) (type : String) (length : Int)
  | infiniteSize (struct : String)
  | notSatisfied (type interface member reason : String)
  | nonExhaustive (function result : String)
  | unreachable
deriving Repr

namespace Cause

def tick (s : String) : String := "'" ++ s ++ "'"

def tickAll (names : List String) : String := ", ".intercalate (names.map tick)

def message : Cause → String
  | .unknownType name => "unknown type " ++ tick name
  | .undefinedVariable name => "no type is known for " ++ tick name
  | .duplicate what name _ => what ++ " " ++ tick name ++ " is already defined"
  | .cyclicAlias chain =>
    "alias " ++ tick (chain.headD "") ++ " resolves to itself: " ++ " -> ".intercalate chain
  | .mismatch message _ => message
  | .notAssignable expected found _ =>
    "type mismatch: expected " ++ tick expected ++ ", found " ++ tick found
  | .methodReceiver receiver =>
    "methods can only be declared on alias or struct types, not " ++ tick receiver
  | .typeArguments name arity found =>
    tick name ++ " takes " ++ toString arity ++ " type argument(s), got " ++ toString found
  | .lengthOfNonArray name => "only arrays have a fixed length, not " ++ tick name
  | .negativeLength length => "array length must not be negative, got " ++ toString length
  | .nestedFixedArray => "multidimensional fixed-size arrays are not supported"
  | .notATypeExpr kind => "not a type annotation: " ++ kind
  | .notATypeDeclaration kind => "not a type declaration: " ++ kind
  | .notAnInterfaceMember kind => "not an interface member: " ++ kind
  | .notAVariable kind => "not a variable declaration: " ++ kind
  | .notAFunction kind => "not a function definition: " ++ kind
  | .unsupportedStatement kind => "unsupported statement: " ++ kind
  | .unsupportedExpression kind => "unsupported expression: " ++ kind
  | .outsideLoop keyword => tick keyword ++ " outside of a loop"
  | .untypedDeclaration name => "declaration of " ++ tick name ++ " needs a type or an initializer"
  | .cannotAssign => "cannot assign to this expression"
  | .cannotAssignFunction name => "cannot assign to function " ++ tick name
  | .returnOutsideFunction => "'return' outside of a function"
  | .missingReturnValue function result =>
    "function " ++ tick function ++ " must return a value of type " ++ tick result
  | .procedureReturns procedure => "procedure " ++ tick procedure ++ " cannot return a value"
  | .conditionType what found => what ++ " must be 'bool', found " ++ tick found
  | .notIterable type => "cannot iterate over " ++ tick type
  | .outOfRange value type low high =>
    "constant " ++ toString value ++ " does not fit in " ++ tick type ++ " (" ++ low ++
      " to " ++ high ++ ")"
  | .operandTypes op left right =>
    "operands of " ++ tick op ++ " must have the same type, found " ++ tick left ++
      " and " ++ tick right
  | .operatorUndefined op type => "operator " ++ tick op ++ " is not defined for " ++ tick type
  | .argumentCount name expected found =>
    tick name ++ " takes " ++ toString expected ++ " argument(s), got " ++ toString found
  | .noValue procedure => "procedure " ++ tick procedure ++ " does not produce a value"
  | .calleeNotNamed => "only named functions can be called"
  | .conversionArguments name => "conversion to " ++ tick name ++ " takes exactly one argument"
  | .notCallable name type => tick name ++ " of type " ++ tick type ++ " is not callable"
  | .noMethod type name => tick type ++ " has no method " ++ tick name
  | .fieldCalled name type => tick name ++ " is a field of " ++ tick type ++ ", not a method"
  | .noField type name => tick type ++ " has no field " ++ tick name
  | .methodNotCalled name type => "method " ++ tick name ++ " of " ++ tick type ++ " must be called"
  | .indexType found => "index must be an integer, found " ++ tick found
  | .notIndexable type => tick type ++ " cannot be indexed"
  | .noConversion source target => "cannot convert " ++ tick source ++ " to " ++ tick target
  | .notAStruct type => tick type ++ " is not a struct type"
  | .missingFields type names => tick type ++ " literal is missing field(s): " ++ tickAll names
  | .emptyLiteral what => "cannot infer the " ++ what ++ " type of an empty literal"
  | .noCommonType what types => "literal " ++ what ++ "s have no common type: " ++ tickAll types
  | .literalLength found type length =>
    "array literal has " ++ toString found ++ " element(s), " ++ tick type ++ " holds " ++
      toString length
  | .infiniteSize struct => "struct " ++ tick struct ++ " contains itself and has no finite size"
  | .notSatisfied type interface member reason =>
    tick type ++ " does not satisfy " ++ tick interface ++ ": member " ++ tick member ++ " " ++
      reason
  | .nonExhaustive function result =>
    "function " ++ tick function ++ " does not return a " ++ tick result ++ " on every path"
  | .unreachable => "unreachable statement"

/-- The kind of a cause; warnings have none. -/
def kind? : Cause → Option ErrorKind
  | .unknownType _ | .undefinedVariable _ => some .unknownType
  | .duplicate _ _ _ => some .duplicateDefinition
  | .cyclicAlias _ => some .cyclicAlias
  | .notSatisfied _ _ _ _ => some .interfaceNotSatisfied
  | .nonExhaustive _ _ => some .nonExhaustiveReturn
  | .unreachable => none
  | _ => some .typeMismatch

def hints : Cause → List String
  | .undefinedVariable _ => ["variables must be declared before use"]
  | .mismatch _ hints => hints
  | .notAssignable _ _ hints => hints
  | .emptyLiteral _ => ["add a type annotation to the declaration"]
  | .nonExhaustive _ _ => ["a conditional only returns on every path when it has a default branch"]
  | _ => []

def previous? : Cause → Option Span
  | .duplicate _ _ previous => previous
  | _ => none

end Cause

structure Diagnostic where
  cause : Cause
  span : Span
deriving Repr

namespace Diagnostic

def kind? (d : Diagnostic) : Option ErrorKind := d.cause.kind?

def isError (d : Diagnostic) : Bool := d.kind?.isSome

def severity (d : Diagnostic) : String := if d.isError then "error" else "warning"

def code (d : Diagnostic) : String :=
  match d.kind? with
  | some kind => kind.code
  | none => "W301"

def message (d : Diagnostic) : String := d.cause.message

def lines (d : Diagnostic) : List String :=
  (d.span.startText ++ ": " ++ d.severity ++ "[" ++ d.code ++ "]: " ++ d.message) ::
    ((d.cause.previous?.toList.map fun s => "    --> " ++ s.startText ++
      ": previous definition here") ++ d.cause.hints.map fun hint => "    = hint: " ++ hint)

def format (d : Diagnostic) : String := "\n".intercalate d.lines

def toJson (d : Diagnostic) : Json :=
  .obj ([("kind", match d.kind? with
            | some kind => .str kind.name
            | none => .null),
         ("code", .str d.code),
         ("message", .str d.message),
         ("severity", .str d.severity),
         ("range", d.span.toJson),
         ("hints", .arr (d.cause.hints.map .str))]
    ++ d.cause.previous?.toList.map fun s => ("secondary_range", s.toJson))

end Diagnostic

end TreeTyping
