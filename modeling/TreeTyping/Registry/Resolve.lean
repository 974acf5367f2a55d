/-
Types from annotations.

A plain name is looked up in the registry.  The six composed names take a fixed number of arguments,
which are resolved before anything is said about a length; only arrays have one, it is not negative,
and an array of fixed length does not hold arrays of fixed length.
-/
import TreeTyping.Registry.Basic
import TreeTyping.Syntax.Basic

namespace TreeTyping.Registry

def arity? (name : String) : Option Nat :=
  if name = "map" ∨ name = "hashmap" then some 2
  else if name = "list" ∨ name = "set" ∨ name = "array" ∨ name = "hashset" then some 1
  else none

def isFixedArray : Ty → Bool
  | .array _ (some _) => true
  | _ => false

def arrayType (span : Span) (element : Ty) : Option Int → Except Failure Ty
  | none => .ok (.array element none)
  | some length =>
    if length < 0 then complain (.negativeLength length) span
    else if isFixedArray element then complain .nestedFixedArray span
    else .ok (.array element (some length))

/-- The composed type with the given name and arguments. -/
def composedType (span : Span) (name : String) (args : List Ty) (length : Option Int) :
    Except Failure Ty :=
  if length.isSome ∧ name ≠ "array" then complain (.lengthOfNonArray name) span
  else
    match name, args with
    | "list", [e] => .ok (.list e)
    | "map", [k, v] => .ok (.map k v)
    | "set", [e] => .ok (.set e)
    | "hashmap", [k, v] => .ok (.hashMap k v)
    | "hashset", [e] => .ok (.hashSet e)
    | "array", [e] => arrayType span e length
    | name, _ => complain (.unknownType name) span

mutual

def typeOf (r : Registry) : TypeExpr → Except Failure Ty
  | .simple span name => r.resolve name span
  | .generic span name args length =>
    match arity? name with
    | none => complain (.unknownType name) span
    | some arity =>
      if args.length ≠ arity then complain (.typeArguments name arity args.length) span
      else do
        let ts ← typesOf r args
        composedType span name ts length
  | .foreign f =>
    match f.span? with
    | some span => complain (.notATypeExpr f.kind) span
    | none => .error (.fault .missingPart)

def typesOf (r : Registry) : List TypeExpr → Except Failure (List Ty)
  | [] => .ok []
  | e :: rest => do
    let t ← typeOf r e
    let ts ← typesOf r rest
    return t :: ts

end

/-- The type of an annotation that may be left out. -/
def typeOf? (r : Registry) : Option TypeExpr → Except Failure (Option Ty)
  | none => .ok none
  | some e => (typeOf r e).map some

def functionType (r : Registry) (params : List Param) (result : Option TypeExpr) :
    Except Failure Ty := do
  let ts ← r.typesOf (params.map Param.typeExpr)
  return .function ts (← r.typeOf? result)

end TreeTyping.Registry
