/-
Rules for literals and operators.

A literal has the machine-width type of its kind, unless its place asks for a primitive type of the
same sort.  Integer constants have to fit the type they end up with.  A word size given as a double
makes the bounds of machine-width types doubles.

Operands of a binary operator have the same type.  Arithmetic keeps it, comparisons and logical
operators yield truth values.  Aliases count as what they stand for, except with logical operators.
-/
import TreeTyping.Inference

namespace TreeTyping

/-! ### Literals -/

/-- The type of a literal without regard to its place. -/
def LiteralKind.type : LiteralKind → Ty
  | .int => .int
  | .float => .float
  | .string => .string
  | .bool => .bool

/-- Whether a literal takes the primitive type its place asks for. -/
def LiteralKind.adopts (kind : LiteralKind) (p : Primitive) : Bool :=
  match kind with
  | .int => p.isInteger
  | .float => p.kind == .float
  | _ => false

/-- The type of a literal at a place that asks for a type. -/
def LiteralKind.typeFor (kind : LiteralKind) (expected : Option Ty) : Ty :=
  match expected with
  | some (.primitive p) => if kind.adopts p then .primitive p else kind.type
  | _ => kind.type

/-- The least and the greatest integer with the given number of bits. -/
def integerBounds (kind : PrimitiveKind) (bits : Nat) : Int × Int :=
  match kind with
  | .unsigned => (0, Int.pow 2 bits - 1)
  | _ => (-Int.pow 2 (bits - 1), Int.pow 2 (bits - 1) - 1)

/-- The bounds of an integer type; a double as word size makes them doubles, except for zero. -/
def Primitive.bounds (wordBits : Number) (p : Primitive) : Number × Number :=
  match p.width.bits?, wordBits with
  | some bits, _ =>
    let (low, high) := integerBounds p.kind bits
    (.int low, .int high)
  | none, .int bits =>
    let (low, high) := integerBounds p.kind bits.toNat
    (.int low, .int high)
  | none, .float x =>
    let (low, high) := integerBounds p.kind (if x.equalsInt 32 then 32 else 64)
    (if low = 0 then .int 0 else .float (.ofInt low), .float (.ofInt high))

/-- The integer a constant is; truth values count. -/
def Value.integer? : Value → Option Int
  | .int n => some n
  | .bool b => some (if b then 1 else 0)
  | _ => Option.none

namespace Inference

/-- Requires a constant to fit an integer type. -/
def requireInRange (wordBits : Number) (n : Int) (p : Primitive) (span : Span) : Inference Unit :=
  let (low, high) := p.bounds wordBits
  if low.atMostInt n && high.atLeastInt n then pure ()
  else complain (.outOfRange n p.name low.text high.text) span

/-- Requires the value of a literal, taken with the opposite sign if `negated`, to fit its type. -/
def requireFits (wordBits : Number) (negated : Bool) (value : Value) (t : Ty) (span : Span) :
    Inference Unit :=
  match t, value.integer? with
  | .primitive p, some n =>
    if p.isInteger then requireInRange wordBits (if negated then -n else n) p span else pure ()
  | _, _ => pure ()

def literalType (wordBits : Number) (expected : Option Ty) (negated : Bool) (value : Value)
    (kind : Option LiteralKind) (span : Span) : Inference Ty :=
  match kind with
  | none => faulty .unknownLiteralKind
  | some kind => do
    let t := kind.typeFor expected
    requireFits wordBits negated value t span
    return t

end Inference

/-! ### Operators -/

/-- The type of a binary operator applied to operands of type `t`, which stands for `resolved`. -/
def Operator.binaryResult? (op : Operator) (t resolved : Ty) : Option Ty :=
  match op.family with
  | .arithmetic => if resolved.isNumeric || (op == .plus && resolved = .string) then
      some t else none
  | .ordering => if resolved.isNumeric || resolved = .string then some .bool else none
  | .equality => some .bool
  | .logical => if t = .bool then some .bool else none
  | .negation => none

/-- The type of a unary operator applied to an operand of type `t`, which stands for `resolved`. -/
def Operator.unaryResult? (op : Operator) (t resolved : Ty) : Option Ty :=
  match op with
  | .not => if t = .bool then some .bool else none
  | .minus => if resolved.isNumeric && resolved.isSigned then some t else none
  | .plus => if resolved.isNumeric then some t else none
  | _ => none

def Operator.isSign (op : Operator) : Bool := op == .minus || op == .plus

namespace Inference

def binaryType (r : Registry) (op : Option Operator) (left right : Ty) (span : Span) :
    Inference Ty :=
  match op with
  | none => faulty .missingPart
  | some op =>
    if left ≠ right then complain (.operandTypes op.symbol left.name right.name) span
    else do
      let resolved ← lift (r.resolveUnderlying left .nowhere)
      match op.binaryResult? left resolved with
      | some t => return t
      | none => complain (.operatorUndefined op.symbol left.name) span

def unaryType (r : Registry) (op : Option Operator) (operand : Ty) (span : Span) :
    Inference Ty := do
  let resolved ← lift (r.resolveUnderlying operand .nowhere)
  match op with
  | none => faulty .missingPart
  | some op =>
    match op.unaryResult? operand resolved with
    | some t => return t
    | none => complain (.operatorUndefined op.symbol operand.name) span

end Inference

end TreeTyping
