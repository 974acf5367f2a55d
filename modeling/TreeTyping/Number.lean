/-
Numbers that are an integer or a double.

A word size may be given as a double, and every size computed from it is then a double too.  The sum
and the product of two integers are exact.  As soon as one operand is a double the other is rounded
to a double first, which fails for an integer beyond the largest double.  Integers have no bound:
they are computed with, read and written out at any length.
-/
import TreeTyping.Json.Basic

namespace TreeTyping

inductive Number where
  | int (n : Int)
  | float (x : Binary64)
deriving DecidableEq, Repr, Inhabited

namespace Number

/-- A number as a double, unless it is an integer too large for one. -/
def toBinary64? : Number → Option Binary64
  | .float x => some x
  | .int n =>
    match Binary64.ofInt n with
    | .infinite _ => none
    | x => some x

def add? : Number → Number → Option Number
  | .int a, .int b => some (.int (a + b))
  | a, b => do return .float ((← a.toBinary64?).add (← b.toBinary64?))

def mul? : Number → Number → Option Number
  | .int a, .int b => some (.int (a * b))
  | a, b => do return .float ((← a.toBinary64?).mul (← b.toBinary64?))

def text : Number → String
  | .int n => toString n
  | .float x => x.text

def toJson : Number → Json
  | .int n => .int n
  | .float x => .float x

def equalsInt (n : Int) : Number → Bool
  | .int m => m == n
  | .float x => x.equalsInt n

def atMostInt (n : Int) : Number → Bool
  | .int m => decide (m ≤ n)
  | .float x => x.atMostInt n

def atLeastInt (n : Int) : Number → Bool
  | .int m => decide (n ≤ m)
  | .float x => x.atLeastInt n

end Number

end TreeTyping
