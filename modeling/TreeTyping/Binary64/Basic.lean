/-
Double-precision numbers, by exact arithmetic.

A finite number is a sign, a mantissa below 2^53 and an exponent of at least -1074, and stands for
mantissa * 2^exponent.  The mantissa is at least 2^52 unless the exponent is the least one, so every
value but zero is written in one way and equality of numbers is equality of their parts.  Both zeros
exist.

`nearest` rounds a quotient of natural numbers to the closest double, a half going to the even
mantissa.  All arithmetic is done on exact quotients and rounded once, which is what the standard
for binary arithmetic asks of every operation.
-/
namespace TreeTyping

inductive Binary64 where
  | finite (negative : Bool) (mantissa : Nat) (exponent : Int)
  | infinite (negative : Bool)
  | nan
deriving DecidableEq, Repr, Inhabited

namespace Binary64

/-- The least exponent, shared by zero and the subnormal numbers. -/
def leastExponent : Int := -1074

def largestExponent : Int := 971

def zero (negative : Bool) : Binary64 := .finite negative 0 leastExponent

/-- A quotient rounded to the nearest natural number, a half going to the even neighbour. -/
def roundHalfEven (num den : Nat) : Nat :=
  let low := num / den
  let rest := num % den
  if 2 * rest < den then low
  else if 2 * rest > den then low + 1
  else if low % 2 == 0 then low else low + 1

/-- The quotient `num / den` divided by `2 ^ exponent`, again as a quotient. -/
def scaleDown (num den : Nat) (exponent : Int) : Nat × Nat :=
  if exponent < 0 then (num * Nat.pow 2 exponent.natAbs, den)
    else (num, den * Nat.pow 2 exponent.natAbs)

/-- The double closest to `num / den`, with the given sign. -/
def nearest (negative : Bool) (num den : Nat) : Binary64 :=
  if num == 0 then zero negative
  else
    let estimate : Int := (num.log2 : Int) - (den.log2 : Int)
    let (n, d) := scaleDown num den estimate
    let leading := if n < d then estimate - 1 else estimate
    let exponent := max (leading - 52) leastExponent
    let (n, d) := scaleDown num den exponent
    let mantissa := roundHalfEven n d
    let (mantissa, exponent) :=
      if mantissa == Nat.pow 2 53 then (Nat.pow 2 52, exponent + 1) else (mantissa, exponent)
    if exponent > largestExponent then .infinite negative else .finite negative mantissa exponent

def ofInt (n : Int) : Binary64 := nearest (n < 0) n.natAbs 1

def toQuotient (negative : Bool) (mantissa : Nat) (exponent : Int) : Int × Nat :=
  let signed : Int := if negative then -(mantissa : Int) else mantissa
  if exponent < 0 then (signed, Nat.pow 2 exponent.natAbs)
    else (signed * Int.pow 2 exponent.natAbs, 1)

def neg : Binary64 → Binary64
  | .finite s m e => .finite (!s) m e
  | .infinite s => .infinite (!s)
  | .nan => .nan

def add : Binary64 → Binary64 → Binary64
  | .nan, _ => .nan
  | _, .nan => .nan
  | .infinite s, .infinite t => if s == t then .infinite s else .nan
  | .infinite s, _ => .infinite s
  | _, .infinite t => .infinite t
  | .finite s m e, .finite t n f =>
    let (a, b) := toQuotient s m e
    let (c, d) := toQuotient t n f
    let sum := a * d + c * b
    if sum == 0 then zero (s && t) else nearest (sum < 0) sum.natAbs (b * d)

def mul : Binary64 → Binary64 → Binary64
  | .nan, _ => .nan
  | _, .nan => .nan
  | .infinite s, .infinite t => .infinite (s != t)
  | .infinite s, .finite t n _ => if n == 0 then .nan else .infinite (s != t)
  | .finite s m _, .infinite t => if m == 0 then .nan else .infinite (s != t)
  | .finite s m e, .finite t n f =>
    let (a, b) := toQuotient s m e
    let (c, d) := toQuotient t n f
    nearest (s != t) (a.natAbs * c.natAbs) (b * d)

def equalsInt (n : Int) : Binary64 → Bool
  | .finite s m e => let (a, b) := toQuotient s m e; a == n * b
  | _ => false

def isZero : Binary64 → Bool
  | .finite _ m _ => m == 0
  | _ => false

/-- Whether an integer is at least the given number. -/
def atMostInt (n : Int) : Binary64 → Bool
  | .finite s m e => let (a, b) := toQuotient s m e; decide (a ≤ n * b)
  | .infinite s => s
  | .nan => false

/-- Whether an integer is at most the given number. -/
def atLeastInt (n : Int) : Binary64 → Bool
  | .finite s m e => let (a, b) := toQuotient s m e; decide (n * b ≤ a)
  | .infinite s => !s
  | .nan => false

/--
The double closest to `digits * 10 ^ exponent`.

The decimal exponent is unbounded, so a number whose leading digit stands above 10^400 or below
10^-400 is settled without computing the power.
-/
def ofDecimal (negative : Bool) (digits : Nat) (exponent : Int) : Binary64 :=
  if digits == 0 then zero negative
  else
    let leading := exponent + (Nat.toDigits 10 digits).length
    if leading > 400 then .infinite negative
    else if leading < -400 then zero negative
    else if exponent < 0 then nearest negative digits (Nat.pow 10 exponent.natAbs)
    else nearest negative (digits * Nat.pow 10 exponent.natAbs) 1

end Binary64

end TreeTyping
