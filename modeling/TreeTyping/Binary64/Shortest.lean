/-
The text of a double: the fewest digits that read back.

The reals that round to a double form an interval around it, and its ends belong to it exactly when
the mantissa is even.  For one digit, two digits and so on, the two neighbours of the value on the
decimal grid of that many digits are tried; the first grid with a neighbour in the interval gives
the digits, and of two neighbours the nearer one, a tie going to the even last digit.  Seventeen
digits always suffice.

How the digits are laid out is one record: positional notation for exponents from -4 to 15, and
otherwise a mantissa with a signed exponent of at least two digits.
-/
import TreeTyping.Binary64.Basic

namespace TreeTyping.Binary64

/-- A closed or open interval of quotients over one denominator, around a value. -/
structure Interval where
  low : Nat
  value : Nat
  high : Nat
  den : Nat
  closed : Bool

/-- The reals that round to `mantissa * 2 ^ exponent`, for a positive mantissa. -/
def roundingInterval (mantissa : Nat) (exponent : Int) : Interval :=
  let below := if mantissa == Nat.pow 2 52 && exponent > leastExponent then 1 else 2
  let up := if exponent < 0 then 1 else Nat.pow 2 exponent.natAbs
  let den := if exponent < 0 then Nat.pow 2 exponent.natAbs else 1
  { low := (4 * mantissa - below) * up
    value := 4 * mantissa * up
    high := (4 * mantissa + 2) * up
    den := 4 * den
    closed := mantissa % 2 == 0 }

def Interval.contains (i : Interval) (num den : Nat) : Bool :=
  let n := num * i.den
  let low := i.low * den
  let high := i.high * den
  if i.closed then decide (low ≤ n ∧ n ≤ high) else decide (low < n ∧ n < high)

/-- The decimal exponent of the leading digit of `num / den`, for positive `num` and `den`. -/
def leadingExponent (num den : Nat) : Int :=
  let guess : Int := ((Nat.toDigits 10 num).length : Int) - (Nat.toDigits 10 den).length
  let (n, d) := if guess < 0 then (num * Nat.pow 10 guess.natAbs, den)
    else (num, den * Nat.pow 10 guess.natAbs)
  if n < d then guess - 1 else guess

/-- The digits of the value on the grid `10 ^ step`, if a neighbour lies in the interval. -/
def onGrid (i : Interval) (step : Int) : Option Nat :=
  let up := if step < 0 then Nat.pow 10 step.natAbs else 1
  let down := if step < 0 then 1 else Nat.pow 10 step.natAbs
  let num := i.value * up
  let den := i.den * down
  let low := num / den
  let lowIn := i.contains (low * down) up
  let highIn := i.contains ((low + 1) * down) up
  let nearer := roundHalfEven num den
  if lowIn && highIn then some nearer
  else if lowIn then some low
  else if highIn then some (low + 1)
  else none

/-- The digits and the exponent of the last digit, trying `more` digit counts from `count` on. -/
def searchGrids (i : Interval) (leading : Int) : (more count : Nat) → Nat × Int
  | 0, count =>
    let step := leading - count + 1
    let up := if step < 0 then Nat.pow 10 step.natAbs else 1
    let down := if step < 0 then 1 else Nat.pow 10 step.natAbs
    (roundHalfEven (i.value * up) (i.den * down), step)
  | more + 1, count =>
    let step := leading - count + 1
    match onGrid i step with
    | some digits => (digits, step)
    | none => searchGrids i leading more (count + 1)

/-- A number without the zeros at its end, and how many there were, for at most `fuel` of them. -/
def dropTrailingZeros : (fuel n : Nat) → Nat × Nat
  | 0, n => (n, 0)
  | fuel + 1, n =>
    if n != 0 && n % 10 == 0 then
      let (rest, zeros) := dropTrailingZeros fuel (n / 10)
      (rest, zeros + 1)
    else (n, 0)

/-- The fewest digits that read back as `mantissa * 2 ^ exponent`, and the exponent of the first. -/
def shortestDigits (mantissa : Nat) (exponent : Int) : List Char × Int :=
  if mantissa == 0 then (['0'], 0)
  else
    let i := roundingInterval mantissa exponent
    let (digits, step) := searchGrids i (leadingExponent i.value i.den) 17 1
    let (digits, zeros) := dropTrailingZeros 20 digits
    let text := Nat.toDigits 10 digits
    (text, step + zeros + text.length - 1)

/-- How decimal digits are laid out. -/
structure DecimalLayout where
  /-- The least leading exponent that is written positionally. -/
  positionalFrom : Int
  /-- The first leading exponent that is no longer written positionally. -/
  positionalBelow : Int
  /-- The least number of digits of a written exponent. -/
  exponentWidth : Nat
  infinity : String
  notANumber : String

/-- Positional from 10^-4 to below 10^16, always with a point; else two exponent digits. -/
def plainLayout : DecimalLayout := ⟨-4, 16, 2, "inf", "nan"⟩

/-- The digits of a finite number under a layout. -/
def DecimalLayout.lay (layout : DecimalLayout) (digits : List Char) (leading : Int) : List Char :=
  if layout.positionalFrom ≤ leading && leading < layout.positionalBelow then
    if leading < 0 then
      ['0', '.'] ++ List.replicate (leading.natAbs - 1) '0' ++ digits
    else
      let whole := leading.natAbs + 1
      let padded := digits ++ List.replicate (whole + 1 - digits.length) '0'
      padded.take whole ++ ['.'] ++ padded.drop whole
  else
    let power := Nat.toDigits 10 leading.natAbs
    let fraction := if digits.length > 1 then '.' :: digits.drop 1 else []
    digits.take 1 ++ fraction ++ ['e', if leading < 0 then '-' else '+']
      ++ List.replicate (layout.exponentWidth - power.length) '0' ++ power

def DecimalLayout.render (layout : DecimalLayout) : Binary64 → String
  | .finite negative mantissa exponent =>
    let (digits, leading) := shortestDigits mantissa exponent
    (if negative then "-" else "") ++ String.ofList (layout.lay digits leading)
  | .infinite negative => (if negative then "-" else "") ++ layout.infinity
  | .nan => layout.notANumber

def text (x : Binary64) : String := plainLayout.render x

end TreeTyping.Binary64
