import Reroute.Float.Format
/-!
# The shortest decimal of a float

A float stands for the interval of reals that round to it. `shortest` finds
the decimal with the fewest digits in that interval, testing for each digit
count the two neighbours of the value on that decimal grid; of two hits the
nearer wins, and of two at the same distance the upper. `FloatFormat.text`
lays the digits out.
-/

namespace Reroute

/-- A positive decimal `0.d₁d₂… · 10 ^ point`: its digits as a numeral, how
many there are, and where the point stands. -/
structure Decimal where
  digits : List Char
  point : Int
  deriving Repr, DecidableEq

namespace Decimal

/-- How many decimal digits a number has. -/
def digitCount (n : Nat) : Nat := (Nat.toDigits 10 n).length

/-- The digits of `numeral · 10 ^ exponent` without zeros at the end. -/
def ofNumeral (numeral : Nat) (exponent : Int) : Decimal :=
  let digits := Nat.toDigits 10 numeral
  { digits := (digits.reverse.dropWhile (· == '0')).reverse
    point := exponent + digits.length }

/-- A power of ten. -/
def tenTo (exponent : Nat) : Nat := Nat.pow 10 exponent

/-- A positive quotient of numbers. -/
structure Ratio where
  num : Nat
  den : Nat

/-- The number `factor · 2 ^ two · 10 ^ ten` as a quotient. -/
def Ratio.ofScale (factor : Nat) (two ten : Int) : Ratio where
  num := factor * twoTo two.toNat * tenTo ten.toNat
  den := twoTo (-two).toNat * tenTo (-ten).toNat

/-- The least `point` with the quotient below `10 ^ point`. -/
def Ratio.point (r : Ratio) : Int :=
  let shift : Int := (digitCount r.num : Int) - digitCount r.den
  if r.den * tenTo shift.toNat ≤ r.num * tenTo (-shift).toNat then shift + 1 else shift

/-- The interval of reals that round to `significand · 2 ^ exponent`, in
quarters of that power of two: the interval below a power of two is half as
wide as the one above it. -/
structure Interval where
  low : Nat
  value : Nat
  high : Nat
  closed : Bool

def Interval.ofFloat (significand : Nat) (belowPowerIsNarrow : Bool) : Interval where
  low := 4 * significand - (if belowPowerIsNarrow then 1 else 2)
  value := 4 * significand
  high := 4 * significand + 2
  closed := significand % 2 = 0

/-- The one-sided test of a grid point against a bound. -/
def within (closed : Bool) (a b : Nat) : Bool := a < b || (closed && a = b)

/-- The hit with `count` digits, if there is one. -/
def onGrid? (interval : Interval) (two : Int) (point : Int) (count : Nat) : Option Decimal :=
  let ten := point - count
  -- grid points and bounds over the common denominator
  let step := twoTo (-two).toNat * tenTo ten.toNat
  let scale := twoTo two.toNat * tenTo (-ten).toNat
  let below := interval.value * scale / step
  let holds (n : Nat) : Bool :=
    within interval.closed (interval.low * scale) (n * step) &&
      within interval.closed (n * step) (interval.high * scale)
  let lower := decide (0 < below) && holds below
  let upper := holds (below + 1)
  let upperIsNearer := decide (interval.value * scale * 2 ≤ (2 * below + 1) * step) == false
    || decide (interval.value * scale * 2 = (2 * below + 1) * step)
  if lower && !(upper && upperIsNearer) then some (ofNumeral below ten)
  else if upper then some (ofNumeral (below + 1) ten)
  else none

/-- The shortest decimal that rounds to `significand · 2 ^ exponent`.
Seventeen digits tell all values of both formats apart. -/
def shortest (significand : Nat) (exponent : Int) (belowPowerIsNarrow : Bool) : Decimal :=
  let interval := Interval.ofFloat significand belowPowerIsNarrow
  let two := exponent - 2
  let point := (Ratio.ofScale interval.value two 0).point
  let found := (List.range 17).findSome? fun i => onGrid? interval two point (i + 1)
  found.getD (ofNumeral significand 0)

/-- How numbers are laid out: positional notation is used for points from
`leastPoint` to `greatestPoint`, and keeps one place behind the point. -/
structure Layout where
  leastPoint : Int
  greatestPoint : Int
  mark : Char

/-- From one ten-thousandth up to ten to the sixteenth, numbers are written
positionally; beyond, with one digit in front of the point and an exponent
of least width. -/
def debugLayout : Layout := ⟨-3, 16, 'e'⟩

def positional (d : Decimal) : List Char :=
  let count : Int := d.digits.length
  if d.point ≤ 0 then
    ['0', '.'] ++ List.replicate (-d.point).toNat '0' ++ d.digits
  else if count ≤ d.point then
    d.digits ++ List.replicate (d.point - count).toNat '0' ++ ['.', '0']
  else
    d.digits.take d.point.toNat ++ '.' :: d.digits.drop d.point.toNat

def scientific (layout : Layout) (d : Decimal) : List Char :=
  let exponent := d.point - 1
  let mantissa := match d.digits with
    | [] => []
    | [digit] => [digit]
    | digit :: rest => digit :: '.' :: rest
  mantissa ++ layout.mark :: (if exponent < 0 then ['-'] else []) ++ Nat.toDigits 10 exponent.natAbs

def render (layout : Layout) (d : Decimal) : List Char :=
  if layout.leastPoint ≤ d.point ∧ d.point ≤ layout.greatestPoint then d.positional
  else d.scientific layout

end Decimal

namespace FloatFormat

/-- The text of a pattern: the shortest digits that read back, a sign also
for minus zero, and names for infinity and NaN. -/
def text (f : FloatFormat) (bits : Nat) : String :=
  let sign := if f.isNegative bits then ['-'] else []
  match f.magnitude bits with
  | .nan _ => "NaN"
  | .infinite => String.ofList (sign ++ "inf".toList)
  | .finite significand exponent =>
    if significand = 0 then String.ofList (sign ++ "0.0".toList)
    else
      let narrow := decide (significand = twoTo f.fractionBits ∧ f.leastExponent < exponent)
      String.ofList
        (sign ++ (Decimal.shortest significand exponent narrow).render Decimal.debugLayout)

end FloatFormat

/-- The shortest text that reads back as this pattern. -/
def Binary32.text (x : Binary32) : String := FloatFormat.single.text x.bits.toNat

/-- The shortest text that reads back as this pattern. -/
def Binary64.text (x : Binary64) : String := FloatFormat.double.text x.bits.toNat

end Reroute
