import Reroute.Bytes
/-!
# Binary floating-point formats

The two IEEE 754 formats as bit patterns. A pattern is split into a sign
and a magnitude, and a finite magnitude is an integer times a power of two,
so conversion between the formats is integer arithmetic: `FloatFormat.round`
takes `significand · 2 ^ exponent` to the nearest magnitude of a format, a
tie going to the even neighbour and too large a value to infinity.
-/

namespace Reroute

/-- A power of two. -/
def twoTo (exponent : Nat) : Nat := Nat.pow 2 exponent

/-- A binary interchange format: the bits of its fraction and of its exponent. -/
structure FloatFormat where
  fractionBits : Nat
  exponentBits : Nat
  deriving Repr, DecidableEq

/-- What the bits below the sign denote. -/
inductive Magnitude where
  /-- The integer `significand` times two to the `exponent`. -/
  | finite (significand : Nat) (exponent : Int)
  | infinite
  /-- Not a number, with its nonzero fraction. -/
  | nan (fraction : Nat)
  deriving Repr, DecidableEq

namespace FloatFormat

def single : FloatFormat := ⟨23, 8⟩

def double : FloatFormat := ⟨52, 11⟩

/-- The exponent of the unit in the last place of the smallest magnitudes. -/
def leastExponent (f : FloatFormat) : Int :=
  2 - (twoTo (f.exponentBits - 1) : Nat) - f.fractionBits

/-- The bits of infinity: the greatest exponent and no fraction. -/
def infinityBits (f : FloatFormat) : Nat :=
  (twoTo f.exponentBits - 1) * twoTo f.fractionBits

/-- The sign's place value. -/
def signWeight (f : FloatFormat) : Nat := twoTo (f.fractionBits + f.exponentBits)

/-- Whether a pattern has its sign set. -/
def isNegative (f : FloatFormat) (bits : Nat) : Bool := bits / f.signWeight % 2 = 1

/-- What a pattern denotes, its sign apart. -/
def magnitude (f : FloatFormat) (bits : Nat) : Magnitude :=
  let fraction := bits % twoTo f.fractionBits
  let field := bits / twoTo f.fractionBits % twoTo f.exponentBits
  if field = twoTo f.exponentBits - 1 then
    if fraction = 0 then .infinite else .nan fraction
  else if field = 0 then
    .finite fraction f.leastExponent
  else
    .finite (fraction + twoTo f.fractionBits) (f.leastExponent + (field - 1 : Nat))

/-- The quotient `significand / 2 ^ places`, rounded to the nearest integer, a
tie to the even one. -/
def shiftNearest (significand places : Nat) : Nat :=
  let whole := significand / twoTo places
  let twice := 2 * (significand % twoTo places)
  if twoTo places < twice ∨ (twice = twoTo places ∧ whole % 2 = 1) then whole + 1 else whole

/-- The bits, without a sign, of the magnitude nearest to
`significand · 2 ^ exponent`. A carry out of the fraction runs into the
exponent field, which is the right pattern. -/
def round (f : FloatFormat) (significand : Nat) (exponent : Int) : Nat :=
  if significand = 0 then 0
  else
    let unit := max f.leastExponent (exponent + (significand.log2 : Int) - f.fractionBits)
    let scaled :=
      if unit ≤ exponent then significand * twoTo (exponent - unit).toNat
      else shiftNearest significand (unit - exponent).toNat
    min f.infinityBits ((unit - f.leastExponent).toNat * twoTo f.fractionBits + scaled)

/-- A pattern of one format as the nearest pattern of another. A NaN stays
one: it keeps its sign and the leading bits of its fraction, and is quiet. -/
def convert (source target : FloatFormat) (bits : Nat) : Nat :=
  let sign := if source.isNegative bits then target.signWeight else 0
  sign + match source.magnitude bits with
    | .finite significand exponent => target.round significand exponent
    | .infinite => target.infinityBits
    | .nan fraction =>
      let moved := fraction * twoTo target.fractionBits / twoTo source.fractionBits
      let quiet := twoTo (target.fractionBits - 1)
      target.infinityBits + (if moved < quiet then moved + quiet else moved)

end FloatFormat

namespace Binary32

/-- The same number in the wider format; every value has one there. -/
def widen (x : Binary32) : Binary64 :=
  ⟨UInt64.ofNat (FloatFormat.convert .single .double x.bits.toNat)⟩

end Binary32

namespace Binary64

/-- The nearest number of the narrower format. -/
def narrow (x : Binary64) : Binary32 :=
  ⟨UInt32.ofNat (FloatFormat.convert .double .single x.bits.toNat)⟩

end Binary64

end Reroute
