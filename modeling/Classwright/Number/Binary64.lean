/-!
# Finite double-precision numbers

A `Binary64` is a sign and the position of the magnitude among the finite doubles, which are
numbered upwards from zero. That number is also what the low 63 bits of the usual encoding hold,
so the order of the positions is the order of the values, and the fields of the encoding are a
quotient and a remainder.

Rounding is exact: `ofRatio` takes a quotient of natural numbers to the nearest double, with ties
to the even neighbour, in integer arithmetic. Reading a decimal is not: `ofDecimal` rounds at every
step.
-/

namespace Classwright

/-- A finite double: its sign and the position of its magnitude among the finite doubles. -/
structure Binary64 where
  negative : Bool
  position : Nat
deriving DecidableEq, Repr, Inhabited

namespace Binary64

/-- The number of doubles that share one exponent. -/
def binade : Nat := 1 <<< 52

/-- The first position that is no finite double. -/
def infinite : Nat := 2047 * binade

/-- The exponent field of the encoding. -/
def exponentField (x : Binary64) : Nat := x.position / binade

/-- The fraction field of the encoding. -/
def fractionField (x : Binary64) : Nat := x.position % binade

/-- The integer `m` in `m * 2 ^ q`, with `q` from `scale`. -/
def significand (x : Binary64) : Nat :=
  if x.exponentField = 0 then x.fractionField else x.fractionField + binade

/-- The exponent `q` in `m * 2 ^ q`, with `m` from `significand`. -/
def scale (x : Binary64) : Int :=
  if x.exponentField = 0 then -1074 else (x.exponentField : Int) - 1075

/-- Where a value stands on the line of doubles. Both zeros stand at the same place. -/
def rank (x : Binary64) : Int :=
  if x.negative then -(x.position : Int) else x.position

/-- The order of the values. -/
def order (x y : Binary64) : Ordering := compare x.rank y.rank

/-- The integer nearest to `a / b`, with ties to the even neighbour. -/
def roundQuotient (a b : Nat) : Nat :=
  let q := a / b
  let r := a % b
  if 2 * r < b then q
  else if b < 2 * r then q + 1
  else q + q % 2

/-- The integer nearest to `a / b / 2 ^ q`. -/
def roundScaled (a b : Nat) (q : Int) : Nat :=
  match q with
  | .ofNat n => roundQuotient a (b <<< n)
  | .negSucc n => roundQuotient (a <<< (n + 1)) b

/-- Whether `a / b < 2 ^ e`. -/
def belowPower (a b : Nat) (e : Int) : Bool :=
  match e with
  | .ofNat n => a < b <<< n
  | .negSucc n => a <<< (n + 1) < b

/-- The exponent of the unit in which `a / b` is rounded: 52 below the leading binary digit, and
never below the smallest one. -/
def unitExponent (a b : Nat) : Int :=
  let estimate := (a.log2 : Int) - b.log2
  let leading := if belowPower a b estimate then estimate - 1 else estimate
  max (leading - 52) (-1074)

/-- The double nearest to `a / b`, if it is finite. -/
def ofRatio (negative : Bool) (a b : Nat) : Option Binary64 :=
  if a = 0 then some ⟨negative, 0⟩
  else
    let q := unitExponent a b
    let position := (q + 1074).toNat * binade + roundScaled a b q
    if position < infinite then some ⟨negative, position⟩ else none

/-- The double nearest to an integer. Integers of up to 64 bits are far below the largest one. -/
def ofInt (n : Int) : Binary64 :=
  (ofRatio (decide (n < 0)) n.natAbs 1).getD ⟨false, 0⟩

/-- The magnitude as a quotient of natural numbers. -/
def ratio (x : Binary64) : Nat × Nat :=
  match x.scale with
  | .ofNat n => (x.significand <<< n, 1)
  | .negSucc n => (x.significand, 1 <<< (n + 1))

/-- The double nearest to a product, if it is finite. -/
def mul? (x y : Binary64) : Option Binary64 :=
  ofRatio (x.negative != y.negative) (x.ratio.1 * y.ratio.1) (x.ratio.2 * y.ratio.2)

/-- The double nearest to a quotient by a number other than zero, if it is finite. -/
def div? (x y : Binary64) : Option Binary64 :=
  ofRatio (x.negative != y.negative) (x.ratio.1 * y.ratio.2) (x.ratio.2 * y.ratio.1)

/-- The largest exponent whose power of ten is not beyond the largest double. -/
def largestPower : Nat := 308

/-- The double nearest to a power of ten, for exponents up to `largestPower`. -/
def powerOfTen (n : Nat) : Binary64 := (ofRatio false (Nat.pow 10 n) 1).getD ⟨false, 0⟩

/-- About `x * 10 ^ e`, if it is finite: one product or quotient with a power of ten, after as many
quotients by the largest power as it takes to reach one. Each of these steps rounds. -/
def scaled (x : Binary64) (e : Int) : Option Binary64 :=
  if x.position = 0 then some x
  else if (largestPower : Int) < e then none
  else if 0 ≤ e then x.mul? (powerOfTen e.toNat)
  else if -(largestPower : Int) ≤ e then x.div? (powerOfTen (-e).toNat)
  else (x.div? (powerOfTen largestPower)).bind fun y => y.scaled (e + largestPower)
termination_by (-e).toNat
decreasing_by
  simp only [largestPower] at *
  omega

/-- The double that `digits * 10 ^ exponent` is read as, for digits of up to 64 bits, if it is
finite. The digits are rounded before they are scaled, so the result is close to the number and need
not be the double nearest to it. -/
def ofDecimal (negative : Bool) (digits : Nat) (exponent : Int) : Option Binary64 :=
  scaled ⟨negative, (ofInt digits).position⟩ exponent

/-- The number of decimal digits of `n`. -/
def decimalLength (n : Nat) : Nat := (Nat.toDigits 10 n).length

end Binary64

end Classwright
