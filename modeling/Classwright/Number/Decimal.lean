import Classwright.Number.Binary64

/-!
# Shortest decimals

`shortest` gives the fewest decimal digits that read back as the same double, and of those the
nearest to it. A `Layout` says where the point goes and when an exponent is written.
-/

namespace Classwright

/-- The number `0.d₁d₂…dₙ * 10 ^ point`, with `digits = d₁d₂…dₙ`. -/
structure Decimal where
  digits : Nat
  point : Int
deriving DecidableEq, Repr

namespace Decimal

/-- The least `k` with `a / b < 10 ^ k`, for positive `a` and `b`. -/
def magnitude (a b : Nat) : Int :=
  let estimate := (Binary64.decimalLength a : Int) - Binary64.decimalLength b
  let below : Bool :=
    match estimate with
    | .ofNat n => a < b * Nat.pow 10 n
    | .negSucc n => a * Nat.pow 10 (n + 1) < b
  if below then estimate else estimate + 1

/-- The quotient `a / b` on the grid of multiples of `10 ^ e`: numerator and denominator of
`a / b / 10 ^ e`. -/
def onGrid (a b : Nat) (e : Int) : Nat × Nat :=
  match e with
  | .ofNat n => (a, b * Nat.pow 10 n)
  | .negSucc n => (a * Nat.pow 10 (n + 1), b)

/-- The double's magnitude and the ends of the interval of numbers that round to it, as numerators
over one denominator. -/
structure Span where
  low : Nat
  value : Nat
  high : Nat
  denominator : Nat
  closed : Bool

/-- The interval of a positive double. It includes its ends when the significand is even, and is
narrower below a power of two. -/
def span (x : Binary64) : Span :=
  let m := x.significand
  let low := if x.fractionField = 0 ∧ 1 < x.exponentField then 4 * m - 1 else 4 * m - 2
  let closed := m % 2 = 0
  match x.scale - 2 with
  | .ofNat n => ⟨low <<< n, (4 * m) <<< n, (4 * m + 2) <<< n, 1, closed⟩
  | .negSucc n => ⟨low, 4 * m, 4 * m + 2, 1 <<< (n + 1), closed⟩

/-- Whether `candidate * 10 ^ e` rounds to the double of the span. -/
def Span.holds (i : Span) (candidate : Nat) (e : Int) : Bool :=
  let (low, d) := onGrid i.low i.denominator e
  let (high, _) := onGrid i.high i.denominator e
  if i.closed then low ≤ candidate * d && candidate * d ≤ high
  else low < candidate * d && candidate * d < high

/-- The neighbour of the value among the multiples of `10 ^ e` that rounds to the same double. Of
two such neighbours the nearer one is taken, and the even one if they are equally near. -/
def Span.neighbour? (i : Span) (e : Int) : Option Nat :=
  let (v, d) := onGrid i.value i.denominator e
  let below := v / d
  let above := below + 1
  match i.holds below e && below ≠ 0, i.holds above e with
  | true, true => some (Binary64.roundQuotient v d)
  | true, false => some below
  | false, true => some above
  | false, false => none

/-- The first of the grids with `count, count + 1, …` digits that has a neighbour. -/
def Span.search (i : Span) (top : Int) (count : Nat) : Nat → Option (Nat × Int)
  | 0 => none
  | tries + 1 =>
    let e := top - count
    match i.neighbour? e with
    | some n => some (n, e)
    | none => i.search top (count + 1) tries

/-- Drops the zeros at the end of a positive number, moving each into the exponent. -/
def trim (n : Nat) (e : Int) : Nat × Int :=
  if h : n % 10 = 0 ∧ n ≠ 0 then trim (n / 10) (e + 1) else (n, e)
termination_by n
decreasing_by omega

/-- The shortest decimal that reads back as the magnitude of `x`. Seventeen digits are always
enough. -/
def shortest (x : Binary64) : Decimal :=
  if x.position = 0 then ⟨0, 1⟩
  else
    let i := span x
    let top := magnitude i.value i.denominator
    let (n, e) := (i.search top 1 17).getD (0, 0)
    let (n, e) := trim n e
    ⟨n, e + Binary64.decimalLength n⟩

/-- How a decimal is written: the values of `point` for which no exponent is used. -/
structure Layout where
  usesPoint : Int → Bool

/-- Digits with the point after the first `point` of them and at least one digit on each side. -/
def positional (d : Decimal) : String :=
  let digits := Nat.toDigits 10 d.digits
  match d.point with
  | .ofNat 0 => "0." ++ String.ofList digits
  | .negSucc n => "0." ++ String.ofList (List.replicate (n + 1) '0' ++ digits)
  | .ofNat n =>
    if digits.length ≤ n then
      String.ofList (digits ++ List.replicate (n - digits.length) '0') ++ ".0"
    else
      String.ofList (digits.take n) ++ "." ++ String.ofList (digits.drop n)

/-- One digit before the point, and the power of ten after the letter `e` with its sign. -/
def scientific (d : Decimal) : String :=
  let digits := Nat.toDigits 10 d.digits
  let exponent := d.point - 1
  let sign := if exponent < 0 then "-" else "+"
  let mantissa :=
    match digits with
    | [] => ""
    | [c] => String.ofList [c]
    | c :: rest => String.ofList (c :: '.' :: rest)
  mantissa ++ "e" ++ sign ++ toString exponent.natAbs

/-- The text of a double in a layout. Zero keeps its sign. -/
def Layout.render (l : Layout) (x : Binary64) : String :=
  let d := shortest x
  let body := if l.usesPoint d.point then positional d else scientific d
  if x.negative then "-" ++ body else body

end Decimal

end Classwright
