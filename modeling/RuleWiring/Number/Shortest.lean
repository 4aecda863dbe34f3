import RuleWiring.Number.Binary64

/-!
# The fewest digits that read back

`Binary64.shortest` gives the decimal with the fewest digits among those that round to a
double, and of those the one nearest to it. A decimal rounds to the double when it lies
between the midpoints to the two neighbouring doubles, the midpoints themselves belonging
to the double with the even significand. Where the double lies halfway between two such
decimals, as `1125899906842624.25` does, a `Tie` says which of them it is.

If any point of a decimal grid lies in that interval, one of the two grid points around
the double does, so the search looks at those two only, on finer and finer grids.
Seventeen digits always suffice.
-/

namespace RuleWiring

/-- The number `digits · 10^exponent`. -/
structure Decimal where
  digits : Nat
  exponent : Int
deriving DecidableEq, Repr

namespace Decimal

/-- Moves the zeros at the end of the digits into the exponent, as far as the fuel goes. -/
def dropZeros : Nat → Decimal → Decimal
  | 0, d => d
  | fuel + 1, d =>
      if d.digits ≠ 0 ∧ d.digits % 10 = 0 then dropZeros fuel ⟨d.digits / 10, d.exponent + 1⟩
      else d

end Decimal

/-- Which neighbour a number halfway between two others goes to. -/
inductive Tie where
  | even
  | up
deriving DecidableEq, Repr

/-- The natural number nearest to `a / d`. -/
def Tie.round : Tie → Nat → Nat → Nat
  | .even, a, d => roundHalfEven a d
  | .up, a, d => (2 * a + d) / (2 * d)

namespace Binary64

/-- The interval of numbers that round to a double, as `low / unit` to `high / unit`
around `value / unit`; `closed` says whether its ends belong to it. -/
structure Neighbourhood where
  low : Nat
  value : Nat
  high : Nat
  unit : Nat
  closed : Bool

/-- Below the first significand of a binade the neighbour is half as far away. -/
def neighbourhood (x : Binary64) : Neighbourhood :=
  let s := Nat.pow 2 x.scale
  let m := x.significand
  { low := (if m = Nat.pow 2 52 ∧ 0 < x.scale then 4 * m - 1 else 4 * m - 2) * s
    value := 4 * m * s
    high := (4 * m + 2) * s
    unit := 4 * Nat.pow 2 1074
    closed := m % 2 = 0 }

/-- Whether `num / den` lies in the interval. -/
def Neighbourhood.contains (n : Neighbourhood) (num den : Nat) : Bool :=
  let a := num * n.unit
  if n.closed then n.low * den ≤ a ∧ a ≤ n.high * den
  else n.low * den < a ∧ a < n.high * den

/-- The number of decimal digits of the whole part, or minus the number of zeros right
after the point: the power of ten just above `num / den`. -/
def decimalMagnitude (num den : Nat) : Int :=
  if den ≤ num then (Nat.toDigits 10 (num / den)).length
  else
    let inverse := den / num
    let zeros := (Nat.toDigits 10 inverse).length
    if den ≤ num * Nat.pow 10 (zeros - 1) then -(zeros - 1 : Nat) + 1 else -(zeros : Nat) + 1

/-- The better of the two points around the value on the grid of multiples of
`10^exponent`, if one of them lies in the interval. -/
def Neighbourhood.onGrid (n : Neighbourhood) (tie : Tie) (exponent : Int) : Option Decimal :=
  let up := Nat.pow 10 exponent.toNat
  let down := Nat.pow 10 (-exponent).toNat
  let num := n.value * down
  let den := n.unit * up
  let below := num / den
  let lower := n.contains (below * up) down
  let upper := n.contains ((below + 1) * up) down
  let nearer := tie.round num den
  if lower && upper then some ⟨nearer, exponent⟩
  else if lower then some ⟨below, exponent⟩
  else if upper then some ⟨below + 1, exponent⟩
  else none

/-- Tries finer and finer grids, as far as the fuel goes. -/
def Neighbourhood.search (n : Neighbourhood) (tie : Tie) : Nat → Int → Decimal
  | 0, exponent => ⟨0, exponent⟩
  | fuel + 1, exponent =>
      match n.onGrid tie exponent with
      | some d => d
      | none => n.search tie fuel (exponent - 1)

/-- The shortest decimal that rounds to the absolute value of a finite double. -/
def shortest (tie : Tie) (x : Binary64) : Decimal :=
  if x.word = 0 then ⟨0, 0⟩
  else
    let n := x.neighbourhood
    let d := n.search tie 18 (decimalMagnitude n.value n.unit - 1)
    d.dropZeros 20

end Binary64

end RuleWiring
