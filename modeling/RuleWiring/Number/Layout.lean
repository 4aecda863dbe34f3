import RuleWiring.Number.Shortest

/-!
# The texts of a number

Three layouts are in use. `Binary64.fixed` writes a given number of places, rounding the
exact binary value. The other two write the shortest decimal that reads back:
`Binary64.positional` never uses an exponent, and `Binary64.scientific` turns to one
outside `10^-5 ≤ |x| < 10^16` and always shows a point or an exponent.
-/

namespace RuleWiring

namespace Nat10

/-- The decimal digits of a natural number. -/
def digits (n : Nat) : List Char := Nat.toDigits 10 n

/-- Zeros in front, up to a width. -/
def padded (width n : Nat) : List Char :=
  let ds := digits n
  List.replicate (width - ds.length) '0' ++ ds

end Nat10

namespace Decimal

/-- Digits with a point, which is left out when no place follows it. -/
def positional (d : Decimal) : List Char :=
  if 0 ≤ d.exponent then
    if d.digits = 0 then ['0'] else Nat10.digits d.digits ++ List.replicate d.exponent.toNat '0'
  else
    let places := (-d.exponent).toNat
    let ds := Nat10.padded (places + 1) d.digits
    ds.take (ds.length - places) ++ '.' :: ds.drop (ds.length - places)

/-- The exponent of the first digit. -/
def leadingExponent (d : Decimal) : Int := d.exponent + (Nat10.digits d.digits).length - 1

/-- One digit, the rest after a point, and a signed exponent. -/
def withExponent (d : Decimal) : List Char :=
  let e := d.leadingExponent
  let tail := (if e < 0 then '-' else '+') :: Nat10.digits e.natAbs
  match Nat10.digits d.digits with
  | [] => []
  | [c] => c :: 'e' :: tail
  | c :: cs => c :: '.' :: cs ++ 'e' :: tail

/-- Positional from `10^-5` up to `10^16`, with a point in any case; an exponent elsewhere. -/
def scientific (d : Decimal) : List Char :=
  if d.digits = 0 then ['0', '.', '0']
  else
    let e := d.leadingExponent
    if -5 ≤ e ∧ e < 16 then
      if 0 ≤ d.exponent then d.positional ++ ['.', '0'] else d.positional
    else d.withExponent

end Decimal

namespace Binary64

/-- A sign in front of what is written for the absolute value of a finite number, and
names for the other values. -/
def written (x : Binary64) (absolute : List Char) : String :=
  if x.isNaN then "NaN"
  else
    let body := if x.isFinite then absolute else ['i', 'n', 'f']
    String.ofList (if x.isNegative then '-' :: body else body)

/-- Shortest digits without an exponent, a tie going up. -/
def positional (x : Binary64) : String := x.written (x.shortest .up).positional

/-- Shortest digits, with an exponent for very small and very large values; a tie goes to
the even digit. -/
def scientific (x : Binary64) : String := x.written (x.shortest .even).scientific

/-- A fixed number of places, a tie of the exact value going to the even digit. -/
def fixed (places : Nat) (x : Binary64) : String :=
  let n := roundHalfEven (x.magnitude * Nat.pow 10 places) (Nat.pow 2 1074)
  x.written (Decimal.positional ⟨n, -(places : Int)⟩)

end Binary64

end RuleWiring
