/-!
# Double-precision numbers

A real parameter is kept as the sixty-four bits of its binary64 form, and every
operation on it is exact integer arithmetic followed by one rounding:

* a finite number is `± magnitude / 2^1074`, where `magnitude` is a natural number,
  so comparing, adding and subtracting are integer operations;
* `ofMagnitude` rounds a quotient of natural numbers, in the same unit, to the
  nearest double, a tie going to the even significand, and overflows to infinity.

No operation here depends on the machine's floating point.
-/

namespace RuleWiring

/-- A double-precision number, held by its bits. -/
structure Binary64 where
  bits : UInt64
deriving DecidableEq, Inhabited, Repr

/-- The natural number nearest to `a / d`, a tie going to the even one. -/
def roundHalfEven (a d : Nat) : Nat :=
  let q := a / d
  let r := a % d
  if 2 * r < d then q
  else if d < 2 * r then q + 1
  else if q % 2 = 0 then q else q + 1

namespace Binary64

/-! ## The fields of the word -/

/-- The word without its sign bit. -/
def word (x : Binary64) : Nat := x.bits.toNat % Nat.pow 2 63

/-- The sign bit, also of zeros and of values that are not numbers. -/
def isNegative (x : Binary64) : Bool := Nat.pow 2 63 ≤ x.bits.toNat

/-- The biased exponent. -/
def exponentField (x : Binary64) : Nat := x.word / Nat.pow 2 52

/-- The stored fraction bits. -/
def fraction (x : Binary64) : Nat := x.word % Nat.pow 2 52

/-- The word of infinity, below which a word is finite and above which it is not a number. -/
def infiniteWord : Nat := 2047 * Nat.pow 2 52

def isFinite (x : Binary64) : Bool := x.word < infiniteWord

def isNaN (x : Binary64) : Bool := infiniteWord < x.word

/-- The integer significand, the hidden bit included. -/
def significand (x : Binary64) : Nat :=
  if x.exponentField = 0 then x.fraction else x.fraction + Nat.pow 2 52

/-- How many doublings of the smallest unit the significand counts. -/
def scale (x : Binary64) : Nat := x.exponentField - 1

/-- The absolute value in units of `2^-1074`. -/
def magnitude (x : Binary64) : Nat := x.significand * Nat.pow 2 x.scale

/-- The value in units of `2^-1074`. -/
def scaled (x : Binary64) : Int := if x.isNegative then -x.magnitude else x.magnitude

/-- Puts a sign before a word. -/
def ofWord (negative : Bool) (w : Nat) : Binary64 :=
  ⟨UInt64.ofNat (if negative then Nat.pow 2 63 + w else w)⟩

def zero : Binary64 := ofWord false 0

def one : Binary64 := ofWord false (1023 * Nat.pow 2 52)

def half : Binary64 := ofWord false (1022 * Nat.pow 2 52)

def infinity (negative : Bool) : Binary64 := ofWord negative infiniteWord

/-- The quiet value that is not a number. -/
def nan : Binary64 := ofWord false (infiniteWord + Nat.pow 2 51)

/-! ## Rounding -/

/-- The double nearest to `± a / d`, counted in units of `2^-1074`. A word is the
doublings times `2^52` plus the significand, and a significand that rounds up to `2^53`
carries into the doublings by the same sum. -/
def ofMagnitude (negative : Bool) (a d : Nat) : Binary64 :=
  let q := a / d
  let p := if q < Nat.pow 2 53 then 0 else q.log2 - 52
  let w := p * Nat.pow 2 52 + roundHalfEven a (d * Nat.pow 2 p)
  ofWord negative (min w infiniteWord)

/-- The double nearest to `± num / den`. -/
def ofRatio (negative : Bool) (num den : Nat) : Binary64 :=
  ofMagnitude negative (num * Nat.pow 2 1074) den

def ofNat (n : Nat) : Binary64 := ofRatio false n 1

/-! ## Arithmetic -/

def neg (x : Binary64) : Binary64 := ofWord (!x.isNegative) x.word

/-- The double nearest to a finite sum `z` of doubles; an exact zero takes the sign given. -/
def ofScaled (zeroNegative : Bool) (z : Int) : Binary64 :=
  if z = 0 then ofWord zeroNegative 0 else ofMagnitude (z < 0) z.natAbs 1

def add (x y : Binary64) : Binary64 :=
  if x.isNaN || y.isNaN then nan
  else if x.isFinite && y.isFinite then
    ofScaled (x.isNegative && y.isNegative) (x.scaled + y.scaled)
  else if x.isFinite then y
  else if y.isFinite then x
  else if x.isNegative = y.isNegative then x
  else nan

def sub (x y : Binary64) : Binary64 := x.add y.neg

def mul (x y : Binary64) : Binary64 :=
  let negative := x.isNegative != y.isNegative
  if x.isNaN || y.isNaN then nan
  else if x.isFinite && y.isFinite then
    ofMagnitude negative (x.magnitude * y.magnitude) (Nat.pow 2 1074)
  else if x.word = 0 || y.word = 0 then nan
  else infinity negative

def div (x y : Binary64) : Binary64 :=
  let negative := x.isNegative != y.isNegative
  if x.isNaN || y.isNaN then nan
  else if x.isFinite && y.isFinite then
    if y.word = 0 then if x.word = 0 then nan else infinity negative
    else ofMagnitude negative (x.magnitude * Nat.pow 2 1074) y.magnitude
  else if x.isFinite then ofWord negative 0
  else if y.isFinite then infinity negative
  else nan

/-- The nearest whole number, a half going away from zero. -/
def roundHalfAway (x : Binary64) : Binary64 :=
  if x.isFinite then
    let unit := Nat.pow 2 1074
    ofMagnitude x.isNegative ((2 * x.magnitude + unit) / (2 * unit) * unit) 1
  else x

/-! ## Order -/

/-- A key by which numbers other than `nan` are ordered; both zeros have one key. -/
def key (x : Binary64) : Int := if x.isNegative then -x.word else x.word

def lt (x y : Binary64) : Bool := !x.isNaN && !y.isNaN && x.key < y.key

def le (x y : Binary64) : Bool := !x.isNaN && !y.isNaN && x.key ≤ y.key

/-- Equality of values: the zeros are equal and `nan` equals nothing. -/
def eqv (x y : Binary64) : Bool := !x.isNaN && !y.isNaN && x.key = y.key

/-- The nearest value in `[0, 1]`, and zero for what is not a number. -/
def clampUnit (x : Binary64) : Binary64 :=
  if x.isNaN then zero
  else if x.lt zero then zero
  else if one.lt x then one
  else x

end Binary64

end RuleWiring
