import RuleWiring.Number.Binary64

/-!
# Reading numerals

The numerals of text fields: whole numbers with an optional plus sign, and reals with
either sign, an optional point and an optional exponent, or one of the names of the
values that are no numeral. A real is the double nearest to what is written.
-/

namespace RuleWiring

namespace Numeral

def digitValue (c : Char) : Nat := c.toNat - '0'.toNat

/-- The number a list of digits spells, continuing `start`. -/
def ofDigits (start : Nat) (ds : List Char) : Nat :=
  ds.foldl (fun n c => 10 * n + digitValue c) start

/-- Cuts a list after its leading digits. -/
def spanDigits (cs : List Char) : List Char × List Char :=
  (cs.takeWhile Char.isDigit, cs.dropWhile Char.isDigit)

/-- A whole number below `bound`: at least one digit, after an optional plus sign. -/
def natBelow? (bound : Nat) (s : String) : Option Nat :=
  let cs := s.toList
  let ds := if cs.head? = some '+' then cs.tail else cs
  if ds.isEmpty || !ds.all Char.isDigit then none
  else
    let n := ofDigits 0 ds
    if n < bound then some n else none

/-- The double nearest to `± digits · 10^exponent`. Exponents that lie beyond every double
are cut first, so that no needless power of ten is computed. -/
def nearest (negative : Bool) (digits : Nat) (exponent : Int) : Binary64 :=
  let width : Int := (Nat.toDigits 10 digits).length
  if digits = 0 ∨ exponent + width < -400 then Binary64.ofWord negative 0
  else if 400 < exponent + width then Binary64.infinity negative
  else if 0 ≤ exponent then Binary64.ofRatio negative (digits * Nat.pow 10 exponent.toNat) 1
  else Binary64.ofRatio negative digits (Nat.pow 10 (-exponent).toNat)

/-- The exponent after an `e`: an optional sign and at least one digit, nothing after. -/
def exponent? (cs : List Char) : Option Int :=
  match cs with
  | [] => some 0
  | c :: rest =>
      if c = 'e' ∨ c = 'E' then
        let (negative, ds) := match rest with
          | '-' :: r => (true, r)
          | '+' :: r => (false, r)
          | r => (false, r)
        if ds.isEmpty || !ds.all Char.isDigit then none
        else
          let n : Int := ofDigits 0 ds
          some (if negative then -n else n)
      else none

/-- A numeral without its sign: digits on at least one side of an optional point. -/
def unsigned? (negative : Bool) (cs : List Char) : Option Binary64 :=
  let (whole, rest) := spanDigits cs
  let (places, rest) := match rest with
    | '.' :: r => spanDigits r
    | r => ([], r)
  if whole.isEmpty && places.isEmpty then none
  else
    (exponent? rest).map fun e =>
      nearest negative (ofDigits 0 (whole ++ places)) (e - places.length)

/-- A real numeral, or `inf`, `infinity` or `nan` in any case, after an optional sign. -/
def real? (s : String) : Option Binary64 :=
  let (negative, cs) := match s.toList with
    | '-' :: r => (true, r)
    | '+' :: r => (false, r)
    | r => (false, r)
  let name := String.ofList (cs.map Char.toLower)
  if name = "inf" ∨ name = "infinity" then some (Binary64.infinity negative)
  else if name = "nan" then some Binary64.nan
  else unsigned? negative cs

end Numeral

end RuleWiring
