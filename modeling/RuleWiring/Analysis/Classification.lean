import RuleWiring.Analysis.Properties

/-!
# Dynamical classes

A rule belongs to one of four classes: its dynamics are constant, periodic, chaotic or
complex. For well-studied rules the class is known; for the others it is estimated from
the rule's properties, with less confidence.
-/

namespace RuleWiring

inductive DynamicalClass where
  | constant
  | periodic
  | chaotic
  | complex
deriving DecidableEq, Repr

namespace DynamicalClass

def all : List DynamicalClass := [.constant, .periodic, .chaotic, .complex]

/-- The Roman numeral of the class. -/
def name : DynamicalClass → String
  | .constant => "I"
  | .periodic => "II"
  | .chaotic => "III"
  | .complex => "IV"

/-- The rules whose class is known. -/
def studied : DynamicalClass → List Nat
  | .constant => [0, 1, 2, 4, 8, 32, 128, 136, 160, 254, 255]
  | .periodic =>
      [3, 5, 6, 7, 9, 10, 11, 12, 13, 14, 15, 19, 23, 24, 25, 26, 27, 28, 29, 33, 34, 35, 36, 37,
       38, 42, 43, 44, 46, 50, 51, 56, 57, 58, 62, 72, 73, 74, 76, 77, 78, 94, 104, 108, 130, 132,
       134, 138, 140, 142, 152, 154, 156, 162, 164, 170, 172, 178, 184, 200, 204, 232]
  | .chaotic => [18, 22, 30, 45, 60, 75, 86, 90, 105, 122, 126, 146, 150, 182]
  | .complex => [41, 54, 106, 110]

/-- The class of a well-studied rule. -/
def known? (rule : UInt8) : Option DynamicalClass := all.find? fun c => rule.toNat ∈ c.studied

end DynamicalClass

/-- A class, how sure it is, and why. -/
structure Classification where
  dynamicalClass : DynamicalClass
  confidence : Binary64
  reasoning : String
deriving DecidableEq, Repr

namespace Classification

/-- A confidence in hundredths. -/
def hundredths (n : Nat) : Binary64 := Binary64.ofRatio false n 100

/-- The class of a rule that has been studied, or an estimate from its properties. -/
def classify (rule : UInt8) (linear surjective : Bool) (s : Sensitivity) : Classification :=
  let mean := s.mean.fixed 3
  match DynamicalClass.known? rule with
  | some c =>
      let number := rule.toNat
      let name := c.name
      ⟨c, hundredths 95, s!"Rule {number} is a known Wolfram Class {name} rule"⟩
  | none =>
      if !surjective then ⟨.constant, hundredths 90, "Constant output function -- Class I"⟩
      else if linear then
        if Binary64.half.lt s.mean then
          ⟨.chaotic, hundredths 70,
            s!"Linear/affine over GF(2) with high sensitivity ({mean}) -- chaotic Class III"⟩
        else
          ⟨.periodic, hundredths 60,
            s!"Linear/affine over GF(2) with moderate sensitivity ({mean}) -- periodic Class II"⟩
      else if Binary64.half.lt s.mean then
        ⟨.complex, hundredths 50,
          s!"Nonlinear with high mean sensitivity ({mean}) -- Class IV candidate (edge-of-chaos dynamics)"⟩
      else if (hundredths 25).lt s.mean then
        ⟨.periodic, hundredths 50,
          s!"Nonlinear with moderate sensitivity ({mean}) -- likely Class II"⟩
      else
        ⟨.constant, hundredths 60,
          s!"Nonlinear but low sensitivity ({mean}) -- likely Class I/II"⟩

end Classification

end RuleWiring
