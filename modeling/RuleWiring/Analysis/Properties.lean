import RuleWiring.Analysis.TruthTable

/-!
# Properties of a rule

Three properties are read off a truth table: whether the rule is linear over the field of
two elements, whether both outputs occur, and how often flipping one input flips the
output.
-/

namespace RuleWiring

/-! ## Linearity -/

/-- Whether a rule is linear, and how that was seen. -/
structure Linearity where
  linear : Bool
  detail : String
deriving DecidableEq, Repr

namespace Linearity

def bitText (b : Bool) : String := if b then "1" else "0"

/-- Three bits of a neighbourhood. -/
def bitsText (n : Nat) : String :=
  String.join ([2, 1, 0].map fun i => bitText (n.testBit i))

/-- Whether the rule respects the sum of two neighbourhoods. -/
def respects (t : TruthTable) (p : Nat × Nat) : Bool :=
  t.output (p.1 ^^^ p.2) = (t.output p.1 ^^ t.output p.2)

/-- All pairs of neighbourhoods, in order. -/
def pairs : List (Nat × Nat) := (List.range 8).flatMap fun a => (List.range 8).map fun b => (a, b)

/-- What is said about the first pair whose sum is not respected. -/
def counterexample (t : TruthTable) (a b : Nat) : String :=
  let ta := bitsText a
  let tb := bitsText b
  let ts := bitsText (a ^^^ b)
  let fs := bitText (t.output (a ^^^ b))
  let fa := bitText (t.output a)
  let fb := bitText (t.output b)
  let fx := bitText (t.output a ^^ t.output b)
  s!"f({ta} XOR {tb}) = f({ts}) = {fs}, but f({ta}) XOR f({tb}) = {fa} XOR {fb} = {fx} -- nonlinear"

def check (t : TruthTable) : Linearity :=
  match pairs.find? fun p => !respects t p with
  | some (a, b) => ⟨false, counterexample t a b⟩
  | none =>
      ⟨true, "All f(a XOR b) = f(a) XOR f(b) checks passed -- linear/affine over GF(2)"⟩

end Linearity

/-! ## Surjectivity -/

/-- Whether both outputs occur, and how often. -/
structure Surjectivity where
  surjective : Bool
  detail : String
deriving DecidableEq, Repr

def Surjectivity.check (t : TruthTable) : Surjectivity :=
  let ones := t.ones
  if ones = 0 then ⟨false, "Output is constant 0 -- not surjective"⟩
  else if ones = 8 then ⟨false, "Output is constant 1 -- not surjective"⟩
  else
    let zeros := 8 - ones
    ⟨true, s!"Output has {ones} ones and {zeros} zeros -- surjective"⟩

/-! ## Sensitivity -/

/-- The share of the inputs whose flip changes the output, for each neighbourhood by its
index, and over all of them. -/
structure Sensitivity where
  mean : Binary64
  min : Binary64
  max : Binary64
  perInput : List Binary64
deriving DecidableEq, Repr

namespace Sensitivity

/-- Six decimal places. -/
def round6 (x : Binary64) : Binary64 :=
  let million := Binary64.ofNat 1000000
  (x.mul million).roundHalfAway.div million

/-- How many of the three inputs matter at a neighbourhood. -/
def flips (t : TruthTable) (n : Nat) : Nat :=
  [4, 2, 1].countP fun mask => t.output (n ^^^ mask) ≠ t.output n

/-- The smaller of two numbers. -/
def least (x y : Binary64) : Binary64 := if y.lt x then y else x

/-- The larger of two numbers. -/
def greatest (x y : Binary64) : Binary64 := if x.lt y then y else x

def compute (t : TruthTable) : Sensitivity :=
  let shares := (List.range 8).map fun n => round6 (Binary64.ofRatio false (flips t n) 3)
  let sum := shares.foldl Binary64.add Binary64.zero
  { mean := round6 (sum.div (Binary64.ofNat 8))
    min := shares.foldl least (Binary64.infinity false)
    max := shares.foldl greatest (Binary64.infinity true)
    perInput := shares }

/-- The mean in words. -/
def detail (s : Sensitivity) : String :=
  let mean := s.mean.fixed 3
  let percent := (s.mean.mul (Binary64.ofNat 100)).fixed 0
  s!"Mean sensitivity {mean} -- each input flip changes output {percent}% of the time"

end Sensitivity

end RuleWiring
