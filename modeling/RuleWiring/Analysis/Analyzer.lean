import RuleWiring.Analysis.Classification
import RuleWiring.Prover.Circuit

/-!
# Analysis of a diagram

An analysis evaluates a diagram at all neighbourhoods, describes the rule it finds, and has
a prover confirm on the diagram's circuit that the rule is right. Where the circuit cannot
be had, or the prover does not come to an end, the rule stands unconfirmed.
-/

namespace RuleWiring

/-- All that is reported about a diagram. -/
structure Analysis where
  id : String
  rule : UInt8
  table : TruthTable
  formula : Option String
  linear : Bool
  linearityDetail : String
  surjective : Bool
  surjectivityDetail : String
  sensitivity : Sensitivity
  sensitivityDetail : String
  dynamicalClass : DynamicalClass
  confidence : Binary64
  reasoning : String
  verification : Verification
  timeMs : Binary64
deriving DecidableEq, Repr

def Analysis.isVerified (a : Analysis) : Bool := a.verification = .verified

/-- What the prover says about a circuit: the outcome for the table, a warning if it
contradicts what the table says about linearity, and the formula. -/
structure Confirmation where
  verification : Verification
  warning : String
  formula : Option String

/-- How diagrams are analysed. -/
structure Analyzer where
  mode : EvalMode := .strict
  prover : Prover := .within Prover.defaultTimeoutMs
deriving DecidableEq, Repr

namespace Analyzer

/-- The warning about an outcome of the linearity proof that contradicts the table. -/
def linearityWarning (linear : Bool) : Verification → String
  | .unknown => ""
  | .verified => if linear then "" else " [WARNING: symbolic check disagrees: linear=true]"
  | .refuted => if linear then " [WARNING: symbolic check disagrees: linear=false]" else ""

/-- Has the prover look at the circuit of a diagram. -/
def confirm (z : Analyzer) (d : Diagram) (t : TruthTable) (linear : Bool) (c : Clock) :
    Confirmation × Clock :=
  match SymbolicCircuit.ofDiagram d z.mode with
  | .error _ => (⟨.unknown, "", none⟩, c)
  | .ok k =>
      let (verification, c) := z.prover.equivalent k t c
      let (symbolic, c) := z.prover.linear k c
      (⟨verification, linearityWarning linear symbolic, some k.formula⟩, c)

/-- Nanoseconds as milliseconds with one decimal place. -/
def milliseconds (ns : Nat) : Binary64 :=
  let ten := Binary64.ofNat 10
  ((Binary64.ofRatio false ns 1000000).mul ten).roundHalfAway.div ten

/-- The report on a diagram whose rule is known. -/
def report (d : Diagram) (t : TruthTable) (confirmed : Confirmation) (elapsed : Nat) : Analysis :=
  let linearity := Linearity.check t
  let surjectivity := Surjectivity.check t
  let sensitivity := Sensitivity.compute t
  let c := Classification.classify t.rule linearity.linear surjectivity.surjective sensitivity
  { id := d.metadata.id
    rule := t.rule
    table := t
    formula := d.metadata.formula.or confirmed.formula
    linear := linearity.linear
    linearityDetail := linearity.detail ++ confirmed.warning
    surjective := surjectivity.surjective
    surjectivityDetail := surjectivity.detail
    sensitivity := sensitivity
    sensitivityDetail := sensitivity.detail
    dynamicalClass := c.dynamicalClass
    confidence := c.confidence
    reasoning := c.reasoning
    verification := confirmed.verification
    timeMs := milliseconds elapsed }

def analyze (z : Analyzer) (d : Diagram) (c : Clock) : Except EvalError Analysis × Clock :=
  let (start, c) := c.read
  match checkSupported d z.mode with
  | .error e => (.error e, c)
  | .ok _ =>
      match TruthTable.ofDiagram d z.mode with
      | .error e => (.error e, c)
      | .ok t =>
          let (confirmed, c) := z.confirm d t (Linearity.check t).linear c
          let (stop, c) := c.read
          (.ok (report d t confirmed (stop - start)), c)

end Analyzer

end RuleWiring
