import RuleWiring.Analysis.Analyzer
import RuleWiring.Json.Basic
import RuleWiring.Json.Decoder

/-!
# Analyses as structured values

A report shows its fields in order; the formula is left out where there is none. A truth
table is the list of its entries as zeros and ones.
-/

namespace RuleWiring

def TruthTable.toJson (t : TruthTable) : Json := .list (t.entries.map fun b => .nat b.toNat)

def TruthTable.decoder : Decoder TruthTable :=
  Decoder.checked (Decoder.list Decoder.byte) fun bs => (ofEntries (bs.map UInt8.toNat)).toOption

def DynamicalClass.toJson (c : DynamicalClass) : Json := .text c.name

def DynamicalClass.decoder : Decoder DynamicalClass := Decoder.choice all name

def Verification.toJson (v : Verification) : Json := .text v.name

def Verification.decoder : Decoder Verification := Decoder.choice all name

def EvalMode.toJson (m : EvalMode) : Json := .text m.name

def EvalMode.decoder : Decoder EvalMode := Decoder.choice all name

/-! ## Sensitivity -/

namespace Sensitivity

def toJson (s : Sensitivity) : Json :=
  .object [
    ("mean", .real s.mean),
    ("min", .real s.min),
    ("max", .real s.max),
    ("per_input", .list (s.perInput.map .real))]

structure Met where
  mean : Option Binary64 := none
  min : Option Binary64 := none
  max : Option Binary64 := none
  perInput : Option (List Binary64) := none

def Met.sensitivity (m : Met) : Except Fault Sensitivity :=
  match m.mean, m.min, m.max, m.perInput with
  | some mean, some min, some max, some perInput => .ok ⟨mean, min, max, perInput⟩
  | _, _, _, _ => .error .mismatched

def fields : List (Decoder.Field Met) := [
  Decoder.field "mean" false (·.mean) (fun m x => { m with mean := some x }) Decoder.real,
  Decoder.field "min" false (·.min) (fun m x => { m with min := some x }) Decoder.real,
  Decoder.field "max" false (·.max) (fun m x => { m with max := some x }) Decoder.real,
  Decoder.field "per_input" false (·.perInput) (fun m x => { m with perInput := some x })
    (Decoder.listOf Decoder.real 8)]

def decoder : Decoder Sensitivity := Decoder.record fields {} Met.sensitivity

end Sensitivity

/-! ## Reports -/

namespace Analysis

def toJson (a : Analysis) : Json :=
  .object ([("wiring_id", .text a.id), ("wolfram_rule", .nat a.rule.toNat),
      ("truth_table", a.table.toJson)]
    ++ Json.optional "formula" .text a.formula
    ++ [
      ("is_linear", .bool a.linear),
      ("linearity_detail", .text a.linearityDetail),
      ("surjective", .bool a.surjective),
      ("surjectivity_detail", .text a.surjectivityDetail),
      ("sensitivity", a.sensitivity.toJson),
      ("sensitivity_detail", .text a.sensitivityDetail),
      ("structural_class", a.dynamicalClass.toJson),
      ("class_confidence", .real a.confidence),
      ("class_reasoning", .text a.reasoning),
      ("verification", a.verification.toJson),
      ("analysis_time_ms", .real a.timeMs)])

structure Met where
  id : Option String := none
  rule : Option UInt8 := none
  table : Option TruthTable := none
  formula : Option (Option String) := none
  linear : Option Bool := none
  linearityDetail : Option String := none
  surjective : Option Bool := none
  surjectivityDetail : Option String := none
  sensitivity : Option Sensitivity := none
  sensitivityDetail : Option String := none
  dynamicalClass : Option DynamicalClass := none
  confidence : Option Binary64 := none
  reasoning : Option String := none
  verification : Option Verification := none
  timeMs : Option Binary64 := none

def Met.report? (m : Met) : Option Analysis := do
  pure {
    id := ← m.id
    rule := ← m.rule
    table := ← m.table
    formula := m.formula.join
    linear := ← m.linear
    linearityDetail := ← m.linearityDetail
    surjective := ← m.surjective
    surjectivityDetail := ← m.surjectivityDetail
    sensitivity := ← m.sensitivity
    sensitivityDetail := ← m.sensitivityDetail
    dynamicalClass := ← m.dynamicalClass
    confidence := ← m.confidence
    reasoning := ← m.reasoning
    verification := ← m.verification
    timeMs := ← m.timeMs }

def fields : List (Decoder.Field Met) := [
  Decoder.field "wiring_id" false (·.id) (fun m x => { m with id := some x }) Decoder.text,
  Decoder.field "wolfram_rule" false (·.rule) (fun m x => { m with rule := some x }) Decoder.byte,
  Decoder.field "truth_table" false (·.table) (fun m x => { m with table := some x })
    TruthTable.decoder,
  Decoder.field "formula" true (·.formula) (fun m x => { m with formula := some x })
    (Decoder.optional Decoder.text),
  Decoder.field "is_linear" false (·.linear) (fun m x => { m with linear := some x })
    Decoder.bool,
  Decoder.field "linearity_detail" false (·.linearityDetail)
    (fun m x => { m with linearityDetail := some x }) Decoder.text,
  Decoder.field "surjective" false (·.surjective) (fun m x => { m with surjective := some x })
    Decoder.bool,
  Decoder.field "surjectivity_detail" false (·.surjectivityDetail)
    (fun m x => { m with surjectivityDetail := some x }) Decoder.text,
  Decoder.field "sensitivity" false (·.sensitivity) (fun m x => { m with sensitivity := some x })
    Sensitivity.decoder,
  Decoder.field "sensitivity_detail" false (·.sensitivityDetail)
    (fun m x => { m with sensitivityDetail := some x }) Decoder.text,
  Decoder.field "structural_class" false (·.dynamicalClass)
    (fun m x => { m with dynamicalClass := some x }) DynamicalClass.decoder,
  Decoder.field "class_confidence" false (·.confidence)
    (fun m x => { m with confidence := some x }) Decoder.real,
  Decoder.field "class_reasoning" false (·.reasoning) (fun m x => { m with reasoning := some x })
    Decoder.text,
  Decoder.field "verification" false (·.verification)
    (fun m x => { m with verification := some x }) Verification.decoder,
  Decoder.field "analysis_time_ms" false (·.timeMs) (fun m x => { m with timeMs := some x })
    Decoder.real]

def decoder : Decoder Analysis :=
  Decoder.record fields {} fun m => Decoder.required m.report?

end Analysis

end RuleWiring
