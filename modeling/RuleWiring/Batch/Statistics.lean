import RuleWiring.Batch.Basic
import RuleWiring.Bytes.Fingerprint

/-!
# Statistics of a batch

How many patterns were compiled, where their parameters came from, which mix modes they
have and which classes their rules belong to. Each tally lists what occurs in a fixed
order, which does not depend on the order of the results.
-/

namespace RuleWiring

/-- How often each of some values occurs in a list, without those that do not. -/
def tally {α : Type} [DecidableEq α] (order values : List α) : List (α × Nat) :=
  (order.map fun a => (a, values.count a)).filter (0 < ·.2)

/-- The mix modes in the order of their names. -/
def MixMode.byName : List MixMode :=
  [.majority, .none, .reverse, .rotateLeft, .rotateRight, .scramble, .swapHalves, .xorNeighbor]

structure BatchStatistics where
  total : Nat
  compiled : Nat
  failed : Nat
  byProvenance : List (Provenance × Nat)
  byMixMode : List (MixMode × Nat)
  byClass : List (DynamicalClass × Nat)
  analysisFailures : Nat
  /-- How many different parameter records there are, told apart by fingerprint. -/
  distinctRecords : Nat
deriving DecidableEq, Repr

namespace BatchResults

/-- The results that are diagrams. -/
def compiled (rs : BatchResults) : List Compiled := rs.filterMap (·.2.toOption)

/-- The analyses that were tried. -/
def analyses (rs : BatchResults) : List (Except EvalError Analysis) :=
  rs.compiled.filterMap (·.analysis)

def statistics (rs : BatchResults) : BatchStatistics :=
  let resolutions := rs.compiled.map (·.resolution)
  let reports := rs.analyses.filterMap (·.toOption)
  { total := rs.length
    compiled := rs.compiled.length
    failed := rs.countP fun r => !r.2.isOk
    byProvenance := tally Provenance.all (resolutions.map (·.provenance))
    byMixMode := tally MixMode.byName (resolutions.map (·.params.mixMode))
    byClass := tally DynamicalClass.all (reports.map (·.dynamicalClass))
    analysisFailures := rs.analyses.countP fun a => !a.isOk
    distinctRecords := (resolutions.map (·.params.fingerprint)).eraseDups.length }

end BatchResults

namespace BatchStatistics

/-! ## Structured values -/

/-- A tally as an object. -/
def tallyJson {α : Type} (name : α → String) (entries : List (α × Nat)) : Json :=
  .object (entries.map fun (a, n) => (name a, .nat n))

def toJson (s : BatchStatistics) : Json :=
  .object [
    ("total", .nat s.total),
    ("compiled", .nat s.compiled),
    ("failed", .nat s.failed),
    ("by_provenance", tallyJson Provenance.name s.byProvenance),
    ("by_mix_mode", tallyJson MixMode.name s.byMixMode),
    ("by_class", tallyJson DynamicalClass.name s.byClass),
    ("analysis_failures", .nat s.analysisFailures),
    ("distinct_parameter_records", .nat s.distinctRecords)]

/-! ## Text -/

/-- The width of the column of names. -/
def nameWidth : Nat := 15

/-- A name in its column, and a number behind it. -/
def row (name : String) (n : Nat) : String :=
  let column := String.ofList (name.toList ++ List.replicate (nameWidth - name.length) ' ')
  s!"  {column} {n}"

def rows {α : Type} (name : α → String) (entries : List (α × Nat)) : List String :=
  entries.map fun (a, n) => row (name a) n

/-- The lines about classes, if anything was analysed. -/
def classLines (s : BatchStatistics) : List String :=
  if s.byClass.isEmpty ∧ s.analysisFailures = 0 then []
  else
    "by class:" :: rows DynamicalClass.name s.byClass
      ++ [row "not analysable" s.analysisFailures]

def lines (s : BatchStatistics) : List String :=
  let total := s.total
  let compiled := s.compiled
  let failed := s.failed
  let distinct := s.distinctRecords
  [s!"patterns: {total} ({compiled} compiled, {failed} failed)",
      s!"distinct parameter records: {distinct}", "by provenance:"]
    ++ rows Provenance.name s.byProvenance
    ++ "by mix-mode:" :: rows MixMode.name s.byMixMode
    ++ s.classLines

/-- The lines, each with its end. -/
def text (s : BatchStatistics) : String := String.join (s.lines.map (· ++ "\n"))

end BatchStatistics

end RuleWiring
