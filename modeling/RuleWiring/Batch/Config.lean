import RuleWiring.Analysis.Codec
import RuleWiring.Batch.Basic

/-!
# Configurations

What a run works with: where the library and the tables are, how patterns are compiled and
how diagrams are analysed. A configuration is stored as a structured value in which every
field may be missing.
-/

namespace RuleWiring

namespace CompilerOptions

def toJson (o : CompilerOptions) : Json :=
  .object [("crossover_point", .nat o.crossoverPoint.toNat),
    ("secondary_bit", .nat o.secondaryBit.toNat)]

structure Met where
  crossoverPoint : Option UInt32 := none
  secondaryBit : Option UInt32 := none

def Met.options (m : Met) : CompilerOptions :=
  let d : CompilerOptions := {}
  { crossoverPoint := m.crossoverPoint.getD d.crossoverPoint
    secondaryBit := m.secondaryBit.getD d.secondaryBit }

def fields : List (Decoder.Field Met) := [
  Decoder.field "crossover_point" true (·.crossoverPoint)
    (fun m x => { m with crossoverPoint := some x }) Decoder.word32,
  Decoder.field "secondary_bit" true (·.secondaryBit)
    (fun m x => { m with secondaryBit := some x }) Decoder.word32]

def decoder : Decoder CompilerOptions := Decoder.record fields {} fun m => .ok m.options

end CompilerOptions

structure Config where
  /-- The path of the pattern library. -/
  library : Option String := none
  /-- The path of the parameter table. -/
  paramTable : Option String := none
  /-- The path of the bridge table. -/
  bridgeTable : Option String := none
  /-- The time in milliseconds that each proof has. -/
  verifyTimeoutMs : Nat := 5000
  evalMode : EvalMode := .lifted
  /-- Whether a batch analyses its diagrams. -/
  analyze : Bool := true
  compiler : CompilerOptions := {}
deriving DecidableEq, Repr

namespace Config

def analyzer (c : Config) : Analyzer := ⟨c.evalMode, .within c.verifyTimeoutMs⟩

/-- The batch of a library, with the analyser if diagrams are to be analysed. -/
def batch (c : Config) (l : Library) : Batch where
  library := l
  options := c.compiler
  analyzer := if c.analyze then some c.analyzer else none

/-! ## Structured values -/

def toJson (c : Config) : Json :=
  .object [
    ("library", Json.ofOption .text c.library),
    ("param_table", Json.ofOption .text c.paramTable),
    ("bridge_table", Json.ofOption .text c.bridgeTable),
    ("verify_timeout_ms", .nat c.verifyTimeoutMs),
    ("eval_mode", c.evalMode.toJson),
    ("analyze", .bool c.analyze),
    ("compiler", c.compiler.toJson)]

/-- The fields met so far; a path may be met as `null`. -/
structure Met where
  library : Option (Option String) := none
  paramTable : Option (Option String) := none
  bridgeTable : Option (Option String) := none
  verifyTimeoutMs : Option Nat := none
  evalMode : Option EvalMode := none
  analyze : Option Bool := none
  compiler : Option CompilerOptions := none

def Met.config (m : Met) : Config :=
  let d : Config := {}
  { library := m.library.join
    paramTable := m.paramTable.join
    bridgeTable := m.bridgeTable.join
    verifyTimeoutMs := m.verifyTimeoutMs.getD d.verifyTimeoutMs
    evalMode := m.evalMode.getD d.evalMode
    analyze := m.analyze.getD d.analyze
    compiler := m.compiler.getD d.compiler }

def fields : List (Decoder.Field Met) := [
  Decoder.field "library" true (·.library) (fun m x => { m with library := some x })
    (Decoder.optional Decoder.text),
  Decoder.field "param_table" true (·.paramTable) (fun m x => { m with paramTable := some x })
    (Decoder.optional Decoder.text),
  Decoder.field "bridge_table" true (·.bridgeTable)
    (fun m x => { m with bridgeTable := some x }) (Decoder.optional Decoder.text),
  Decoder.field "verify_timeout_ms" true (·.verifyTimeoutMs)
    (fun m x => { m with verifyTimeoutMs := some x }) Decoder.word64,
  Decoder.field "eval_mode" true (·.evalMode) (fun m x => { m with evalMode := some x })
    EvalMode.decoder,
  Decoder.field "analyze" true (·.analyze) (fun m x => { m with analyze := some x })
    Decoder.bool,
  Decoder.field "compiler" true (·.compiler) (fun m x => { m with compiler := some x })
    CompilerOptions.decoder]

def decoder : Decoder Config := Decoder.record fields {} fun m => .ok m.config

/-! ## Files -/

variable {m : Type → Type} [Monad m] [FileAccess m]

/-- Why a configuration cannot be had. -/
inductive LoadError where
  | file (path : String) (fault : FileFault)
  | text (fault : Fault)
deriving DecidableEq, Repr

def LoadError.message : LoadError → String
  | .file path fault =>
      let reason := fault.message
      s!"cannot read config `{path}`: {reason}"
  | .text fault =>
      let reason := fault.message
      s!"invalid config: {reason}"

def ofText (s : String) : Except LoadError Config :=
  match decoder.run s with
  | .ok c => .ok c
  | .error fault => .error (.text fault)

def load (path : String) : m (Except LoadError Config) := do
  match ← FileAccess.readText path with
  | .ok s => pure (ofText s)
  | .error fault => pure (.error (.file path fault))

/-- The source of a table at a path, if there is one. -/
def source : Option String → m TableSource
  | none => pure .empty
  | some path => do
      let contents ← FileAccess.readText path
      pure (.file contents.toOption)

/-- The tables at the paths, of which none has been read. -/
def tables (c : Config) : m TableCache := do
  let params ← source c.paramTable
  let bridge ← source c.bridgeTable
  pure (TableCache.ofSources params bridge)

end Config

end RuleWiring
