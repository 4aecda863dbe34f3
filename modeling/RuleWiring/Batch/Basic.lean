import RuleWiring.Analysis.Analyzer
import RuleWiring.Compilation.Basic
import RuleWiring.Document.Codec
import RuleWiring.Files.Basic
import RuleWiring.Pattern.Library

/-!
# Batches

A batch compiles the patterns of a library, each on its own: its parameters are resolved,
the diagram is compiled, and an analyser, if there is one, reports on it. A pattern that
fails does not stop the others. The tables read for one pattern are kept for the next.
-/

namespace RuleWiring

/-- Why a pattern of a batch has no diagram. -/
inductive BatchError where
  | unknownPattern (id : String)
  | structural (id : String) (e : StructuralError)
deriving DecidableEq, Repr

def BatchError.message : BatchError → String
  | .unknownPattern id => s!"pattern `{id}` is not in the library"
  | .structural id e =>
      let reason := e.message
      s!"pattern `{id}`: {reason}"

structure Compiled where
  diagram : Diagram
  resolution : Resolution
  /-- What the analyser says, if there is one. -/
  analysis : Option (Except EvalError Analysis)

/-- What came of each pattern, by id. -/
abbrev BatchResults := List (String × Except BatchError Compiled)

/-- What a batch works with. -/
structure Batch where
  library : Library
  options : CompilerOptions := {}
  analyzer : Option Analyzer := none

/-- What changes during a batch. -/
structure BatchState where
  cache : TableCache := {}
  clock : Clock := .still

abbrev BatchM := StateM BatchState

namespace Batch

def resolve (p : Pattern) : BatchM (Resolution × Pattern) := fun s =>
  let (answer, cache) := (Resolution.resolve p).run s.cache
  (answer, { s with cache := cache })

def analyze (z : Analyzer) (d : Diagram) : BatchM (Except EvalError Analysis) := fun s =>
  let (answer, clock) := z.analyze d s.clock
  (answer, { s with clock := clock })

/-- The analysis of a diagram, if there is an analyser. -/
def report (b : Batch) (d : Diagram) : BatchM (Option (Except EvalError Analysis)) :=
  match b.analyzer with
  | none => pure none
  | some z => do
      let answer ← analyze z d
      pure (some answer)

/-- What comes of a pattern of the library. -/
def compilePattern (b : Batch) (p : Pattern) : BatchM (Except BatchError Compiled) := do
  let (r, q) ← resolve p
  match compile b.options q r with
  | .error e => pure (.error (.structural p.id e))
  | .ok d =>
      let analysis ← b.report d
      pure (.ok ⟨d, r, analysis⟩)

/-- What comes of an id. -/
def compileOne (b : Batch) (id : String) : BatchM (Except BatchError Compiled) :=
  match b.library.get? id with
  | none => pure (.error (.unknownPattern id))
  | some p => b.compilePattern p

/-- What comes of some ids, in their order. -/
def compileEach (b : Batch) : List String → BatchM BatchResults
  | [] => pure []
  | id :: rest => do
      let result ← b.compileOne id
      let results ← b.compileEach rest
      pure ((id, result) :: results)

/-- What comes of the whole library. -/
def compileAll (b : Batch) : BatchM BatchResults := b.compileEach b.library.ids

end Batch

/-! ## Files -/

/-- The characters of a file's name for an id: a slash becomes two underscores. -/
def flattened : List Char → List Char
  | [] => []
  | c :: rest => if c = '/' then '_' :: '_' :: flattened rest else c :: flattened rest

/-- The name of the file that holds the diagram of an id. -/
def outputFileName (id : String) : String := String.ofList (flattened id.toList) ++ ".json"

/-- A path in a directory; in the working directory it is the name itself. -/
def pathIn (directory name : String) : String :=
  if directory = "" then name
  else if directory.toList.getLast? = some '/' then directory ++ name
  else directory ++ "/" ++ name

namespace BatchResults

/-- The diagrams there are, with the names of their files. -/
def targets (rs : BatchResults) : List (String × Diagram) :=
  rs.filterMap fun (id, r) =>
    match r with
    | .ok c => some (outputFileName id, c.diagram)
    | .error _ => none

/-- Writes each diagram there is into a directory, and answers for each with its path or
with a fault. -/
def write {m : Type → Type} [Monad m] [FileAccess m] (rs : BatchResults) (directory : String) :
    m (List (Except FileFault String)) :=
  rs.targets.mapM fun (name, d) => do
    let path := pathIn directory name
    let written ← FileAccess.writeText path d.toText
    pure (written.map fun _ => path)

end BatchResults

end RuleWiring
