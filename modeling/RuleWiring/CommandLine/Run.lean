import RuleWiring.Analysis.Synthesis
import RuleWiring.Batch.Config
import RuleWiring.Batch.Statistics
import RuleWiring.CommandLine.Arguments

/-!
# Running a command

A run reads the files its command needs, does the work, and answers with a text to print or
with the reason why there is none. Files are reached through `FileAccess`, so that a run
can be carried out on a `FileTree` as well as on a disk.
-/

namespace RuleWiring

/-- Why a run fails. -/
inductive RunError where
  | config (e : Config.LoadError)
  | noLibrary
  /-- A file that is needed cannot be had. -/
  | loading (path : String)
  | creating (path : String)
  | writing (fault : FileFault)
  | structural (e : StructuralError)
  | batch (e : BatchError)
  | evaluation (e : EvalError)
deriving DecidableEq, Repr

def RunError.message : RunError → String
  | .config e => e.message
  | .noLibrary => "no pattern library configured (use --library or the `library` config key)"
  | .loading path => s!"loading {path}"
  | .creating path => s!"creating {path}"
  | .writing fault =>
      let reason := fault.message
      s!"I/O error: {reason}"
  | .structural e => e.message
  | .batch e => e.message
  | .evaluation e => e.message

/-- What a program ends with. -/
inductive Outcome where
  | done (output : String)
  | failed (error : RunError)
  /-- The command line makes no sense. -/
  | misused
deriving DecidableEq, Repr

namespace Outcome

/-- The exit code. -/
def code : Outcome → UInt32
  | .done _ => 0
  | .failed _ => 1
  | .misused => 2

/-- What is printed. -/
def output : Outcome → String
  | .done text => text
  | .failed _ | .misused => ""

end Outcome

namespace CommandLine

variable {m : Type → Type} [Monad m] [FileAccess m]

/-- Lifts an answer, with the error it stands for. -/
def orFail {α ε : Type} (error : ε → RunError) (answer : Except ε α) : ExceptT RunError m α :=
  ExceptT.mk (pure (answer.mapError error))

/-- The configuration of an invocation: the paths it gives replace those of the file. -/
def configure (i : Invocation) : ExceptT RunError m Config := do
  let c ←
    match i.config with
    | none => pure {}
    | some path => orFail .config (← (Config.load path : m _))
  pure { c with
    library := i.library.or c.library
    paramTable := i.params.or c.paramTable
    bridgeTable := i.bridge.or c.bridgeTable }

def readFile (path : String) : ExceptT RunError m String := do
  orFail (fun _ => .loading path) (← (FileAccess.readText path : m _))

def writeFile (path text : String) : ExceptT RunError m Unit := do
  orFail .writing (← (FileAccess.writeText path text : m _))

/-- The library of a configuration. -/
def loadLibrary (c : Config) : ExceptT RunError m Library :=
  match c.library with
  | none => throw .noLibrary
  | some path => do
      let text ← readFile path
      orFail (fun _ => .loading path) (Library.parse text)

/-- The state in which a batch starts. -/
def batchState (c : Config) (clock : Clock) : ExceptT RunError m BatchState := do
  let tables ← (c.tables : m _)
  pure ⟨tables, clock⟩

/-- A text on a line of its own. -/
def line (text : String) : String := text ++ "\n"

/-- The report on a diagram. -/
def describe (c : Config) (d : Diagram) (clock : Clock) : ExceptT RunError m String := do
  let a ← orFail .evaluation (c.analyzer.analyze d clock).1
  pure (line a.toJson.toPretty)

/-- Writes a diagram to a path, or shows it where there is none. -/
def deliver (d : Diagram) : Option String → ExceptT RunError m String
  | none => pure (line d.toText)
  | some path => do
      writeFile path d.toText
      pure ""

def runCompile (c : Config) (clock : Clock) (id : String) (out : Option String) :
    ExceptT RunError m String := do
  let library ← loadLibrary c
  let start ← batchState c clock
  let compiled ← orFail .batch (((c.batch library).compileOne id).run start).1
  deliver compiled.diagram out

def runCompileAll (c : Config) (clock : Clock) (directory : String) :
    ExceptT RunError m String := do
  let library ← loadLibrary c
  let start ← batchState c clock
  orFail (fun _ => .creating directory) (← (FileAccess.makeDirectory directory : m _))
  let results := ((c.batch library).compileAll.run start).1
  let _ ← (results.write directory : m _)
  pure results.statistics.text

def runStats (c : Config) (clock : Clock) (json : Bool) : ExceptT RunError m String := do
  let library ← loadLibrary c
  let start ← batchState c clock
  let results := ((c.batch library).compileAll.run start).1
  let s := results.statistics
  pure (if json then line s.toJson.toPretty else s.text)

def runAnalyze (c : Config) (clock : Clock) (file : String) (strict : Bool) :
    ExceptT RunError m String := do
  let text ← readFile file
  let d ← orFail (fun _ => .loading file) (Diagram.ofText text)
  describe (if strict then { c with evalMode := .strict } else c) d clock

def runRule (c : Config) (clock : Clock) (number : UInt8) (out : Option String) :
    ExceptT RunError m String := do
  let d ← orFail .structural (synthesize number)
  match out with
  | none => pure ()
  | some path => writeFile path d.toText
  describe c d clock

/-- The text that a command prints. -/
def runCommand (c : Config) (clock : Clock) : Command → ExceptT RunError m String
  | .compile id out => runCompile c clock id out
  | .compileAll directory => runCompileAll c clock directory
  | .stats json => runStats c clock json
  | .analyze file strict => runAnalyze c clock file strict
  | .rule number out => runRule c clock number out

/-- The text that an invocation prints. -/
def runInvocation (i : Invocation) (clock : Clock) : ExceptT RunError m String := do
  let c ← configure i
  runCommand c clock i.command

/-! ## The program -/

def programName : String := "sigilwire"

def versionText : String := line s!"{programName} 0.1.0"

def usageText : String :=
  String.join ([
    s!"Usage: {programName} [OPTIONS] <COMMAND>",
    "",
    "Commands:",
    "  compile <ID> [--out FILE]       compile one pattern to a wiring diagram",
    "  compile-all --out-dir DIR       compile the whole library",
    "  stats [--json]                  summarise the library",
    "  analyze <FILE> [--strict]       analyse a wiring diagram",
    "  rule <NUMBER> [--out FILE]      build and analyse the diagram of a rule",
    "",
    "Options:",
    "  -c, --config FILE    configuration",
    "      --library FILE   pattern library",
    "      --params FILE    parameter table",
    "      --bridge FILE    bridge table",
    "  -v, --verbose        say more",
    "  -h, --help           show this text",
    "  -V, --version        show the version"].map line)

/-- What comes of a command line. -/
def run (words : List String) (clock : Clock) : m Outcome := do
  match Invocation.ofWords words with
  | .error .help => pure (.done usageText)
  | .error .version => pure (.done versionText)
  | .error .usage => pure .misused
  | .ok i =>
      match ← (runInvocation i clock).run with
      | .ok text => pure (.done text)
      | .error e => pure (.failed e)

end CommandLine

end RuleWiring
