import RuleWiring.CommandLine.Run

/-!
# The program

Runs a command line on the disk. Texts go to standard output and complaints to standard
error. Searches are small enough to need no clock.
-/

namespace RuleWiring

/-- The fault that an error of the system stands for. The number of an error comes with
either sign. -/
def FileFault.ofError : IO.Error → FileFault
  | .noFileOrDirectory .. => .missing
  | .alreadyExists .. => .exists
  | .inappropriateType _ code _ => if code = 20 ∨ code = -20 then .notDirectory else .directory
  | .invalidArgument _ code _ => if code = 36 ∨ code = -36 then .nameTooLong else .zeroInName
  | e => .other e.toString

/-- The text of some bytes. -/
def textOfBytes (bytes : ByteArray) : Except FileFault String :=
  match String.fromUTF8? bytes with
  | some s => .ok s
  | none => .error .unreadable

instance : FileAccess IO where
  readText path := do
    match ← (IO.FS.readBinFile path).toBaseIO with
    | .ok bytes => pure (textOfBytes bytes)
    | .error e => pure (.error (FileFault.ofError e))
  writeText path text := do
    match ← (IO.FS.writeFile path text).toBaseIO with
    | .ok () => pure (.ok ())
    | .error e => pure (.error (FileFault.ofError e))
  makeDirectory path := do
    match ← (IO.FS.createDirAll path).toBaseIO with
    | .ok () => pure (.ok ())
    | .error e => pure (.error (FileFault.ofError e))

/-- What is said about an outcome besides its output. -/
def Outcome.complaint : Outcome → String
  | .done _ => ""
  | .failed e => CommandLine.line ("Error: " ++ e.message)
  | .misused => CommandLine.usageText

end RuleWiring

def main (words : List String) : IO UInt32 := do
  let outcome ← RuleWiring.CommandLine.run words .still
  IO.print outcome.output
  IO.eprint outcome.complaint
  return outcome.code
