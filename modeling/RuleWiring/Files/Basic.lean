/-!
# Access to files

What a program may do with the files around it, as operations of a monad `m`. Each
operation answers with a fault in place of failing.
-/

namespace RuleWiring

/-- Why an operation on a file does not succeed. -/
inductive FileFault where
  | missing
  | exists
  | notDirectory
  | directory
  | nameTooLong
  /-- The path holds the character zero. -/
  | zeroInName
  /-- The contents are not text. -/
  | unreadable
  | other (reason : String)
deriving DecidableEq, Repr

/-- The words of the system for a fault. -/
def FileFault.message : FileFault → String
  | .missing => "No such file or directory (os error 2)"
  | .exists => "File exists (os error 17)"
  | .notDirectory => "Not a directory (os error 20)"
  | .directory => "Is a directory (os error 21)"
  | .nameTooLong => "File name too long (os error 36)"
  | .zeroInName => "file name contained an unexpected NUL byte"
  | .unreadable => "stream did not contain valid UTF-8"
  | .other reason => reason

class FileAccess (m : Type → Type) where
  readText : String → m (Except FileFault String)
  /-- Writes a whole file, in place of what it held. -/
  writeText : String → String → m (Except FileFault Unit)
  /-- Makes a directory and those above it, unless they are there. -/
  makeDirectory : String → m (Except FileFault Unit)

end RuleWiring
