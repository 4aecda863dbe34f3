import RuleWiring.Files.Basic
import RuleWiring.Text.Lines

/-!
# Routes

A path is a walk through directories, written as the names it passes with slashes between
them. A `Route` keeps the steps of the walk one by one, because a walk fails where a step
of it does: `a/../b` does not lead to `b` unless there is a directory `a`. A slash at the
end asks for a directory. Empty names are no steps.

`Route.trail` lists the directories that have to be there before the end of a route can be
one.
-/

namespace RuleWiring

inductive Step where
  /-- Stays where it is, as `.` says. -/
  | here
  /-- Goes to the directory above, as `..` says. -/
  | up
  | into (name : String)
deriving DecidableEq, Repr

namespace Step

def ofName? (name : String) : Option Step :=
  if name = "" then none
  else if name = "." then some .here
  else if name = ".." then some .up
  else some (.into name)

/-- The longest name, in bytes. -/
def nameLimit : Nat := 255

end Step

structure Route where
  /-- Whether the walk starts at the root, and not in the working directory. -/
  fromRoot : Bool
  steps : List Step
  /-- Whether a slash stands at the end. -/
  slash : Bool
deriving DecidableEq, Repr

namespace Route

/-- The longest path, in bytes. -/
def pathLimit : Nat := 4095

/-- The route of a path. An empty path leads nowhere. -/
def ofText (s : String) : Except FileFault Route :=
  if s.toList.any (·.toNat = 0) then .error .zeroInName
  else if pathLimit < s.utf8ByteSize then .error .nameTooLong
  else if s = "" then .error .missing
  else
    .ok { fromRoot := s.toList.head? = some '/'
          steps := (Text.splitOn '/' s.toList).filterMap fun name => Step.ofName? (String.ofList name)
          slash := s.toList.getLast? = some '/' }

/-- The steps that count: those that stay do not, unless the route starts with one. -/
def moves (r : Route) : List Step :=
  match r.fromRoot, r.steps with
  | false, .here :: rest => .here :: rest.filter (· ≠ .here)
  | _, steps => steps.filter (· ≠ .here)

/-- The route itself and the directories it passes, the nearest to its end first. Where a
walk starts there always is a directory, so that one is left out. -/
def trail (r : Route) : List Route :=
  match r.moves.length with
  | 0 => []
  | n + 1 =>
      r :: (List.range n).reverse.map fun k => ⟨r.fromRoot, r.moves.take (k + 1), false⟩

end Route

end RuleWiring
