import RuleWiring.Term.Arena

/-!
# Bounded search

Whether a formula can be satisfied is found out by trying all assignments, in the order of
the numbers they spell. A search has a deadline: the clock is read before every trial, and
a reading at or past the deadline ends the search without an answer.

A clock is a stream of readings, in nanoseconds, of which nothing is assumed.
-/

namespace RuleWiring

/-- The readings still to come. -/
structure Clock where
  reading : Nat → Nat

namespace Clock

/-- A clock that stands still. -/
def still : Clock := ⟨fun _ => 0⟩

/-- The next reading, and the clock after it. -/
def read (c : Clock) : Nat × Clock := (c.reading 0, ⟨fun n => c.reading (n + 1)⟩)

end Clock

/-- The outcome of a search. -/
inductive Search where
  | sat (model : List Bool)
  | unsat
  | timeout
deriving DecidableEq, Repr

namespace Search

/-- Tries the last `left` of the `2^vars` assignments. -/
def tryLast (a : TermArena) (formula vars deadline : Nat) : Nat → Clock → Search × Clock
  | 0, c => (.unsat, c)
  | left + 1, c =>
      let (now, c) := c.read
      if deadline ≤ now then (.timeout, c)
      else
        let model := TermArena.assignment vars (Nat.pow 2 vars - (left + 1))
        if a.eval formula model then (.sat model, c)
        else tryLast a formula vars deadline left c

/-- The first assignment of some variables that satisfies a term, within a time in
nanoseconds. -/
def findModel (a : TermArena) (formula vars timeout : Nat) (c : Clock) : Search × Clock :=
  let (start, c) := c.read
  tryLast a formula vars (start + timeout) (Nat.pow 2 vars) c

end Search

end RuleWiring
