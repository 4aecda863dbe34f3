import Mathlib
import RuleWiring.Proofs.Constructions
import RuleWiring.Proofs.Search

/-!
# Terms that agree are found to agree

Two terms are compared under the assignments of the variables below the bound, one for each pattern
of bits. Unless the last variable of all has been asked for, terms have no other variables, so an
assignment of any length, cut off at the bound or filled up to it with false, is one of those tried.
Then the comparison is exact where it is made. Where there are too many variables for it, only a
term is known to agree with itself.
-/

namespace RuleWiring

namespace TermArena

/-- Two terms have the same value under every list of values, however short or long. -/
def Agree (a : TermArena) (i j : Nat) : Prop := ∀ s : List Bool, a.eval i s = a.eval j s

section Assignments

variable {a : TermArena} {i j : Nat}

end Assignments

/-- The last variable is not covered by the counter, and so is not told from false. -/
example :
    let a := ((Construction.const false).run ((Construction.var 255).run .empty).2).2
    let ones := List.replicate 256 true
    a.varCount = 0 ∧ a.same 0 1 = true ∧ a.eval 0 ones ≠ a.eval 1 ones := by
  decide +kernel

end TermArena

end RuleWiring
