/-!
# Boolean algebras with a store

Diagrams are evaluated in any Boolean algebra. An operation of an algebra may add to a
store on the way to its result: the algebra of bits has nothing to store, while the
algebra of terms keeps the terms it has made. The comparison `same` adds nothing; it may
only say yes if its operands mean the same, and may say no if it cannot tell.
-/

namespace RuleWiring

/-- Operations on values of type `β` that may extend a store of type `σ`. -/
structure BoolAlgebra (σ β : Type) where
  constant : Bool → StateM σ β
  not : β → StateM σ β
  and : β → β → StateM σ β
  or : β → β → StateM σ β
  xor : β → β → StateM σ β
  same : σ → β → β → Bool

/-- Three values vote: the disjunction of their three pairwise conjunctions. -/
def BoolAlgebra.majority {σ β : Type} (alg : BoolAlgebra σ β) (a b c : β) : StateM σ β := do
  let ab ← alg.and a b
  let bc ← alg.and b c
  let ac ← alg.and a c
  let t ← alg.or ab bc
  alg.or t ac

/-- The two-element algebra. -/
def bits : BoolAlgebra Unit Bool where
  constant b := pure b
  not a := pure (!a)
  and a b := pure (a && b)
  or a b := pure (a || b)
  xor a b := pure (a ^^ b)
  same _ a b := a = b

end RuleWiring
