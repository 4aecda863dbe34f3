import RuleWiring.Analysis.TruthTable
import RuleWiring.Prover.Search

/-!
# Proofs about a circuit

A diagram evaluated at variables is a circuit of terms. Two questions about it are
answered by searching for a counterexample: whether it computes a given truth table, and
whether it is linear. The second question has the variables of two neighbourhoods, and the
circuit is also evaluated at the second one and at the sum of both.
-/

namespace RuleWiring

/-- The outcome of a proof: `verified` if there is no counterexample, `refuted` if there is
one, and `unknown` if the search did not end or was not tried. -/
inductive Verification where
  | verified
  | refuted
  | unknown
deriving DecidableEq, Repr

namespace Verification

def name : Verification → String
  | .verified => "verified"
  | .refuted => "refuted"
  | .unknown => "unknown"

def all : List Verification := [.verified, .refuted, .unknown]

def ofSearch : Search → Verification
  | .unsat => .verified
  | .sat _ => .refuted
  | .timeout => .unknown

end Verification

/-- A diagram evaluated at variables. -/
structure SymbolicCircuit where
  arena : TermArena
  root : Nat
  inputs : Neighborhood Nat
  /-- The sum of the outputs at two neighbourhoods and at their sum. -/
  defect : Nat
deriving DecidableEq, Repr

namespace SymbolicCircuit

/-- The variables of both neighbourhoods. -/
def bothInputs : StateM TermArena (Neighborhood Nat × Neighborhood Nat) := do
  let l ← TermArena.mkVar 0
  let c ← TermArena.mkVar 1
  let r ← TermArena.mkVar 2
  let l' ← TermArena.mkVar 3
  let c' ← TermArena.mkVar 4
  let r' ← TermArena.mkVar 5
  pure (⟨l, c, r⟩, ⟨l', c', r'⟩)

/-- The sum of two neighbourhoods. -/
def sum (a b : Neighborhood Nat) : StateM TermArena (Neighborhood Nat) := do
  let l ← TermArena.mkXor a.left b.left
  let c ← TermArena.mkXor a.center b.center
  let r ← TermArena.mkXor a.right b.right
  pure ⟨l, c, r⟩

/-- The root, the inputs and the defect of a diagram's circuit. -/
def build (d : Diagram) (mode : EvalMode) : EvalM TermArena (Nat × Neighborhood Nat × Nat) := do
  let (a, b) ← (bothInputs : StateM TermArena _)
  let fa ← evaluate TermArena.algebra d a mode
  let fb ← evaluate TermArena.algebra d b mode
  let ab ← (sum a b : StateM TermArena _)
  let fab ← evaluate TermArena.algebra d ab mode
  let faFb ← (TermArena.mkXor fa fb : StateM TermArena _)
  let defect ← (TermArena.mkXor fab faFb : StateM TermArena _)
  pure (fa, a, defect)

def ofDiagram (d : Diagram) (mode : EvalMode) : Except EvalError SymbolicCircuit :=
  match (build d mode).run TermArena.empty with
  | (.error e, _) => .error e
  | (.ok (root, inputs, defect), arena) => .ok ⟨arena, root, inputs, defect⟩

/-- The names of the variables. -/
def names : List String := ["L", "C", "R", "L'", "C'", "R'"]

def formula (k : SymbolicCircuit) : String := k.arena.render k.root names

/-- A variable or its negation. -/
def literal (v : Nat) (positive : Bool) : StateM TermArena Nat :=
  if positive then pure v else TermArena.mkNot v

/-- The term that is true where the neighbourhood is the one of index `n` and the circuit
differs from a table there. -/
def differenceAt (k : SymbolicCircuit) (t : TruthTable) (n : Nat) : StateM TermArena Nat := do
  let place := Neighborhood.ofIndex n
  let l ← literal k.inputs.left place.left
  let c ← literal k.inputs.center place.center
  let r ← literal k.inputs.right place.right
  let lc ← TermArena.mkAnd l c
  let point ← TermArena.mkAnd lc r
  let expected ← TermArena.mkConst (t.eval place)
  let differs ← TermArena.mkXor k.root expected
  TermArena.mkAnd point differs

/-- The disjunction of a term with the differences at some indices. -/
def differences (k : SymbolicCircuit) (t : TruthTable) : List Nat → Nat → StateM TermArena Nat
  | [], found => pure found
  | n :: rest, found => do
      let here ← k.differenceAt t n
      let found ← TermArena.mkOr found here
      differences k t rest found

/-- The term that is true where the circuit differs from a table. -/
def disagreement (k : SymbolicCircuit) (t : TruthTable) : StateM TermArena Nat := do
  let nothing ← TermArena.mkConst false
  k.differences t (List.range 8) nothing

end SymbolicCircuit

/-! ## Provers -/

/-- How questions are answered: not at all, or by search within a time in nanoseconds. -/
inductive Prover where
  | null
  | exhaustive (timeout : Nat)
deriving DecidableEq, Repr

namespace Prover

/-- The time in milliseconds that a search has if nothing else is said. -/
def defaultTimeoutMs : Nat := 5000

def nanoseconds (ms : Nat) : Nat := ms * 1000000

/-- A search within a time in milliseconds. -/
def within (ms : Nat) : Prover := .exhaustive (nanoseconds ms)

/-- Whether a circuit computes a table. -/
def equivalent (p : Prover) (k : SymbolicCircuit) (t : TruthTable) (c : Clock) :
    Verification × Clock :=
  match p with
  | .null => (.unknown, c)
  | .exhaustive timeout =>
      let (term, arena) := k.disagreement t k.arena
      let (found, c) := Search.findModel arena term 3 timeout c
      (.ofSearch found, c)

/-- Whether a circuit is linear. -/
def linear (p : Prover) (k : SymbolicCircuit) (c : Clock) : Verification × Clock :=
  match p with
  | .null => (.unknown, c)
  | .exhaustive timeout =>
      let (found, c) := Search.findModel k.arena k.defect 6 timeout c
      (.ofSearch found, c)

end Prover

end RuleWiring
