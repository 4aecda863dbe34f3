import RuleWiring.Diagram.Basic
import RuleWiring.Evaluation.Algebra
import RuleWiring.Term.Arena

/-!
# Evaluation

A diagram describes how a cell of an elementary cellular automaton changes, as far as that
can be said of a single bit. `evaluate` follows the diagram's order and computes what every
node puts out, in any Boolean algebra, from the bits of a neighbourhood.

A node puts out a bit, the three bits of the neighbourhood, or something that is hidden at
the level of bits. A gate with a hidden condition has a value only if its branches agree.

In strict mode only the components of Boolean logic are allowed. In lifted mode all are,
except those that mix the bits of a sigil.
-/

namespace RuleWiring

/-! ## Neighbourhoods -/

/-- What a cell sees: its neighbours and itself. -/
structure Neighborhood (β : Type) where
  left : β
  center : β
  right : β
deriving DecidableEq, Repr

namespace Neighborhood

/-- The neighbourhood that a number spells in three bits, the left one being the highest. -/
def ofIndex (n : Nat) : Neighborhood Bool := ⟨n.testBit 2, n.testBit 1, n.testBit 0⟩

def index (n : Neighborhood Bool) : Nat := 4 * n.left.toNat + 2 * n.center.toNat + n.right.toNat

end Neighborhood

/-! ## Modes and errors -/

inductive EvalMode where
  | strict
  | lifted
deriving DecidableEq, Repr

namespace EvalMode

def name : EvalMode → String
  | .strict => "strict"
  | .lifted => "lifted"

def all : List EvalMode := [.strict, .lifted]

def ofName? (s : String) : Option EvalMode := all.find? (·.name = s)

end EvalMode

inductive EvalError where
  | unsupportedComponent (node : String) (component : Component)
  | notLiftable (node : String) (component : Component)
  | undeterminedGate (node : String)
  | nonBooleanInput (node : String) (port : Port)
  | missingInput (node : String) (port : Port)
deriving DecidableEq, Repr

def EvalError.message : EvalError → String
  | .unsupportedComponent node component =>
      let kind := component.name
      s!"node `{node}`: component `{kind}` is outside the Boolean-logic subset"
  | .notLiftable node component =>
      let kind := component.name
      s!"node `{node}`: component `{kind}` mixes bitplanes and cannot be lifted"
  | .undeterminedGate node => s!"node `{node}`: gate branches differ under an opaque condition"
  | .nonBooleanInput node port =>
      let name := port.name
      s!"node `{node}`: port `{name}` carries no Boolean value"
  | .missingInput node port =>
      let name := port.name
      s!"node `{node}`: input on port `{name}` was not evaluated"

/-- The components of Boolean logic. -/
def Component.isLogic : Component → Bool
  | .pred | .self | .succ | .bitAnd | .bitOr | .bitXor | .bitNot | .output => true
  | _ => false

/-- The components whose output bits depend on other bits of their input. -/
def Component.mixesBits : Component → Bool
  | .shiftLeft | .shiftRight | .crossover | .mutate => true
  | _ => false

/-- Why a node is not allowed in a mode, if it is not. -/
def Node.obstacle? (mode : EvalMode) (n : Node) : Option EvalError :=
  match mode with
  | .strict =>
      if n.component.isLogic then none else some (.unsupportedComponent n.id n.component)
  | .lifted =>
      if n.component.mixesBits then some (.notLiftable n.id n.component) else none

/-- The first node that is not allowed decides. -/
def checkSupported (d : Diagram) (mode : EvalMode) : Except EvalError Unit :=
  match d.nodes.findSome? (Node.obstacle? mode) with
  | none => .ok ()
  | some e => .error e

/-! ## Values -/

/-- What a node puts out. -/
inductive Signal (β : Type) where
  | bit (v : β)
  | triple (l c r : β)
  | hidden
deriving Repr

/-- What the nodes have put out so far, by position. -/
abbrev Signals (β : Type) := Array (Option (Signal β))

/-- A computation that may extend the store of an algebra, and may fail; what was stored
before a failure stays. -/
abbrev EvalM (σ : Type) := ExceptT EvalError (StateM σ)

variable {σ β : Type}

/-- What arrives at a port. A Boolean literal becomes a constant of the algebra. -/
def fetch (alg : BoolAlgebra σ β) (d : Diagram) (signals : Signals β) (i : Nat) (n : Node)
    (p : Port) : EvalM σ (Signal β) :=
  match d.input? i p with
  | some (.node j) =>
      match (signals[j]?).join with
      | some v => pure v
      | none => throw (.missingInput n.id p)
  | some (.literal (.bool b)) => do
      let v ← alg.constant b
      pure (.bit v)
  | some (.literal _) => pure .hidden
  | none => throw (.missingInput n.id p)

/-- The bit that arrives at a port. -/
def fetchBit (alg : BoolAlgebra σ β) (d : Diagram) (signals : Signals β) (i : Nat) (n : Node)
    (p : Port) : EvalM σ β := do
  match ← fetch alg d signals i n p with
  | .bit v => pure v
  | _ => throw (.nonBooleanInput n.id p)

/-- What a binary mixer makes of two bits; the mean of two bits is rounded up. -/
def mixBits (alg : BoolAlgebra σ β) (c : Component) (a b : β) : StateM σ β :=
  match c with
  | .bitAnd => alg.and a b
  | .bitXor => alg.xor a b
  | _ => alg.or a b

/-- One of two values that have to be the same. -/
def agreed (alg : BoolAlgebra σ β) (n : Node) (a b : β) : EvalM σ (Signal β) := do
  if alg.same (← get) a b then pure (.bit a) else throw (.undeterminedGate n.id)

/-- One of two values, chosen by a bit. -/
def choose (alg : BoolAlgebra σ β) (c a b : β) : StateM σ β := do
  let t ← alg.and c a
  let nc ← alg.not c
  let e ← alg.and nc b
  alg.or t e

/-- What a node puts out. -/
def nodeSignal (alg : BoolAlgebra σ β) (d : Diagram) (inputs : Neighborhood β)
    (signals : Signals β) (i : Nat) (n : Node) : EvalM σ (Signal β) :=
  match n.component with
  | .self | .prev => pure (.bit inputs.center)
  | .pred => pure (.bit inputs.left)
  | .succ => pure (.bit inputs.right)
  | .neighbors => pure (.triple inputs.left inputs.center inputs.right)
  | .exotype | .diversity | .entropy | .similarity | .evenness | .dominance | .autocorrelation
  | .bitTest => pure .hidden
  | .bitNot => do
      let a ← fetchBit alg d signals i n .a
      let v ← alg.not a
      pure (.bit v)
  | .bitAnd | .bitOr | .bitXor | .average => do
      let a ← fetchBit alg d signals i n .a
      let b ← fetchBit alg d signals i n .b
      let v ← (mixBits alg n.component a b : StateM σ β)
      pure (.bit v)
  | .majority => do
      match ← fetch alg d signals i n .sigils with
      | .triple l c r =>
          let v ← alg.majority l c r
          pure (.bit v)
      | _ => throw (.nonBooleanInput n.id .sigils)
  | .thresholdSelect => do
      let above ← fetchBit alg d signals i n .above
      let below ← fetchBit alg d signals i n .below
      agreed alg n above below
  | .conditionalSelect => do
      let a ← fetchBit alg d signals i n .thenBranch
      let b ← fetchBit alg d signals i n .elseBranch
      match ← fetch alg d signals i n .cond with
      | .bit c =>
          let v ← (choose alg c a b : StateM σ β)
          pure (.bit v)
      | _ => agreed alg n a b
  | .output => do
      let v ← fetchBit alg d signals i n .sigil
      pure (.bit v)
  | .shiftLeft | .shiftRight | .crossover | .mutate => throw (.notLiftable n.id n.component)

/-- What all nodes put out, in a given order. -/
def sweep (alg : BoolAlgebra σ β) (d : Diagram) (inputs : Neighborhood β) :
    List Nat → Signals β → EvalM σ (Signals β)
  | [], signals => pure signals
  | i :: rest, signals =>
      match d.nodes[i]? with
      | none => sweep alg d inputs rest signals
      | some n => do
          let v ← nodeSignal alg d inputs signals i n
          sweep alg d inputs rest (signals.setIfInBounds i (some v))

/-- The bit at the output of a diagram. -/
def evaluate (alg : BoolAlgebra σ β) (d : Diagram) (inputs : Neighborhood β) (mode : EvalMode) :
    EvalM σ β :=
  match checkSupported d mode with
  | .error e => throw e
  | .ok _ => do
      let signals ← sweep alg d inputs d.order (Array.replicate d.nodes.length none)
      match (signals[d.output]?).join with
      | some (.bit v) => pure v
      | _ => throw (.missingInput (d.idAt d.output) .sigil)

/-! ## The two algebras -/

/-- Evaluation at one neighbourhood. -/
def evaluateBits (d : Diagram) (inputs : Neighborhood Bool) (mode : EvalMode) :
    Except EvalError Bool :=
  ((evaluate bits d inputs mode).run ()).1

/-- Evaluation at three terms of an arena. -/
def evaluateTerms (d : Diagram) (inputs : Neighborhood Nat) (mode : EvalMode) (a : TermArena) :
    Except EvalError Nat × TermArena :=
  (evaluate TermArena.algebra d inputs mode).run a

end RuleWiring
