import RuleWiring.Analysis.TruthTable
import RuleWiring.Diagram.Finish

/-!
# Circuits for rules

Every rule has a circuit: the disjunction, over the neighbourhoods that give a one, of
the conjunction that picks out the neighbourhood. Extractors and negations are added when
they are first needed. Rule zero has no such neighbourhood and is the sum of the cell with
itself.
-/

namespace RuleWiring

/-- One of the three cells of a neighbourhood. -/
inductive Cell where
  | left
  | center
  | right
deriving DecidableEq, Repr

namespace Cell

def nodeId : Cell → String
  | .left => "pred"
  | .center => "self"
  | .right => "succ"

def component : Cell → Component
  | .left => .pred
  | .center => .self
  | .right => .succ

end Cell

namespace Sketch

/-- The node of an id, which is added if it is missing. -/
def require (s : Sketch) (id : String) (c : Component) : Nat × Sketch :=
  match s.find? id with
  | some i => (i, s)
  | none => (s.next, s.addNode id c)

/-- The node that puts out a cell's bit, or the opposite of it. -/
def cellLiteral (s : Sketch) (c : Cell) (positive : Bool) : Nat × Sketch :=
  let (v, s) := s.require c.nodeId c.component
  if positive then (v, s)
  else
    let id := "not-" ++ c.nodeId
    match s.find? id with
    | some i => (i, s)
    | none => (s.next, (s.addNode id .bitNot).wire v s.next .a)

/-- Adds a node with two inputs. -/
def addBinary (s : Sketch) (id : String) (c : Component) (a b : Nat) : Nat × Sketch :=
  (s.next, ((s.addNode id c).wire a s.next .a).wire b s.next .b)

/-- Adds the conjunction that picks out the neighbourhood of an index. -/
def addMinterm (s : Sketch) (n : Nat) : Nat × Sketch :=
  let place := Neighborhood.ofIndex n
  let (l, s) := s.cellLiteral .left place.left
  let (c, s) := s.cellLiteral .center place.center
  let (r, s) := s.cellLiteral .right place.right
  let (lc, s) := s.addBinary s!"m{n}-lc" .bitAnd l c
  s.addBinary s!"m{n}" .bitAnd lc r

/-- Adds the disjunction of what there is with the conjunctions of some indices. -/
def addMinterms (s : Sketch) (sofar : Option Nat) : List Nat → Option Nat × Sketch
  | [] => (sofar, s)
  | n :: rest =>
      let (m, s) := s.addMinterm n
      match sofar with
      | none => s.addMinterms (some m) rest
      | some p =>
          let (o, s) := s.addBinary s!"or-{n}" .bitOr p m
          s.addMinterms (some o) rest

end Sketch

/-- The sketch of a rule's circuit. -/
def synthesisSketch (rule : UInt8) : Sketch :=
  let number := String.ofList (Nat10.padded 3 rule.toNat)
  let n := rule.toNat
  let metadata : Metadata :=
    { id := "rule-" ++ number, formula := some s!"sum of products for rule {n}" }
  let start : Sketch := { metadata := metadata }
  let output := start.next
  let s := start.addNode "output" .output
  if rule = 0 then
    let (c, s) := s.require Cell.center.nodeId Cell.center.component
    let (x, s) := s.addBinary "zero" .bitXor c c
    s.wire x output .sigil
  else
    let ones := TruthTable.indices.filter (TruthTable.output ⟨rule⟩)
    match s.addMinterms none ones with
    | (some top, s) => s.wire top output .sigil
    | (none, s) => s

/-- The circuit of a rule. -/
def synthesize (rule : UInt8) : Except StructuralError Diagram := (synthesisSketch rule).finish

end RuleWiring
