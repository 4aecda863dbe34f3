import RuleWiring.Diagram.Order
import RuleWiring.Diagram.Ports

/-!
# From a sketch to a diagram

`Sketch.finish` checks a sketch and freezes it. The checks come in a fixed order, and the
first that fails decides the error: distinct ids; ports, and the types of what feeds them;
no port unfed; one output; no cycle; every node but the context extractors reaches the
output.
-/

namespace RuleWiring

namespace Sketch

/-- The first id that an earlier node has. -/
def firstRepeated? : List String → List String → Option String
  | _, [] => none
  | seen, id :: rest => if id ∈ seen then some id else firstRepeated? (id :: seen) rest

/-- The output terminals by position. -/
def terminals (nodes : List Node) : List (Node × Nat) :=
  nodes.zipIdx.filter (·.1.component = .output)

/-- The position of the output: of the one terminal, which has to be the designated node
if there is one. -/
def chooseOutput (nodes : List Node) (designated : Option Nat) : Except StructuralError Nat :=
  match terminals nodes with
  | first :: second :: _ => .error (.multipleOutputs first.1.id second.1.id)
  | found =>
      match designated with
      | some i =>
          match nodes[i]? with
          | none => .error (.unknownOutput i)
          | some n => if n.component = .output then .ok i else .error (.outputNotTerminal n.id)
      | none =>
          match found with
          | [] => .error .missingOutput
          | t :: _ => .ok t.2

/-- The first node that ought to reach the output and does not. -/
def firstStranded? (nodes : List Node) (edges : List Edge) (order : List Nat) (output : Nat) :
    Option Node :=
  let reached := Order.reaching (links edges) output order
  (nodes.zipIdx.find? fun p => p.2 ∉ reached ∧ !p.1.component.isSource).map (·.1)

def finish (s : Sketch) : Except StructuralError Diagram :=
  match firstRepeated? [] (s.nodes.map (·.id)) with
  | some id => .error (.duplicateNode id)
  | none =>
      match s.resolve with
      | .error e => .error e
      | .ok edges =>
          match collect edges 0 s.nodes with
          | .error e => .error e
          | .ok wires =>
              match chooseOutput s.nodes s.designated with
              | .error e => .error e
              | .ok output =>
                  match evaluationOrder s.nodes edges with
                  | .error e => .error e
                  | .ok order =>
                      match firstStranded? s.nodes edges order output with
                      | some n => .error (.unreachable n.id)
                      | none =>
                          .ok {
                            metadata := s.metadata
                            nodes := s.nodes
                            edges := edges
                            wires := wires
                            output := output
                            order := order
                            interpretation := s.interpretation }

end Sketch

end RuleWiring
