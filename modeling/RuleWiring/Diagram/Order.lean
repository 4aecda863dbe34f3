import RuleWiring.Diagram.Basic

/-!
# Evaluation order

The nodes are visited first in, first out, starting with those that nothing feeds. A node
is ready as soon as the last node that feeds it has been visited; nodes that become ready
together are taken by their position. A node on a cycle, or behind one, is never ready, so
the order is complete exactly if there is no cycle.

Only the links between nodes matter here, not their ports, and not the order in which the
links are listed.
-/

namespace RuleWiring

/-- A link from the first node to the second. -/
abbrev Link := Nat × Nat

/-- The link of an edge whose source is a node. -/
def Edge.link? (e : Edge) : Option Link :=
  match e.source with
  | .node i => some (i, e.target)
  | .literal _ => none

/-- The links of the edges between nodes. -/
def links (edges : List Edge) : List Link := edges.filterMap Edge.link?

namespace Order

/-- How many links into a node come from nodes that are not yet visited. -/
def pending (ls : List Link) (done : List Nat) (v : Nat) : Nat :=
  ls.countP fun l => l.2 = v ∧ l.1 ∉ done

/-- The nodes below `n` that a node feeds, by position. -/
def successors (n : Nat) (ls : List Link) (v : Nat) : List Nat :=
  let targets := (ls.filter (·.1 = v)).map Prod.snd
  (List.range n).filter (· ∈ targets)

/-- The nodes that become ready by the visit to `v`, which is already among those done. -/
def released (n : Nat) (ls : List Link) (done : List Nat) (v : Nat) : List Nat :=
  (successors n ls v).filter fun u => pending ls done u = 0

/-- Visits the nodes of a queue and those they release; `done` lists the nodes visited,
the last one first. -/
def visit (n : Nat) (ls : List Link) : Nat → List Nat → List Nat → List Nat
  | 0, _, done => done
  | _ + 1, [], done => done
  | fuel + 1, v :: queue, done =>
      visit n ls fuel (queue ++ released n ls (v :: done) v) (v :: done)

/-- The nodes that nothing feeds. -/
def sources (n : Nat) (ls : List Link) : List Nat :=
  (List.range n).filter fun v => pending ls [] v = 0

/-- The nodes in the order of their visits; those that are never ready are left out. -/
def run (n : Nat) (ls : List Link) : List Nat := (visit n ls n (sources n ls) []).reverse

/-- The nodes from which some node is reached, if an order puts sources first: a sweep
from the end of the order to its start. -/
def reaching (ls : List Link) (target : Nat) (order : List Nat) : List Nat :=
  order.foldr
    (fun v reached =>
      if v = target ∨ ls.any (fun l => l.1 = v ∧ l.2 ∈ reached) then v :: reached else reached)
    []

end Order

/-- The order of some nodes under their edges, or the nodes that are never ready. -/
def evaluationOrder (nodes : List Node) (edges : List Edge) : Except StructuralError (List Nat) :=
  let ls := links edges
  let order := Order.run nodes.length ls
  if order.length = nodes.length then .ok order
  else
    .error (.cycle ((nodes.zipIdx.filter fun p => 0 < Order.pending ls order p.2).map (·.1.id)))

end RuleWiring
