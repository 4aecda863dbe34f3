import RuleWiring.Diagram.Finish

/-!
# Documents

A document is the form in which a diagram is stored: nodes are known by their ids, and
components and ports by their names. `Diagram.toDocument` writes a diagram with every port
named; `Document.toDiagram` looks the names up, and then checks the diagram like any
sketch. Where an id repeats, it means the first node that has it.
-/

namespace RuleWiring

structure NodeEntry where
  id : String
  component : String
deriving DecidableEq, Repr

/-- An edge, fed by a node or by a literal. -/
structure EdgeEntry where
  source : Option String := none
  /-- The output of the source; there is only one. -/
  sourcePort : Option String := none
  literal : Option Literal := none
  target : String
  targetPort : Option String := none
deriving DecidableEq, Repr

structure Document where
  metadata : Metadata
  nodes : List NodeEntry
  edges : List EdgeEntry
  output : String
  interpretation : String
deriving DecidableEq, Repr

/-! ## From a diagram -/

namespace Diagram

def nodeEntry (n : Node) : NodeEntry := ⟨n.id, n.component.name⟩

def edgeEntry (d : Diagram) (e : Edge) : EdgeEntry :=
  let entry : EdgeEntry := { target := d.idAt e.target, targetPort := some e.port.name }
  match e.source with
  | .node i => { entry with source := some (d.idAt i) }
  | .literal l => { entry with literal := some l }

def toDocument (d : Diagram) : Document where
  metadata := d.metadata
  nodes := d.nodes.map nodeEntry
  edges := d.edges.map d.edgeEntry
  output := d.idAt d.output
  interpretation := d.interpretation

end Diagram

/-! ## To a diagram -/

namespace Document

/-- The nodes of some entries. -/
def readNodes : List NodeEntry → Except StructuralError (List Node)
  | [] => .ok []
  | e :: rest =>
      match Component.ofName? e.component with
      | none => .error (.unknownComponent e.id e.component)
      | some c => (readNodes rest).map (⟨e.id, c⟩ :: ·)

/-- The first node with an id, and its position. -/
def lookup? (nodes : List Node) (id : String) : Option (Node × Nat) :=
  nodes.zipIdx.find? (·.1.id = id)

/-- The port an edge names, if it names one; colons in front do not count. -/
def readPort (n : Node) : Option String → Except StructuralError (Option Port)
  | none => .ok none
  | some name =>
      match Port.ofName? (Text.dropColons name) with
      | some p => .ok (some p)
      | none => .error (.unknownPort n.id n.component name)

/-- The node an edge comes from, whose output may be named. -/
def readSource (nodes : List Node) (i : Nat) (id : String) (port : Option String) :
    Except StructuralError Source :=
  match lookup? nodes id with
  | none => .error (.unknownNode i id)
  | some (n, j) =>
      match port with
      | none => .ok (.node j)
      | some name =>
          if Text.dropColons name = Port.out.name then .ok (.node j)
          else .error (.unknownPort n.id n.component name)

/-- The wire of the edge at position `i`. -/
def readEdge (nodes : List Node) (i : Nat) (e : EdgeEntry) : Except StructuralError SketchWire :=
  match lookup? nodes e.target with
  | none => .error (.unknownNode i e.target)
  | some (n, j) =>
      match readPort n e.targetPort with
      | .error err => .error err
      | .ok port =>
          match e.source, e.literal with
          | some id, none => (readSource nodes i id e.sourcePort).map (⟨·, j, port⟩)
          | none, some l => .ok ⟨.literal l, j, port⟩
          | some _, some _ => .error (.malformedEdge i .twoSources)
          | none, none => .error (.malformedEdge i .noSource)

/-- The wires of some edges, the first of which has position `i`. -/
def readEdges (nodes : List Node) :
    Nat → List EdgeEntry → Except StructuralError (List SketchWire)
  | _, [] => .ok []
  | i, e :: rest =>
      match readEdge nodes i e with
      | .error err => .error err
      | .ok w => (readEdges nodes (i + 1) rest).map (w :: ·)

/-- The sketch a document describes. An output that is no node counts as a fault of the
edge behind the last one. -/
def toSketch (d : Document) : Except StructuralError Sketch :=
  match readNodes d.nodes with
  | .error e => .error e
  | .ok nodes =>
      match readEdges nodes 0 d.edges with
      | .error e => .error e
      | .ok wires =>
          match lookup? nodes d.output with
          | none => .error (.unknownNode d.edges.length d.output)
          | some (_, i) =>
              .ok {
                metadata := d.metadata
                nodes := nodes
                wires := wires
                designated := some i
                interpretation := d.interpretation }

def toDiagram (d : Document) : Except StructuralError Diagram :=
  match d.toSketch with
  | .error e => .error e
  | .ok s => s.finish

end Document

end RuleWiring
