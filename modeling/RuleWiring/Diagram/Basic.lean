import RuleWiring.Bytes.Sha256
import RuleWiring.Component.Literal
import RuleWiring.Parameters.Basic
import RuleWiring.Text.Quoted

/-!
# Wiring diagrams

A `Diagram` is a graph of components that has passed every structural check. Nodes are
known by their positions; `edges` lists what is wired to which port, `wires` lists the same
by node and port, and `order` lists the nodes so that each comes after all that feed it.

A diagram has a canonical byte form that depends on the ids, the components, the edges and
the output, and not on the order in which nodes and edges were given.
-/

namespace RuleWiring

structure Node where
  id : String
  component : Component
deriving DecidableEq, Repr

/-- What feeds a port: the output of a node, or a constant. -/
inductive Source where
  | node (i : Nat)
  | literal (l : Literal)
deriving DecidableEq, Repr

/-- Something wired to a port. -/
structure Edge where
  source : Source
  target : Nat
  port : Port
deriving DecidableEq, Repr

/-- What is said about a diagram besides its graph. -/
structure Metadata where
  /-- The id of the pattern the diagram realises. -/
  id : String
  title : Option String := none
  code : Option Exocode := none
  provenance : Provenance := .default
  params : ParameterRecord := .defaults
  formula : Option String := none
deriving DecidableEq, Repr

/-- A position as messages show it. -/
def positionText (i : Nat) : String := s!"#{i}"

/-! ## Structural problems -/

/-- Why an edge of a document is no edge. -/
inductive EdgeFlaw where
  | twoSources
  | noSource
deriving DecidableEq, Repr

inductive StructuralError where
  | duplicateNode (id : String)
  | unknownNode (edge : Nat) (id : String)
  | unknownComponent (node name : String)
  | unknownPort (node : String) (component : Component) (port : String)
  | portConflict (node : String) (port : Port)
  | excessInput (node : String) (edge : Nat)
  | unfedPort (node : String) (port : Port)
  | typeMismatch (node : String) (port : Port) (expected found : ValueType)
  | malformedEdge (edge : Nat) (flaw : EdgeFlaw)
  | missingOutput
  | multipleOutputs (first second : String)
  | unknownOutput (index : Nat)
  | outputNotTerminal (node : String)
  | cycle (nodes : List String)
  | unreachable (node : String)
deriving DecidableEq, Repr

def EdgeFlaw.message : EdgeFlaw → String
  | .twoSources => "both `from` and `literal` are set"
  | .noSource => "neither `from` nor `literal` is set"

def StructuralError.message : StructuralError → String
  | .duplicateNode id => s!"duplicate node id `{id}`"
  | .unknownNode edge id => s!"edge {edge} references unknown node `{id}`"
  | .unknownComponent node name => s!"node `{node}` has unknown component kind `{name}`"
  | .unknownPort node component port =>
      let kind := component.name
      s!"node `{node}` ({kind}) has no port `{port}`"
  | .portConflict node port =>
      let name := port.name
      s!"port `{name}` of node `{node}` is fed by more than one edge"
  | .excessInput node edge => s!"edge {edge} into `{node}` has no free port left"
  | .unfedPort node port =>
      let name := port.name
      s!"required port `{name}` of node `{node}` is not wired"
  | .typeMismatch node port expected found =>
      let name := port.name
      let wanted := expected.name
      let got := found.name
      s!"port `{name}` of node `{node}` expects {wanted}, got {got}"
  | .malformedEdge edge flaw =>
      let reason := flaw.message
      s!"edge {edge} is malformed: {reason}"
  | .missingOutput => "diagram has no output node"
  | .multipleOutputs first second =>
      s!"diagram has more than one output node: `{first}` and `{second}`"
  | .unknownOutput index =>
      let position := positionText index
      s!"designated output {position} is not a node of this diagram"
  | .outputNotTerminal node => s!"designated output `{node}` is not an output terminal"
  | .cycle nodes =>
      let names := ", ".intercalate (nodes.map Text.quoted)
      s!"cycle detected through nodes [{names}]"
  | .unreachable node => s!"node `{node}` does not reach the output"

/-! ## Diagrams -/

structure Diagram where
  metadata : Metadata
  nodes : List Node
  edges : List Edge
  /-- For each node its ports in declared order, with what feeds them. -/
  wires : List (List (Port × Source))
  output : Nat
  order : List Nat
  interpretation : String
deriving DecidableEq, Repr

namespace Diagram

/-- The position of the first node with an id. -/
def find? (d : Diagram) (id : String) : Option Nat := d.nodes.findIdx? (·.id = id)

/-- The id of a node; positions outside the diagram have none. -/
def idAt (d : Diagram) (i : Nat) : String := (d.nodes[i]?).elim "" (·.id)

/-- The ports of a node with what feeds them. -/
def inputsOf (d : Diagram) (i : Nat) : List (Port × Source) := (d.wires[i]?).getD []

/-- What feeds a port of a node. -/
def input? (d : Diagram) (i : Nat) (p : Port) : Option Source :=
  ((d.inputsOf i).find? (·.1 = p)).map Prod.snd

/-- How often each kind of component occurs, without those that do not. -/
def census (d : Diagram) : List (Component × Nat) :=
  (Component.all.map fun c => (c, d.nodes.countP (·.component = c))).filter (0 < ·.2)

/-! ## Canonical form -/

/-- Lists of bytes in the order of a dictionary. -/
def bytesLe : List UInt8 → List UInt8 → Bool
  | [], _ => true
  | _ :: _, [] => false
  | a :: as, b :: bs => if a = b then bytesLe as bs else a < b

def sortBytes (l : List (List UInt8)) : List (List UInt8) := l.mergeSort bytesLe

def nodeBytes (n : Node) : List UInt8 :=
  Bytes.prefixedText n.id ++ Bytes.prefixedText n.component.name

def sourceBytes (d : Diagram) : Source → List UInt8
  | .node i => 0 :: Bytes.prefixedText (d.idAt i)
  | .literal l => 1 :: l.canonicalBytes

def edgeBytes (d : Diagram) (e : Edge) : List UInt8 :=
  d.sourceBytes e.source ++ Bytes.prefixedText (d.idAt e.target) ++ Bytes.prefixedText e.port.name

/-- The number of parts, and the parts in sorted order. -/
def countedBytes (parts : List (List UInt8)) : List UInt8 :=
  Bytes.littleEndian 8 parts.length ++ (sortBytes parts).flatten

def canonicalBytes (d : Diagram) : List UInt8 :=
  countedBytes (d.nodes.map nodeBytes)
    ++ countedBytes (d.edges.map d.edgeBytes)
    ++ Bytes.prefixedText (d.idAt d.output)

end Diagram

end RuleWiring
