import RuleWiring.Diagram.Basic

/-!
# Sketches

A sketch is a diagram that is still being drawn. Nodes and wires are added without any
check: ids may repeat, positions may point nowhere, and a wire may leave open which port
it goes to.
-/

namespace RuleWiring

/-- A wire of a sketch; without a port it takes the first that is free. -/
structure SketchWire where
  source : Source
  target : Nat
  port : Option Port
deriving DecidableEq, Repr

structure Sketch where
  metadata : Metadata
  nodes : List Node := []
  wires : List SketchWire := []
  /-- The node named as the output, if one is. -/
  designated : Option Nat := none
  interpretation : String := ""
deriving Repr

namespace Sketch

/-- The position that the next node takes. -/
def next (s : Sketch) : Nat := s.nodes.length

/-- Adds a node at the position `next`. -/
def addNode (s : Sketch) (id : String) (c : Component) : Sketch :=
  { s with nodes := s.nodes ++ [⟨id, c⟩] }

def addWire (s : Sketch) (w : SketchWire) : Sketch := { s with wires := s.wires ++ [w] }

/-- Wires a node's output to a port. -/
def wire (s : Sketch) (source target : Nat) (p : Port) : Sketch :=
  s.addWire ⟨.node source, target, some p⟩

/-- Wires a node's output to whichever port is free. -/
def wirePositional (s : Sketch) (source target : Nat) : Sketch :=
  s.addWire ⟨.node source, target, none⟩

/-- Wires a constant to a port, or to whichever is free. -/
def literal (s : Sketch) (l : Literal) (target : Nat) (p : Option Port) : Sketch :=
  s.addWire ⟨.literal l, target, p⟩

def setOutput (s : Sketch) (i : Nat) : Sketch := { s with designated := some i }

def interpret (s : Sketch) (text : String) : Sketch := { s with interpretation := text }

/-- The position of the first node with an id. -/
def find? (s : Sketch) (id : String) : Option Nat := s.nodes.findIdx? (·.id = id)

end Sketch

end RuleWiring
