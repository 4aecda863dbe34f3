import RuleWiring.Diagram.Sketch

/-!
# From wires to edges

Every wire of a sketch is given a port. Wires that name a port take it first, each port
once; the others then take, in their order, the first declared port of their target that
nobody has taken. Last, the type of what feeds a port is checked against the port's.

The passes run over all wires one after the other, so that a problem of an earlier pass is
reported before any of a later one.
-/

namespace RuleWiring

/-- The ports that are taken, with the node they belong to. -/
abbrev Claims := List (Nat × Port)

namespace Sketch

/-- The target of a wire has to exist, and so has the node that feeds it. -/
def checkEnds (nodes : List Node) (i : Nat) (w : SketchWire) : Except StructuralError Unit :=
  if nodes.length ≤ w.target then .error (.unknownNode i (positionText w.target))
  else
    match w.source with
    | .literal _ => .ok ()
    | .node origin =>
        if nodes.length ≤ origin then .error (.unknownNode i (positionText origin)) else .ok ()

/-- Takes the port a wire names, if it names one. -/
def claimNamed (nodes : List Node) (claims : Claims) (w : SketchWire) :
    Except StructuralError Claims :=
  match w.port, nodes[w.target]? with
  | some p, some n =>
      if (n.component.inputType? p).isNone then .error (.unknownPort n.id n.component p.name)
      else if (w.target, p) ∈ claims then .error (.portConflict n.id p)
      else .ok ((w.target, p) :: claims)
  | _, _ => .ok claims

/-- The ports taken by name; the first wire has position `i`. -/
def namedClaims (nodes : List Node) : Nat → Claims → List SketchWire → Except StructuralError Claims
  | _, claims, [] => .ok claims
  | i, claims, w :: rest =>
      match checkEnds nodes i w with
      | .error e => .error e
      | .ok _ =>
          match claimNamed nodes claims w with
          | .error e => .error e
          | .ok claims => namedClaims nodes (i + 1) claims rest

/-- The first declared port of a node that is not taken. -/
def freePort? (claims : Claims) (i : Nat) (n : Node) : Option Port :=
  n.component.ports.find? fun p => (i, p) ∉ claims

/-- Gives every wire its port; the first wire has position `i`. -/
def assign (nodes : List Node) : Nat → Claims → List SketchWire → Except StructuralError (List Edge)
  | _, _, [] => .ok []
  | i, claims, w :: rest =>
      match w.port, nodes[w.target]? with
      | some p, _ => (assign nodes (i + 1) claims rest).map (⟨w.source, w.target, p⟩ :: ·)
      | none, some n =>
          match freePort? claims w.target n with
          | none => .error (.excessInput n.id i)
          | some p =>
              (assign nodes (i + 1) ((w.target, p) :: claims) rest).map
                (⟨w.source, w.target, p⟩ :: ·)
      | none, none => .error (.unknownNode i (positionText w.target))

/-- The type of what comes from a source; positions outside the sketch have none. -/
def sourceType? (nodes : List Node) : Source → Option ValueType
  | .node i => (nodes[i]?).map (·.component.outputType)
  | .literal l => some l.valueType

/-- What feeds a port has to have a type that may enter it. -/
def checkType (nodes : List Node) (e : Edge) : Except StructuralError Unit :=
  match nodes[e.target]?, sourceType? nodes e.source with
  | some n, some found =>
      match n.component.inputType? e.port with
      | none => .error (.unknownPort n.id n.component e.port.name)
      | some expected =>
          if found.feeds expected then .ok ()
          else .error (.typeMismatch n.id e.port expected found)
  | _, _ => .ok ()

def checkTypes (nodes : List Node) : List Edge → Except StructuralError Unit
  | [] => .ok ()
  | e :: rest =>
      match checkType nodes e with
      | .error e => .error e
      | .ok _ => checkTypes nodes rest

/-- The edges of a sketch: every wire with its port. -/
def resolve (s : Sketch) : Except StructuralError (List Edge) :=
  match namedClaims s.nodes 0 [] s.wires with
  | .error e => .error e
  | .ok claims =>
      match assign s.nodes 0 claims s.wires with
      | .error e => .error e
      | .ok edges =>
          match checkTypes s.nodes edges with
          | .error e => .error e
          | .ok _ => .ok edges

/-! ## Edges by node -/

/-- What feeds a port of a node. -/
def feed? (edges : List Edge) (i : Nat) (p : Port) : Option Source :=
  (edges.find? fun e => e.target = i ∧ e.port = p).map (·.source)

/-- The given ports of a node with what feeds them; none may go without. -/
def feeds (edges : List Edge) (i : Nat) (n : Node) :
    List Port → Except StructuralError (List (Port × Source))
  | [] => .ok []
  | p :: rest =>
      match feed? edges i p with
      | none => .error (.unfedPort n.id p)
      | some source => (feeds edges i n rest).map ((p, source) :: ·)

/-- The feeds of some nodes, the first of which has position `i`. -/
def collect (edges : List Edge) :
    Nat → List Node → Except StructuralError (List (List (Port × Source)))
  | _, [] => .ok []
  | i, n :: rest =>
      match feeds edges i n n.component.ports with
      | .error e => .error e
      | .ok fs => (collect edges (i + 1) rest).map (fs :: ·)

end Sketch

end RuleWiring
