import Mathlib
import RuleWiring.Document.Basic
import RuleWiring.Proofs.Stages

/-!
# A document gives its diagram back

A document knows nodes by their ids. Since no id repeats in a diagram, the first node with
an id is the only one, and looking up the ids gives the positions back. What the document
of a diagram describes is thus the diagram drawn once more, with every port named and the
output designated. A sketch that draws a diagram once more passes every check, because each
check looks at what is the same as before, as long as every wire gets the port of its edge.
-/

namespace RuleWiring

/-! ## Names -/

theorem Component.ofName?_name (c : Component) : ofName? c.name = some c := by
  cases c <;> decide

theorem Port.ofName?_name (p : Port) : ofName? (Text.dropColons p.name) = some p := by
  cases p <;> decide

/-- The wire that becomes an edge, its port being named. -/
def Edge.wire (e : Edge) : SketchWire := ⟨e.source, e.target, some e.port⟩

namespace Sketch

/-- A wire that names a port names the one that its edge enters. -/
theorem named_sublist {ws : List SketchWire} {edges : List Edge}
    (h : List.Forall₂ SketchWire.Becomes ws edges) : (named ws).Sublist (edges.map Edge.slot) := by
  induction h with
  | nil => exact List.Sublist.refl _
  | @cons w e ws edges hw _ ih =>
      obtain ⟨_, ht, hp⟩ := hw
      rw [List.map_cons]
      cases hport : w.port with
      | none =>
          rw [named_cons_none hport]
          exact ih.cons _
      | some p =>
          rw [named_cons_some hport, Edge.slot, ht, hp p hport]
          exact ih.cons_cons _

/-! ## Checking once more -/

/-- A sketch of what has become a diagram. Its wires may name their ports or not, as long as each
has the port that its edge enters. -/
structure Redraws (s : Sketch) (d : Diagram) : Prop where
  metadata : s.metadata = d.metadata
  nodes : s.nodes = d.nodes
  interpretation : s.interpretation = d.interpretation
  designated : ∀ i, s.designated = some i → i = d.output
  becomes : List.Forall₂ SketchWire.Becomes s.wires d.edges
  places : ∀ k, s.edgeAt? k = d.edges[k]?

namespace Passed

variable {s s' : Sketch} {d : Diagram}

theorem getElem?_edges (h : Passed s d) (k : Nat) : d.edges[k]? = s.edgeAt? k := by
  obtain ⟨claims, hnamed, hassign, _⟩ := resolve_eq h.edges
  exact assign_edges hnamed hassign k

/-- Ports that are named are there to be taken: each was taken before, and by no two wires. -/
theorem redraws_wires (h : Passed s d) (hr : s'.Redraws d) : s'.Meets .wires := by
  refine ⟨fun w hw => ?_, fun w hw p n hp hn => ?_, ?_⟩
  · obtain ⟨e, he, hs, ht, _⟩ := exists_of_forall₂ hr.becomes w hw
    have hends := fits_ends (h.fits e he)
    rw [hs, ht, ← hr.nodes] at hends
    exact hends
  · obtain ⟨e, he, _, ht, hport⟩ := exists_of_forall₂ hr.becomes w hw
    obtain ⟨m, expected, _, hm, hdeclared, _⟩ := h.fits e he
    rw [hport p hp] at hdeclared
    rw [ht, ← hr.nodes, hn] at hm
    injection hm with hm
    subst hm
    exact Component.mem_ports_of_inputType? hdeclared
  · exact (named_sublist hr.becomes).nodup h.resolved.slots

theorem redraws_resolve (h : Passed s d) (hr : s'.Redraws d) : s'.resolve = .ok d.edges := by
  have hplaces : s'.Meets .places := by
    intro k hk
    rw [hr.becomes.length_eq] at hk
    rw [hr.places]
    exact ⟨_, List.getElem?_eq_getElem hk⟩
  have htypes : s'.Meets .types := by
    intro k e he
    rw [hr.places] at he
    rw [hr.nodes]
    exact h.fits e (List.mem_of_getElem? he)
  obtain ⟨edges, hedges⟩ := resolve_ok_iff.mpr ⟨h.redraws_wires hr, hplaces, htypes⟩
  obtain ⟨claims, hnamed, hassign, _⟩ := resolve_eq hedges
  have hsame : edges = d.edges :=
    List.ext_getElem? fun k => (assign_edges hnamed hassign k).trans (hr.places k)
  rwa [hsame] at hedges

theorem redraws_output (h : Passed s d) (hr : s'.Redraws d) :
    chooseOutput s'.nodes s'.designated = .ok d.output := by
  have hone := (chooseOutput_spec h.output).1
  rw [← h.nodes, ← hr.nodes] at hone
  obtain ⟨o, ho⟩ := chooseOutput_ok_iff.mpr (⟨d.output, hone, hr.designated⟩ : s'.Meets .output)
  obtain ⟨hone', _⟩ := chooseOutput_spec ho
  rwa [(hone o).mp ((hone' o).mpr rfl)] at ho

/-- **Drawn once more, it is the same diagram.** -/
theorem finish_of_redraws (h : Passed s d) (hr : s'.Redraws d) : s'.finish = .ok d := by
  have hids := h.ids
  have hwires := h.wires
  have horder := h.order
  have hstranded := h.stranded
  rw [← h.nodes, ← hr.nodes] at hids hwires horder hstranded
  simp only [finish, hids, h.redraws_resolve hr, hwires, h.redraws_output hr, horder, hstranded]
  rw [hr.metadata, hr.nodes, hr.interpretation]

end Passed

end Sketch

namespace Diagram

/-- A diagram drawn once more, all ports named and the output designated. -/
def redrawn (d : Diagram) : Sketch where
  metadata := d.metadata
  nodes := d.nodes
  wires := d.edges.map Edge.wire
  designated := some d.output
  interpretation := d.interpretation

end Diagram

/-! ## Reading a document -/

namespace Document

theorem readNodes_entries : ∀ nodes : List Node,
    readNodes (nodes.map Diagram.nodeEntry) = .ok nodes
  | [] => rfl
  | n :: nodes => by
      rw [List.map_cons, readNodes, Diagram.nodeEntry, Component.ofName?_name]
      dsimp only
      rw [readNodes_entries nodes]
      rfl

/-- Where no id repeats, the id of a node leads back to it. -/
theorem lookup?_id {nodes : List Node} (hids : (nodes.map (·.id)).Nodup) {i : Nat} {n : Node}
    (hn : nodes[i]? = some n) : lookup? nodes n.id = some (n, i) := by
  have hmem : (n, i) ∈ nodes.zipIdx := List.mem_zipIdx_iff_getElem?.mpr hn
  cases hfind : lookup? nodes n.id with
  | none => exact absurd (decide_eq_true rfl) (List.find?_eq_none.mp hfind _ hmem)
  | some found =>
      -- the node found has the id too, so that it stands at the same position
      obtain ⟨m, j⟩ := found
      have hm : nodes[j]? = some m :=
        List.mem_zipIdx_iff_getElem?.mp (List.mem_of_find?_eq_some hfind)
      have hid : m.id = n.id := by simpa using List.find?_some hfind
      have hj : j < (nodes.map (·.id)).length := by
        rw [List.length_map]
        exact (List.getElem?_eq_some_iff.mp hm).1
      have hij : j = i := by
        refine (List.getElem?_inj hj hids).mp ?_
        rw [List.getElem?_map, List.getElem?_map, hm, hn, Option.map_some, Option.map_some, hid]
      subst hij
      rw [hn] at hm
      injection hm with hm
      rw [hm]

section Entries

variable {d : Diagram}

theorem idAt_of_getElem? {i : Nat} {n : Node} (hn : d.nodes[i]? = some n) : d.idAt i = n.id := by
  rw [Diagram.idAt, hn]
  rfl

theorem lookup?_idAt (hids : (d.nodes.map (·.id)).Nodup) {i : Nat} (hi : i < d.nodes.length) :
    lookup? d.nodes (d.idAt i) = some (d.nodes[i], i) := by
  have hn := List.getElem?_eq_getElem hi
  rw [idAt_of_getElem? hn]
  exact lookup?_id hids hn

/-- An edge between existing nodes is read as the wire that names its port. -/
theorem readEdge_entry (hids : (d.nodes.map (·.id)).Nodup) {e : Edge}
    (ht : e.target < d.nodes.length) (hs : e.source.Within d.nodes.length) (i : Nat) :
    readEdge d.nodes i (d.edgeEntry e) = .ok e.wire := by
  obtain ⟨source, target, port⟩ := e
  have hport : readPort d.nodes[target] (some port.name) = .ok (some port) := by
    rw [readPort, Port.ofName?_name]
  cases source with
  | node j =>
      have hj : j < d.nodes.length := hs
      simp only [Diagram.edgeEntry, readEdge, lookup?_idAt hids ht, hport, readSource,
        lookup?_idAt hids hj]
      rfl
  | literal l =>
      simp only [Diagram.edgeEntry, readEdge, lookup?_idAt hids ht, hport]
      rfl

theorem readEdges_entries (hids : (d.nodes.map (·.id)).Nodup) : ∀ (edges : List Edge) (i : Nat),
    (∀ e ∈ edges, e.target < d.nodes.length ∧ e.source.Within d.nodes.length) →
    readEdges d.nodes i (edges.map d.edgeEntry) = .ok (edges.map Edge.wire)
  | [], _, _ => rfl
  | e :: edges, i, h => by
      have he := h e (List.mem_cons_self ..)
      rw [List.map_cons, readEdges, readEdge_entry hids he.1 he.2]
      dsimp only
      rw [readEdges_entries hids edges (i + 1) fun x hx => h x (List.mem_cons_of_mem _ hx)]
      rfl

end Entries

end Document

/-! ## The document of a diagram -/

namespace Sketch.Passed

variable {s : Sketch} {d : Diagram}

theorem toSketch (h : Passed s d) : d.toDocument.toSketch = .ok d.redrawn := by
  have hedges := Document.readEdges_entries h.node_ids d.edges 0 fun e he => fits_ends (h.fits e he)
  rw [Document.toSketch, Diagram.toDocument]
  dsimp only
  rw [Document.readNodes_entries]
  dsimp only
  rw [hedges]
  dsimp only
  rw [Document.lookup?_idAt h.node_ids h.output_spec.1]
  rfl

/-- The edge that a wire of the new drawing stands for is the one it was made of. -/
theorem redrawn_edgeAt? (d : Diagram) (k : Nat) : d.redrawn.edgeAt? k = d.edges[k]? := by
  rw [edgeAt?, Diagram.redrawn, List.getElem?_map]
  cases d.edges[k]? with
  | none => rfl
  | some e => rfl

theorem redraws_redrawn (d : Diagram) : d.redrawn.Redraws d where
  metadata := rfl
  nodes := rfl
  interpretation := rfl
  designated := fun _ hi => (Option.some.inj hi).symm
  becomes := List.forall₂_map_left_iff.mpr
    (List.forall₂_same.mpr fun _ _ => ⟨rfl, rfl, fun _ hp => Option.some.inj hp⟩)
  places := redrawn_edgeAt? d

/-- The diagram drawn once more is the same diagram. -/
theorem finish_redrawn (h : Passed s d) : d.redrawn.finish = .ok d :=
  h.finish_of_redraws (redraws_redrawn d)

theorem toDiagram_toDocument (h : Passed s d) : d.toDocument.toDiagram = .ok d := by
  rw [Document.toDiagram, h.toSketch]
  exact h.finish_redrawn

end Sketch.Passed

end RuleWiring
