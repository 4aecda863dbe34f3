import Mathlib
import RuleWiring.Proofs.Reference
import RuleWiring.Proofs.Restored

/-!
# Diagrams with the same graph

Two diagrams have the same graph if they differ only in the order in which nodes and edges were
added, and in what is said about them. The positions of the nodes are then different, and so may
be the order of evaluation, so that nothing can be compared by position. Ids are what the two have
in common: no id repeats, so a node of one diagram is found again in the other by its id, and what
comes in at its ports has the same names there.
-/

namespace RuleWiring

namespace Diagram

/-- What feeds an edge: the id of a node, or a constant. -/
def sourceName (d : Diagram) : Source → String ⊕ Literal
  | .node i => .inl (d.idAt i)
  | .literal l => .inr l

/-- An edge by ids: what feeds it, the node it goes to, and the port. -/
def connection (d : Diagram) (e : Edge) : (String ⊕ Literal) × String × Port :=
  (d.sourceName e.source, d.idAt e.target, e.port)

/-- The same nodes, the same edges between them and the same output, in whatever order. -/
structure SameGraph (d d' : Diagram) : Prop where
  nodes : d.nodes.Perm d'.nodes
  edges : (d.edges.map d.connection).Perm (d'.edges.map d'.connection)
  output : d.idAt d.output = d'.idAt d'.output

variable {d d' : Diagram}

theorem SameGraph.symm (h : SameGraph d d') : SameGraph d' d :=
  ⟨h.nodes.symm, h.edges.symm, h.output.symm⟩

end Diagram

namespace Sketch.Passed

open Diagram Document

variable {s s' : Sketch} {d d' : Diagram}

/-! ## Ids and positions -/

/-- An id stands at one position. -/
theorem eq_of_idAt (h : Passed s d) {i j : Nat} (hi : i < d.nodes.length)
    (hj : j < d.nodes.length) (hid : d.idAt i = d.idAt j) : i = j := by
  have hlen : i < (d.nodes.map (·.id)).length := by rwa [List.length_map]
  refine (List.getElem?_inj hlen h.node_ids).mp ?_
  rw [List.getElem?_map, List.getElem?_map, List.getElem?_eq_getElem hi,
    List.getElem?_eq_getElem hj, Option.map_some, Option.map_some,
    ← idAt_of_getElem? (List.getElem?_eq_getElem hi), hid,
    idAt_of_getElem? (List.getElem?_eq_getElem hj)]

/-- A node of one diagram is found in the other. -/
theorem exists_position (hg : SameGraph d d') {i : Nat} {n : Node} (hn : d.nodes[i]? = some n) :
    ∃ j : Nat, d'.nodes[j]? = some n :=
  List.mem_iff_getElem?.mp (hg.nodes.mem_iff.mp (List.mem_of_getElem? hn))

/-! ## Inputs -/

/-- An edge is what comes in at its port. -/
theorem input?_of_edge (h : Passed s d) {i : Nat} {p : Port} {src : Source}
    (he : ⟨src, i, p⟩ ∈ d.edges) : d.input? i p = some src := by
  have hin := h.mem_inputsOf.mpr he
  cases hfind : (d.inputsOf i).find? (·.1 = p) with
  | none => exact absurd (decide_eq_true rfl) (List.find?_eq_none.mp hfind _ hin)
  | some f =>
      -- the feed found enters the same port, and a port has one edge
      have hp : f.1 = p := by simpa using List.find?_some hfind
      have hf := h.mem_inputsOf.mp (List.mem_of_find?_eq_some (a := f) hfind)
      have hsame := eq_of_slot_eq h.resolved.slots hf he (by rw [Edge.slot, Edge.slot, hp])
      injection hsame with hsrc
      rw [input?, hfind, Option.map_some, hsrc]

/-- **The same inputs.** What comes in at a port has the same name in both diagrams. -/
theorem input?_of_sameGraph (h : Passed s d) (h' : Passed s' d') (hg : SameGraph d d') {i j : Nat}
    {n : Node} (hn : d.nodes[i]? = some n) (hn' : d'.nodes[j]? = some n) {p : Port} {src : Source}
    (hin : d.input? i p = some src) :
    ∃ src', d'.input? j p = some src' ∧ d'.sourceName src' = d.sourceName src := by
  have hmem : d.connection ⟨src, i, p⟩ ∈ d'.edges.map d'.connection :=
    hg.edges.mem_iff.mp (List.mem_map_of_mem (h.edge_of_input? hin))
  obtain ⟨⟨src', j', p'⟩, he', hsame⟩ := List.mem_map.mp hmem
  simp only [connection, Prod.mk.injEq] at hsame
  obtain ⟨hsrc, htarget, hport⟩ := hsame
  have hj : j' = j := by
    refine h'.eq_of_idAt (fits_ends (h'.fits _ he')).1 (List.getElem?_eq_some_iff.mp hn').1 ?_
    rw [htarget, idAt_of_getElem? hn, idAt_of_getElem? hn']
  subst hj hport
  exact ⟨src', h'.input?_of_edge he', hsrc⟩

theorem input?_none_of_sameGraph (h : Passed s d) (h' : Passed s' d') (hg : SameGraph d d')
    {i j : Nat} {n : Node} (hn : d.nodes[i]? = some n) (hn' : d'.nodes[j]? = some n) {p : Port}
    (hin : d.input? i p = none) : d'.input? j p = none := by
  cases hin' : d'.input? j p with
  | none => rfl
  | some src' =>
      obtain ⟨src, hsome, _⟩ := h'.input?_of_sameGraph h hg.symm hn' hn hin'
      rw [hin] at hsome
      exact absurd hsome (by simp)

/-- What feeds a node is fed by nodes. -/
theorem exists_node_of_input? (h : Passed s d) {i j : Nat} {p : Port}
    (hin : d.input? i p = some (.node j)) : ∃ m, d.nodes[j]? = some m :=
  ⟨_, List.getElem?_eq_getElem (fits_ends (h.fits _ (h.edge_of_input? hin))).2⟩

end Sketch.Passed

namespace Sketch

/-- The diagram of `gated` drawn in another order, with other ports left open. -/
def shuffled : Sketch :=
  let s : Sketch := { metadata := { id := "shuffled", title := some "as before" } }
  let s := ((s.addNode "self" .self).addNode "pred" .pred).addNode "neighbors" .neighbors
  let s := ((s.addNode "either" .bitOr).addNode "below" .bitAnd).addNode "above" .bitOr
  let s := ((s.addNode "score" .diversity).addNode "gate" .thresholdSelect).addNode "output" .output
  let s := ((s.wire 7 8 .sigil).wire 5 7 .above).wire 4 7 .below
  let s := ((s.wirePositional 6 7).literal (.int 1) 7 (some .threshold)).wirePositional 0 3
  let s := ((s.wirePositional 1 3).wire 3 4 .b).wirePositional 0 4
  (((s.wire 0 5 .a).wirePositional 0 5).wire 2 6 .sigils).setOutput 8

/-- What becomes of `shuffled`. -/
def shuffledDiagram : Diagram := shuffled.finish.toOption.get rfl

theorem sameGraph_shuffled : gatedDiagram.SameGraph shuffledDiagram :=
  ⟨by decide +kernel, by decide +kernel, by decide +kernel⟩

end Sketch

end RuleWiring
