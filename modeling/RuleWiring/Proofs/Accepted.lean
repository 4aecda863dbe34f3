import Mathlib
import RuleWiring.Diagram.Finish
import RuleWiring.Proofs.Order
import RuleWiring.Proofs.Ports

/-!
# What holds of every diagram

A sketch may hold anything. `Sketch.finish` runs its checks one after the other, and a sketch
that passes them all becomes a diagram; this file collects what each of the checks
contributes and puts it together in `Diagram.WellFormed`.

The edges and the wires of a diagram are two views of the same graph. That they agree is
not checked anywhere: it follows from how the wires were made, because no port has two
edges.
-/

namespace RuleWiring

namespace Diagram

/-- An edge leads from the first node to the second. -/
def Feeds (d : Diagram) (i j : Nat) : Prop := ∃ e ∈ d.edges, e.source = .node i ∧ e.target = j

/-- All that is promised of a diagram. -/
structure WellFormed (d : Diagram) : Prop where
  /-- No two nodes have the same id. -/
  ids : (d.nodes.map (·.id)).Nodup
  /-- Both ends of an edge exist. -/
  ends : ∀ e ∈ d.edges, e.target < d.nodes.length ∧ e.source.Within d.nodes.length
  /-- An edge enters a declared port, and its source has a type that may enter there. -/
  typed : ∀ e ∈ d.edges, Sketch.Fits d.nodes e
  /-- Exactly one edge enters every declared port. -/
  fed : ∀ i n, d.nodes[i]? = some n → ∀ p ∈ n.component.ports,
    d.edges.countP (fun e => e.slot = (i, p)) = 1
  /-- The inputs of a node stand in the order in which its ports are declared. -/
  ports : ∀ i n, d.nodes[i]? = some n → (d.inputsOf i).map Prod.fst = n.component.ports
  /-- The inputs of a node are the edges that enter it. -/
  inputs : ∀ i p src, (p, src) ∈ d.inputsOf i ↔ ⟨src, i, p⟩ ∈ d.edges
  /-- The order lists every node once. -/
  orderPerm : d.order.Perm (List.range d.nodes.length)
  /-- A node comes after all that feed it. -/
  orderBefore : ∀ i j, d.Feeds i j → d.order.idxOf i < d.order.idxOf j
  /-- The output exists. -/
  outputExists : d.output < d.nodes.length
  /-- It is the one output terminal. -/
  outputOnly : ∀ i n, d.nodes[i]? = some n → (n.component = .output ↔ i = d.output)
  /-- Every node but the context extractors has a way to the output. -/
  reaches : ∀ i n, d.nodes[i]? = some n → n.component.isSource = false →
    Relation.ReflTransGen d.Feeds i d.output

end Diagram

theorem Component.mem_ports_of_inputType? {c : Component} {p : Port} {t : ValueType}
    (h : c.inputType? p = some t) : p ∈ c.ports := by
  obtain ⟨f, hf, _⟩ := Option.map_eq_some_iff.mp h
  have hp := List.find?_some hf
  simp only [decide_eq_true_eq] at hp
  exact List.mem_map.mpr ⟨f, List.mem_of_find?_eq_some hf, hp⟩

namespace Sketch

/-! ## The checks one by one -/

theorem firstRepeated?_none : ∀ (ids : List String) {seen : List String},
    firstRepeated? seen ids = none → ids.Nodup ∧ ∀ id ∈ ids, id ∉ seen
  | [], _, _ => ⟨List.nodup_nil, by simp⟩
  | id :: ids, seen, h => by
      rw [firstRepeated?] at h
      split at h
      · exact absurd h (by simp)
      · rename_i hid
        have ih := firstRepeated?_none ids h
        refine ⟨List.nodup_cons.mpr ⟨fun hm => ih.2 id hm (List.mem_cons_self ..), ih.1⟩, ?_⟩
        intro x hx
        rcases List.mem_cons.mp hx with hx | hx
        · exact hx ▸ hid
        · exact fun hs => ih.2 x hx (List.mem_cons_of_mem _ hs)

theorem mem_terminals {nodes : List Node} {n : Node} {i : Nat} :
    (n, i) ∈ terminals nodes ↔ nodes[i]? = some n ∧ n.component = .output := by
  rw [terminals, List.mem_filter, List.mem_zipIdx_iff_getElem?]
  simp

/-- Of at most one output terminal, the one chosen. -/
theorem chooseOutput_ok {nodes : List Node} {designated : Option Nat} {o : Nat}
    (h : chooseOutput nodes designated = .ok o) :
    ∃ n, terminals nodes = [(n, o)] := by
  unfold chooseOutput at h
  split at h
  · exact absurd h (by simp)
  · rename_i hfew
    have hone : ∀ n, (n, o) ∈ terminals nodes → terminals nodes = [(n, o)] := by
      intro n hn
      match ht : terminals nodes with
      | [] => rw [ht] at hn; exact absurd hn (by simp)
      | [t] => rw [ht] at hn; rw [List.mem_singleton.mp hn]
      | t :: t' :: rest => exact absurd ht (hfew t t' rest)
    split at h
    · rename_i i
      split at h
      · exact absurd h (by simp)
      · rename_i n hn
        split at h
        · rename_i hout
          injection h with h
          subst h
          exact ⟨n, hone n (mem_terminals.mpr ⟨hn, hout⟩)⟩
        · exact absurd h (by simp)
    · split at h
      · exact absurd h (by simp)
      · rename_i t rest ht
        injection h with h
        subst h
        exact ⟨t.1, hone t.1 (by rw [ht]; exact List.mem_cons_self ..)⟩

theorem firstStranded?_none {nodes : List Node} {edges : List Edge} {order : List Nat}
    {output : Nat} (h : firstStranded? nodes edges order output = none) {i : Nat} {n : Node}
    (hn : nodes[i]? = some n) (hs : n.component.isSource = false) :
    i ∈ Order.reaching (links edges) output order := by
  rw [firstStranded?, Option.map_eq_none_iff, List.find?_eq_none] at h
  by_contra hr
  exact h (n, i) (List.mem_zipIdx_iff_getElem?.mpr hn) (by simp [hr, hs])

theorem fits_ends {nodes : List Node} {e : Edge} (h : Fits nodes e) :
    e.target < nodes.length ∧ e.source.Within nodes.length := by
  obtain ⟨n, _, found, hn, _, hf, _⟩ := h
  refine ⟨(List.getElem?_eq_some_iff.mp hn).1, ?_⟩
  cases hs : e.source with
  | literal l => trivial
  | node i =>
      rw [hs, sourceType?] at hf
      obtain ⟨m, hm, _⟩ := Option.map_eq_some_iff.mp hf
      exact (List.getElem?_eq_some_iff.mp hm).1

/-- A sketch that has passed all checks, and the diagram it has become. -/
structure Passed (s : Sketch) (d : Diagram) : Prop where
  nodes : d.nodes = s.nodes
  ids : firstRepeated? [] (s.nodes.map (·.id)) = none
  edges : s.resolve = .ok d.edges
  wires : collect d.edges 0 s.nodes = .ok d.wires
  output : chooseOutput s.nodes s.designated = .ok d.output
  order : evaluationOrder s.nodes d.edges = .ok d.order
  stranded : firstStranded? s.nodes d.edges d.order d.output = none

theorem finish_passed {s : Sketch} {d : Diagram} (h : s.finish = .ok d) : Passed s d := by
  unfold finish at h
  split at h
  · exact absurd h (by simp)
  · rename_i hids
    split at h
    · exact absurd h (by simp)
    · rename_i edges hedges
      split at h
      · exact absurd h (by simp)
      · rename_i wires hwires
        split at h
        · exact absurd h (by simp)
        · rename_i output houtput
          split at h
          · exact absurd h (by simp)
          · rename_i order horder
            split at h
            · exact absurd h (by simp)
            · rename_i hstranded
              injection h with h
              subst h
              exact ⟨rfl, hids, hedges, hwires, houtput, horder, hstranded⟩

namespace Passed

variable {s : Sketch} {d : Diagram}

theorem resolved (h : Passed s d) : Resolved s d.edges := resolve_resolved h.edges

theorem fits (h : Passed s d) : ∀ e ∈ d.edges, Fits d.nodes e := by
  rw [h.nodes]
  exact h.resolved.fits

theorem node_ids (h : Passed s d) : (d.nodes.map (·.id)).Nodup := by
  rw [h.nodes]
  exact (firstRepeated?_none _ h.ids).1

/-- The inputs of a node are the feeds found for its ports. -/
theorem inputsOf_spec (h : Passed s d) {i : Nat} {n : Node} (hn : d.nodes[i]? = some n) :
    (d.inputsOf i).map Prod.fst = n.component.ports ∧
      ∀ f ∈ d.inputsOf i, feed? d.edges i f.1 = some f.2 := by
  obtain ⟨fs, hfs, hfeeds⟩ := (collect_ok _ h.wires).2 i n (h.nodes ▸ hn)
  rw [Nat.zero_add] at hfeeds
  rw [Diagram.inputsOf, hfs]
  exact feeds_ok _ hfeeds

/-- No inputs are listed where there is no node. -/
theorem inputsOf_beyond (h : Passed s d) {i : Nat} (hi : d.nodes.length ≤ i) :
    d.inputsOf i = [] := by
  have hlen := (collect_ok _ h.wires).1
  rw [← h.nodes] at hlen
  rw [Diagram.inputsOf, List.getElem?_eq_none (by omega)]
  rfl

/-- **The two views agree.** An edge enters a declared port, so the feed listed for this port
is the edge's; and what is listed was found among the edges. -/
theorem mem_inputsOf (h : Passed s d) {i : Nat} {p : Port} {src : Source} :
    (p, src) ∈ d.inputsOf i ↔ ⟨src, i, p⟩ ∈ d.edges := by
  have hslots := h.resolved.slots
  constructor
  · intro hin
    cases hn : d.nodes[i]? with
    | none =>
        rw [h.inputsOf_beyond (List.getElem?_eq_none_iff.mp hn)] at hin
        exact absurd hin (by simp)
    | some n => exact (feed?_eq_some hslots).mp ((h.inputsOf_spec hn).2 _ hin)
  · intro he
    obtain ⟨n, expected, _, hn, hport, _, _⟩ := h.fits _ he
    obtain ⟨hports, hfeeds⟩ := h.inputsOf_spec hn
    have hp : p ∈ (d.inputsOf i).map Prod.fst := by
      rw [hports]
      exact Component.mem_ports_of_inputType? hport
    obtain ⟨f, hf, hfp⟩ := List.mem_map.mp hp
    have hfeed := hfeeds f hf
    rw [hfp, (feed?_eq_some hslots).mpr he] at hfeed
    have hsrc : src = f.2 := Option.some.inj hfeed
    rw [← hfp, hsrc]
    exact hf

/-- Every declared port is entered by one edge: at least one, because a feed was found for
it, and at most one, because the ports were given out once. -/
theorem fed_once (h : Passed s d) {i : Nat} {n : Node} (hn : d.nodes[i]? = some n) {p : Port}
    (hp : p ∈ n.component.ports) : d.edges.countP (fun e => e.slot = (i, p)) = 1 := by
  obtain ⟨hports, hfeeds⟩ := h.inputsOf_spec hn
  rw [← hports] at hp
  obtain ⟨f, hf, hfp⟩ := List.mem_map.mp hp
  have he : ⟨f.2, i, p⟩ ∈ d.edges := by
    rw [← hfp]
    exact h.mem_inputsOf.mp hf
  have hmem : (i, p) ∈ d.edges.map Edge.slot := List.mem_map.mpr ⟨_, he, rfl⟩
  have hcount := List.count_eq_one_of_mem h.resolved.slots hmem
  rw [List.count, List.countP_map] at hcount
  rw [← hcount]
  exact List.countP_congr fun e _ => by simp

theorem legal (h : Passed s d) : Order.Legal d.nodes.length (links d.edges) d.order := by
  rw [h.nodes]
  exact (evaluationOrder_ok h.order).1

theorem order_perm (h : Passed s d) : d.order.Perm (List.range d.nodes.length) := by
  rw [h.nodes]
  exact (evaluationOrder_ok h.order).2

theorem feeds_iff {i j : Nat} : d.Feeds i j ↔ (i, j) ∈ links d.edges :=
  (mem_links (l := (i, j))).symm

theorem feeds_below (h : Passed s d) {i j : Nat} (hf : d.Feeds i j) : j < d.nodes.length := by
  obtain ⟨e, he, _, ht⟩ := hf
  obtain ⟨n, _, _, hn, _⟩ := h.fits e he
  rw [ht] at hn
  exact (List.getElem?_eq_some_iff.mp hn).1

/-- A node comes after all that feed it. -/
theorem feeds_before (h : Passed s d) {i j : Nat} (hf : d.Feeds i j) :
    d.order.idxOf i < d.order.idxOf j := by
  refine h.legal.before (i, j) (feeds_iff.mp hf) ?_
  exact h.order_perm.mem_iff.mpr (List.mem_range.mpr (h.feeds_below hf))

theorem output_spec (h : Passed s d) : d.output < d.nodes.length ∧
    ∀ i n, d.nodes[i]? = some n → (n.component = .output ↔ i = d.output) := by
  obtain ⟨o, ho⟩ := chooseOutput_ok h.output
  rw [← h.nodes] at ho
  have hmem : (o, d.output) ∈ terminals d.nodes := by rw [ho]; exact List.mem_cons_self ..
  obtain ⟨hnode, hout⟩ := mem_terminals.mp hmem
  refine ⟨(List.getElem?_eq_some_iff.mp hnode).1, fun i n hn => ⟨fun hc => ?_, fun hi => ?_⟩⟩
  · have hin := mem_terminals.mpr ⟨hn, hc⟩
    rw [ho, List.mem_singleton] at hin
    exact congrArg Prod.snd hin
  · subst hi
    rw [hnode] at hn
    exact Option.some.inj hn ▸ hout

theorem reaches_output (h : Passed s d) {i : Nat} {n : Node} (hn : d.nodes[i]? = some n)
    (hs : n.component.isSource = false) : Relation.ReflTransGen d.Feeds i d.output := by
  have hr := firstStranded?_none h.stranded (h.nodes ▸ hn) hs
  exact Relation.ReflTransGen.mono (fun _ _ hab => feeds_iff.mpr hab) _ _
    (Order.reaching_sound _ hr)

end Passed

/-- A gate with a hidden condition, whose branches agree but are not built alike: the cell
joined with itself, and the cell together with what is set in it or in its neighbour. There
are parallel wires, wires with and without a port, and a constant as the threshold. -/
def gated : Sketch :=
  let s : Sketch := { metadata := { id := "gated" } }
  let s := ((s.addNode "output" .output).addNode "gate" .thresholdSelect).addNode "above" .bitOr
  let s := ((s.addNode "below" .bitAnd).addNode "either" .bitOr).addNode "self" .self
  let s := ((s.addNode "pred" .pred).addNode "neighbors" .neighbors).addNode "score" .diversity
  let s := ((s.wire 5 2 .b).wirePositional 5 2).wirePositional 7 8
  let s := ((s.wirePositional 5 3).wirePositional 4 3).wire 6 4 .b
  let s := ((s.wire 5 4 .a).wire 3 1 .below).wire 2 1 .above
  ((s.wirePositional 8 1).literal (.int 1) 1 none).wirePositional 1 0

/-- What becomes of `gated`. -/
def gatedDiagram : Diagram := gated.finish.toOption.get rfl

/-! ## All of it -/

/--
**A sketch that passes becomes a well-formed diagram of what was drawn.**

The sketch is arbitrary: its nodes and wires may have been added in any order, with any ids,
at any positions, with or without ports. The diagram has the nodes of the sketch, and its
edges are the wires of the sketch in the same order, each with the port it named.
-/
theorem finish_wellFormed {s : Sketch} {d : Diagram} (h : s.finish = .ok d) :
    d.WellFormed ∧ d.nodes = s.nodes ∧ List.Forall₂ SketchWire.Becomes s.wires d.edges := by
  have hp := finish_passed h
  refine ⟨?_, hp.nodes, hp.resolved.becomes⟩
  exact {
    ids := hp.node_ids
    ends := fun e he => fits_ends (hp.fits e he)
    typed := hp.fits
    fed := fun i n hn p hport => hp.fed_once hn hport
    ports := fun i n hn => (hp.inputsOf_spec hn).1
    inputs := fun i p src => hp.mem_inputsOf
    orderPerm := hp.order_perm
    orderBefore := fun i j hf => hp.feeds_before hf
    outputExists := hp.output_spec.1
    outputOnly := hp.output_spec.2
    reaches := fun i n hn hs => hp.reaches_output hn hs }

theorem finish_wellFormed_gated : gated.finish = .ok gatedDiagram ∧ gatedDiagram.WellFormed
    ∧ gatedDiagram.edges.length = 12 :=
  ⟨rfl, (finish_wellFormed (s := gated) rfl).1, rfl⟩

end Sketch

end RuleWiring
