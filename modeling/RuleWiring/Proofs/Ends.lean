import Mathlib
import RuleWiring.Proofs.Drawing
import RuleWiring.Proofs.Shapes

/-!
# Where the order begins and where it ends

Nothing is checked about the first node of the order or about the last one. That the context
extractors come first, all of them, follows from two things. The visits go first in, first out, so
they begin with the nodes that nothing feeds. And no other node is among these: each has a port for
a sigil or for several, and no constant may enter there.

That the output comes last, and feeds nothing, follows from the way that every other node has to
it: an edge from the output would lead to a node that comes back to it.
-/

namespace RuleWiring

/-! ## First in, first out -/

namespace Order

variable {n : Nat} {ls : List Link}

theorem suffix_visit : ∀ (fuel : Nat) (queue done : List Nat), done <:+ visit n ls fuel queue done
  | 0, _, done => List.suffix_refl done
  | _ + 1, [], done => List.suffix_refl done
  | fuel + 1, v :: _, done => (List.suffix_cons v done).trans (suffix_visit fuel _ _)

/-- What stands in the queue is visited in this order, whatever joins it meanwhile. -/
theorem queue_suffix_visit : ∀ (queue more done : List Nat) {fuel : Nat},
    queue.length ≤ fuel → queue.reverse ++ done <:+ visit n ls fuel (queue ++ more) done
  | [], more, done, fuel, _ => suffix_visit fuel more done
  | _ :: _, _, _, 0, h => absurd h (by simp)
  | v :: queue, _, _, fuel + 1, h => by
      rw [List.length_cons] at h
      rw [List.reverse_cons, List.append_assoc, List.singleton_append, List.cons_append, visit,
        List.append_assoc]
      exact queue_suffix_visit queue _ _ (by omega)

theorem sources_prefix_run (n : Nat) (ls : List Link) : sources n ls <+: run n ls := by
  have hlen : (sources n ls).length ≤ n := by
    have hsub : (sources n ls).Sublist (List.range n) := List.filter_sublist
    simpa using hsub.length_le
  have hsuffix : (sources n ls).reverse ++ [] <:+ visit n ls n (sources n ls ++ []) [] :=
    queue_suffix_visit _ [] [] hlen
  rw [List.append_nil, List.append_nil] at hsuffix
  rw [run, ← List.reverse_suffix, List.reverse_reverse]
  exact hsuffix

theorem mem_sources {v : Nat} : v ∈ sources n ls ↔ v < n ∧ ∀ l ∈ ls, l.2 ≠ v := by
  rw [sources, List.mem_filter, List.mem_range, decide_eq_true_eq, pending_eq_zero]
  simp

end Order

/-! ## What feeds a node -/

/-- Everything but a context extractor takes a sigil or several. -/
theorem Component.exists_sigil {c : Component} (h : c.isSource = false) :
    ∃ f ∈ c.inputs, f.2 = .sigil ∨ f.2 = .sigils := by
  revert h
  cases c <;> decide

namespace Sketch.Passed

variable {s : Sketch} {d : Diagram} {i j : Nat} {n m : Node}

theorem not_feeds_source (h : Passed s d) (hm : d.nodes[j]? = some m)
    (hs : m.component.isSource = true) (i : Nat) : ¬ d.Feeds i j := by
  rintro ⟨e, he, _, rfl⟩
  obtain ⟨x, _, _, hx, hport, _⟩ := h.fits e he
  rw [hm] at hx
  injection hx with hx
  subst hx
  have hnot := Component.isSource_of_port (Component.mem_ports_of_inputType? hport)
  rw [hs] at hnot
  exact absurd hnot (by simp)

/-- A node feeds every node but the context extractors: a constant is no sigil. -/
theorem exists_feeder (h : Passed s d) (hm : d.nodes[j]? = some m)
    (hs : m.component.isSource = false) : ∃ i x, d.nodes[i]? = some x ∧ d.Feeds i j := by
  obtain ⟨⟨p, t⟩, hf, ht⟩ := Component.exists_sigil hs
  obtain ⟨i, x, _, hedge, hx, _⟩ := h.exists_node hm (Component.inputType?_eq hf) ht
  exact ⟨i, x, hx, _, hedge, rfl, rfl⟩

theorem mem_sources_iff (h : Passed s d) (hm : d.nodes[j]? = some m) :
    j ∈ Order.sources d.nodes.length (links d.edges) ↔ m.component.isSource = true := by
  have hj : j < d.nodes.length := (List.getElem?_eq_some_iff.mp hm).1
  rw [Order.mem_sources, and_iff_right hj]
  constructor
  · intro hfree
    by_contra hs
    obtain ⟨i, _, _, hfeeds⟩ := h.exists_feeder hm (by simpa using hs)
    exact hfree _ (feeds_iff.mp hfeeds) rfl
  · rintro hs ⟨i, k⟩ hl rfl
    exact h.not_feeds_source hm hs i (feeds_iff.mpr hl)

/-! ## The order -/

theorem sources_prefix (h : Passed s d) :
    Order.sources d.nodes.length (links d.edges) <+: d.order := by
  obtain ⟨hrun, _⟩ := run_of_evaluationOrder_ok h.order
  rw [hrun, h.nodes]
  exact Order.sources_prefix_run ..

/-- **Context extractors come first.** -/
theorem source_before (h : Passed s d) (hn : d.nodes[i]? = some n) (hm : d.nodes[j]? = some m)
    (hi : n.component.isSource = true) (hj : m.component.isSource = false) :
    d.order.idxOf i < d.order.idxOf j := by
  obtain ⟨rest, hrest⟩ := h.sources_prefix
  have himem := (h.mem_sources_iff hn).mpr hi
  have hjmem : j ∉ Order.sources d.nodes.length (links d.edges) := by
    rw [h.mem_sources_iff hm, hj]
    simp
  rw [← hrest, List.idxOf_append_of_mem himem, List.idxOf_append_of_notMem hjmem]
  exact Nat.lt_of_lt_of_le (List.idxOf_lt_length_of_mem himem) (Nat.le_add_right ..)

/-- **Every other node has a context extractor behind it.** Going back from feeder to feeder comes
to earlier and earlier places, and only a context extractor has no feeder. -/
theorem exists_source (h : Passed s d) {j : Nat} {m : Node} (hm : d.nodes[j]? = some m)
    (hs : m.component.isSource = false) : ∃ i n, d.nodes[i]? = some n
      ∧ n.component.isSource = true ∧ Relation.TransGen d.Feeds i j := by
  obtain ⟨i, x, hx, hfeeds⟩ := h.exists_feeder hm hs
  -- the feeder stands earlier in the order, which is what the recursion goes down by
  have hbefore := h.feeds_before hfeeds
  cases hi : x.component.isSource with
  | true => exact ⟨i, x, hx, hi, .single hfeeds⟩
  | false =>
      obtain ⟨k, n, hn, hk, hway⟩ := h.exists_source hx hi
      exact ⟨k, n, hn, hk, hway.tail hfeeds⟩
termination_by d.order.idxOf j

theorem way_before (h : Passed s d) (hij : Relation.TransGen d.Feeds i j) :
    d.order.idxOf i < d.order.idxOf j := by
  induction hij with
  | single hf => exact h.feeds_before hf
  | tail _ hf ih => exact Nat.lt_trans ih (h.feeds_before hf)

theorem exists_output (h : Passed s d) :
    ∃ o, d.nodes[d.output]? = some o ∧ o.component = .output := by
  obtain ⟨hlt, honly⟩ := h.output_spec
  have ho := List.getElem?_eq_getElem hlt
  exact ⟨_, ho, (honly _ _ ho).mpr rfl⟩

/-- What the output fed would have a way back to it. -/
theorem output_feeds_nothing (h : Passed s d) (j : Nat) : ¬ d.Feeds d.output j := by
  intro hfeeds
  have hj := h.feeds_below hfeeds
  have hm := List.getElem?_eq_getElem hj
  have hs : d.nodes[j].component.isSource = false := by
    cases hs : d.nodes[j].component.isSource with
    | false => rfl
    | true => exact absurd hfeeds (h.not_feeds_source hm hs _)
  -- `j` is no context extractor, since something feeds it, and so it has a way to the output
  have hcycle := Relation.TransGen.head' hfeeds (h.reaches_output hm hs)
  exact Nat.lt_irrefl _ (h.way_before hcycle)

theorem before_output (h : Passed s d) (hi : i < d.nodes.length) (hne : i ≠ d.output) :
    d.order.idxOf i < d.order.idxOf d.output := by
  have hn := List.getElem?_eq_getElem hi
  cases hs : d.nodes[i].component.isSource with
  | true =>
      -- a context extractor need not have a way to the output, but the output is none itself
      obtain ⟨o, ho, hout⟩ := h.exists_output
      exact h.source_before hn ho hs (by rw [hout]; rfl)
  | false =>
      rcases Relation.reflTransGen_iff_eq_or_transGen.mp (h.reaches_output hn hs) with he | hway
      · exact absurd he.symm hne
      · exact h.way_before hway

/-- **The output comes last.** -/
theorem getLast?_order (h : Passed s d) : d.order.getLast? = some d.output := by
  have hperm := h.order_perm
  have hlen := hperm.length_eq
  rw [List.length_range] at hlen
  have hpos : d.nodes.length - 1 < d.order.length := by
    have := h.output_spec.1
    omega
  have hlast := List.getElem?_eq_getElem hpos
  rw [List.getLast?_eq_getElem?, hlen, hlast]
  by_contra hne
  -- the last node would come before the output
  have hmem := hperm.mem_iff.mp (List.getElem_mem hpos)
  have hlt := h.before_output (List.mem_range.mp hmem) fun he => hne (congrArg some he)
  have hnd := hperm.nodup_iff.mpr List.nodup_range
  rw [hnd.idxOf_getElem] at hlt
  have hout := hperm.mem_iff.mpr (List.mem_range.mpr h.output_spec.1)
  have := List.idxOf_lt_length_of_mem hout
  omega

end Sketch.Passed

/-! ## All of it -/

/-- What the order of a diagram begins with, and what it ends with. -/
structure Diagram.Ends (d : Diagram) : Prop where
  /-- Every node has its place in the order, and one only. -/
  each : d.order.Perm (List.range d.nodes.length)
  /-- There is one terminal. -/
  unique : ∀ i n, d.nodes[i]? = some n → (n.component = .output ↔ i = d.output)
  /-- The output feeds nothing. -/
  terminal : ∀ e ∈ d.edges, e.source ≠ .node d.output
  /-- It is the last node of the order. -/
  last : d.order.getLast? = some d.output
  /-- All context extractors come before all other nodes. -/
  first : ∀ i j n m, d.nodes[i]? = some n → d.nodes[j]? = some m →
    n.component.isSource = true → m.component.isSource = false → d.order.idxOf i < d.order.idxOf j
  /-- Every other node has a context extractor behind it. -/
  fed : ∀ j m, d.nodes[j]? = some m → m.component.isSource = false →
    ∃ i n, d.nodes[i]? = some n ∧ n.component.isSource = true ∧ Relation.TransGen d.Feeds i j
  /-- So has the output, which therefore does not depend on constants alone. -/
  output : ∃ i n, d.nodes[i]? = some n ∧ n.component.isSource = true
    ∧ Relation.TransGen d.Feeds i d.output
  /-- There are a context extractor and the output. -/
  two : 2 ≤ d.nodes.length

/--
**The order runs from the context extractors to the output.**

The sketch is arbitrary. Of the diagram that it becomes, the output feeds no edge and stands last,
all context extractors stand in front of all other nodes, and every other node can be traced back
to one of them.
-/
theorem finish_ends {s : Sketch} {d : Diagram} (h : s.finish = .ok d) : d.Ends := by
  have hp := Sketch.finish_passed h
  obtain ⟨o, ho, hout⟩ := hp.exists_output
  obtain ⟨i, n, hn, hs, hway⟩ := hp.exists_source ho (by rw [hout]; rfl)
  refine ⟨hp.order_perm, hp.output_spec.2, fun e he hsource => ?_, hp.getLast?_order,
    fun _ _ _ _ => hp.source_before, fun _ _ => hp.exists_source, ⟨i, n, hn, hs, hway⟩, ?_⟩
  · exact hp.output_feeds_nothing e.target ⟨e, he, hsource, rfl⟩
  · have hne : i ≠ d.output := fun he => Nat.lt_irrefl _ (he ▸ hp.way_before hway)
    have hi := (List.getElem?_eq_some_iff.mp hn).1
    have ho := hp.output_spec.1
    omega

theorem finish_ends_gated : Sketch.gated.finish = .ok Sketch.gatedDiagram
    ∧ Sketch.gatedDiagram.order = [5, 6, 7, 2, 4, 8, 3, 1, 0] ∧ Sketch.gatedDiagram.Ends :=
  ⟨rfl, rfl, finish_ends (s := Sketch.gated) rfl⟩

end RuleWiring
