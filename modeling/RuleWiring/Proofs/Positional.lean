import Mathlib
import RuleWiring.Proofs.Restored

/-!
# Ports that need no name

A wire that names no port gets the one whose turn it is. In an accepted sketch the turns come out
evenly: the wires into a node that name no port get all the declared ports that nobody names, one
each, in their order and in the order in which the ports are declared.

So the name of a port can be left out as long as the turn is right. A diagram drawn once more
without the ports of some edges is the same diagram exactly if these edges enter each node in the
order in which it declares their ports.
-/

namespace RuleWiring

/-! ## Choosing from a list -/

/-- Where an element stands among those that pass a test. -/
theorem getElem?_filter_countP {α : Type} {q : α → Bool} : ∀ {l : List α} {k : Nat} {x : α},
    l[k]? = some x → q x = true → (l.filter q)[(l.take k).countP q]? = some x
  | [], _, _, h, _ => absurd h (by simp)
  | y :: l, 0, x, h, hq => by
      rw [List.getElem?_cons_zero] at h
      injection h with h
      rw [h, List.filter_cons_of_pos hq]
      rfl
  | y :: l, k + 1, x, h, hq => by
      rw [List.getElem?_cons_succ] at h
      have ih := getElem?_filter_countP h hq
      rw [List.take_succ_cons, List.countP_cons]
      by_cases hy : q y = true
      · rw [List.filter_cons_of_pos hy, if_pos hy, List.getElem?_cons_succ]
        exact ih
      · rw [List.filter_cons_of_neg hy, if_neg hy, Nat.add_zero]
        exact ih

/-- Where nothing repeats, a sublist is known by its members. -/
theorem eq_filter_of_sublist {α : Type} [DecidableEq α] {l l' : List α} (h : l'.Sublist l)
    (hnd : l.Nodup) : l' = l.filter (· ∈ l') := by
  induction h with
  | slnil => rfl
  | @cons l' l a h ih =>
      rw [List.nodup_cons] at hnd
      have ha : a ∉ l' := fun ha => hnd.1 (h.subset ha)
      rw [List.filter_cons_of_neg (by simpa using ha)]
      exact ih hnd.2
  | @cons_cons l' l a h ih =>
      rw [List.nodup_cons] at hnd
      have hother : l.filter (· ∈ a :: l') = l.filter (· ∈ l') := by
        refine List.filter_congr fun x hx => ?_
        have hne : x ≠ a := fun he => hnd.1 (he ▸ hx)
        simp [hne]
      rw [List.filter_cons_of_pos (by simp), hother, ← ih hnd.2]

/-! ## The ports given out -/

/-- The ports of the wires into a node that name none, in the order of the wires. -/
def Sketch.portsGiven (s : Sketch) (edges : List Edge) (i : Nat) : List Port :=
  ((s.wires.zip edges).filter fun x => x.1.target = i ∧ x.1.port = none).map (·.2.port)

namespace Sketch.Passed

variable {s : Sketch} {d : Diagram}

/-- Some edge enters each declared port. -/
theorem exists_edge (h : Passed s d) {i : Nat} {n : Node} (hn : d.nodes[i]? = some n) {p : Port}
    (hp : p ∈ n.component.ports) : ∃ e ∈ d.edges, e.slot = (i, p) := by
  have hone := h.fed_once hn hp
  obtain ⟨e, he, hslot⟩ := List.countP_pos_iff.mp (by rw [hone]; exact Nat.one_pos)
  exact ⟨e, he, of_decide_eq_true hslot⟩

/-- The port of a wire that names none. -/
theorem open_wire (h : Passed s d) {i k : Nat} {n : Node} (hn : d.nodes[i]? = some n)
    {w : SketchWire} {e : Edge} (hw : s.wires[k]? = some w) (he : d.edges[k]? = some e)
    (ht : w.target = i) (hp : w.port = none) :
    (s.unnamed i n)[s.openBefore k i]? = some e.port := by
  rw [h.getElem?_edges, edgeAt?_of_wire hw, place?_none hp (ht ▸ h.nodes ▸ hn), ht,
    Option.map_eq_some_iff] at he
  obtain ⟨p, hp, hedge⟩ := he
  rw [← hedge]
  exact hp

/-- The first wires get the first ports. -/
theorem given_take (h : Passed s d) {i : Nat} {n : Node} (hn : d.nodes[i]? = some n) (k : Nat) :
    (((s.wires.zip d.edges).take k).filter fun x => x.1.target = i ∧ x.1.port = none).map (·.2.port)
      = (s.unnamed i n).take (s.openBefore k i) := by
  induction k with
  | zero => simp [openBefore]
  | succ k ih =>
      rw [List.take_add_one, List.filter_append, List.map_append, ih]
      cases hw : s.wires[k]? with
      | none =>
          have hzip : (s.wires.zip d.edges)[k]? = none := by
            rw [List.getElem?_eq_none_iff] at hw ⊢
            rw [List.length_zip]
            omega
          have hopen : s.openBefore (k + 1) i = s.openBefore k i := by
            rw [openBefore, List.take_add_one, hw, Option.toList_none, List.append_nil, openBefore]
          rw [hzip, hopen]
          exact List.append_nil _
      | some w =>
          obtain ⟨e, he, _⟩ := getElem?_of_forall₂ h.resolved.becomes hw
          have hzip : (s.wires.zip d.edges)[k]? = some (w, e) :=
            List.getElem?_zip_eq_some.mpr ⟨hw, he⟩
          rw [hzip, openBefore_succ hw]
          by_cases hturn : w.target = i ∧ w.port = none
          · -- the wire gets the next port
            rw [if_pos hturn, List.take_add_one, h.open_wire hn hw he hturn.1 hturn.2]
            simp [hturn]
          · rw [if_neg hturn, Nat.add_zero]
            simp [hturn]

/-- **The wires that name no port get the ports that nobody names**, one each and in their order.
None of these ports is left, because something enters each of them. -/
theorem portsGiven_eq (h : Passed s d) {i : Nat} {n : Node} (hn : d.nodes[i]? = some n) :
    s.portsGiven d.edges i = s.unnamed i n := by
  have htake := h.given_take hn s.wires.length
  rw [List.take_of_length_le (by rw [List.length_zip]; exact Nat.min_le_left ..)] at htake
  change s.portsGiven d.edges i = _ at htake
  have hnd : (s.unnamed i n).Nodup := n.component.ports_nodup.filter _
  have hall : s.unnamed i n ⊆ s.portsGiven d.edges i := by
    intro p hp
    obtain ⟨hport, hfree⟩ := List.mem_filter.mp hp
    obtain ⟨e, he, hslot⟩ := h.exists_edge hn hport
    obtain ⟨k, hk⟩ := List.mem_iff_getElem?.mp he
    obtain ⟨w, hw, _, ht, hname⟩ := getElem?_of_forall₂ h.resolved.becomes.flip hk
    have hpair : (w, e) ∈ s.wires.zip d.edges :=
      List.mem_of_getElem? (List.getElem?_zip_eq_some.mpr ⟨hw, hk⟩)
    injection hslot with htarget hp
    have hnone : w.port = none := by
      cases hwp : w.port with
      | none => rfl
      | some q =>
          -- otherwise the port would be one that is named
          have hnamed : (i, p) ∈ named s.wires := by
            refine List.mem_filterMap.mpr ⟨w, List.mem_of_getElem? hw, ?_⟩
            rw [SketchWire.slot?, hwp, Option.map_some, ← ht, htarget, ← hname q hwp, hp]
          exact absurd hnamed (of_decide_eq_true hfree)
    exact List.mem_map.mpr
      ⟨(w, e), List.mem_filter.mpr ⟨hpair, decide_eq_true ⟨ht ▸ htarget, hnone⟩⟩, hp⟩
  -- as many ports are given as there are, so the prefix that is given is all of them
  have hlen := (List.subperm_of_subset hnd hall).length_le
  rw [htake] at hlen ⊢
  exact (List.take_sublist _ _).eq_of_length_le hlen

end Sketch.Passed

/-! ## Ports left out -/

/-- The wire that an edge stands for, without its port if the edge is one of those chosen. -/
def Edge.loosened (chosen : Edge → Bool) (e : Edge) : SketchWire :=
  ⟨e.source, e.target, if chosen e then none else some e.port⟩

theorem Edge.becomes_loosened {chosen : Edge → Bool} (e : Edge) :
    (e.loosened chosen).Becomes e := by
  refine ⟨rfl, rfl, fun p hp => ?_⟩
  rw [loosened] at hp
  split at hp
  · exact absurd hp (by simp)
  · exact Option.some.inj hp

namespace Diagram

/-- A diagram drawn once more, without the ports of the chosen edges. -/
def loosened (d : Diagram) (chosen : Edge → Bool) (designated : Option Nat) : Sketch where
  metadata := d.metadata
  nodes := d.nodes
  wires := d.edges.map (Edge.loosened chosen)
  designated := designated
  interpretation := d.interpretation

/-- The ports of the chosen edges into a node, in the order of the edges. -/
def chosenPorts (d : Diagram) (chosen : Edge → Bool) (i : Nat) : List Port :=
  (d.edges.filter fun e => chosen e ∧ e.target = i).map (·.port)

/-- The chosen edges enter each node in the order in which it declares their ports. -/
def InDeclaredOrder (d : Diagram) (chosen : Edge → Bool) : Prop :=
  ∀ i n, d.nodes[i]? = some n → (d.chosenPorts chosen i).Sublist n.component.ports

variable {d : Diagram} {chosen : Edge → Bool} {i : Nat} {p : Port}

theorem mem_chosenPorts :
    p ∈ d.chosenPorts chosen i ↔ ∃ e ∈ d.edges, chosen e = true ∧ e.slot = (i, p) := by
  rw [chosenPorts, List.mem_map]
  constructor
  · rintro ⟨e, he, rfl⟩
    obtain ⟨he, hpass⟩ := List.mem_filter.mp he
    obtain ⟨hc, ht⟩ := of_decide_eq_true hpass
    exact ⟨e, he, hc, by rw [Edge.slot, ht]⟩
  · rintro ⟨e, he, hc, hslot⟩
    injection hslot with ht hp
    exact ⟨e, List.mem_filter.mpr ⟨he, decide_eq_true ⟨hc, ht⟩⟩, hp⟩

theorem mem_named_loosened {designated : Option Nat} :
    (i, p) ∈ Sketch.named (d.loosened chosen designated).wires
      ↔ ∃ e ∈ d.edges, chosen e = false ∧ e.slot = (i, p) := by
  rw [Sketch.named, loosened, List.mem_filterMap]
  simp only [List.mem_map, exists_exists_and_eq_and]
  refine exists_congr fun e => and_congr_right fun _ => ?_
  rw [SketchWire.slot?, Edge.loosened]
  cases chosen e with
  | true => simp
  | false => simp [Edge.slot]

/-- The wires without a port are the chosen edges. -/
theorem portsGiven_loosened {designated : Option Nat} :
    (d.loosened chosen designated).portsGiven d.edges i = d.chosenPorts chosen i := by
  rw [Sketch.portsGiven, loosened, ← List.map_prod_right_eq_zip, List.filter_map, List.map_map,
    chosenPorts]
  congr 1
  refine List.filter_congr fun e _ => ?_
  rw [Function.comp_apply, decide_eq_decide]
  by_cases hc : chosen e = true <;> simp [Edge.loosened, hc]

theorem openBefore_loosened {designated : Option Nat} (k : Nat) :
    (d.loosened chosen designated).openBefore k i
      = (d.edges.take k).countP fun e => chosen e ∧ e.target = i := by
  rw [Sketch.openBefore, loosened, ← List.map_take, List.countP_map]
  refine List.countP_congr fun e _ => ?_
  by_cases hc : chosen e = true <;> simp [Edge.loosened, hc]

end Diagram

namespace Sketch.Passed

variable {s : Sketch} {d : Diagram} {chosen : Edge → Bool} {designated : Option Nat}

/-- The ports left open are those of the chosen edges. -/
theorem unnamed_loosened (h : Passed s d) (ho : d.InDeclaredOrder chosen) {i : Nat} {n : Node}
    (hn : d.nodes[i]? = some n) :
    (d.loosened chosen designated).unnamed i n = d.chosenPorts chosen i := by
  rw [eq_filter_of_sublist (ho i n hn) n.component.ports_nodup, unnamed]
  refine List.filter_congr fun p hp => ?_
  rw [decide_eq_decide, Diagram.mem_named_loosened, Diagram.mem_chosenPorts]
  obtain ⟨e, he, hslot⟩ := h.exists_edge hn hp
  constructor
  · intro hfree
    refine ⟨e, he, ?_, hslot⟩
    by_contra hc
    exact hfree ⟨e, he, by simpa using hc, hslot⟩
  · -- only one edge enters the port
    rintro ⟨e₁, he₁, hc₁, hslot₁⟩ ⟨e₂, he₂, hc₂, hslot₂⟩
    have hsame := eq_of_slot_eq h.resolved.slots he₁ he₂ (hslot₁.trans hslot₂.symm)
    rw [hsame, hc₂] at hc₁
    exact absurd hc₁ (by simp)

theorem redraws_loosened (h : Passed s d) (ho : d.InDeclaredOrder chosen)
    (hd : ∀ i, designated = some i → i = d.output) : (d.loosened chosen designated).Redraws d where
  metadata := rfl
  nodes := rfl
  interpretation := rfl
  designated := hd
  becomes := List.forall₂_map_left_iff.mpr (List.forall₂_same.mpr fun e _ => e.becomes_loosened)
  places := by
    intro k
    cases he : d.edges[k]? with
    | none =>
        rw [edgeAt?, Diagram.loosened, List.getElem?_map, he]
        rfl
    | some e =>
        have hw : (d.loosened chosen designated).wires[k]? = some (e.loosened chosen) := by
          rw [Diagram.loosened, List.getElem?_map, he]
          rfl
        obtain ⟨n, _, _, hn, _⟩ := h.fits e (List.mem_of_getElem? he)
        rw [edgeAt?_of_wire hw]
        cases hc : chosen e with
        | false =>
            rw [place?_some (p := e.port) (by rw [Edge.loosened, hc]; rfl)]
            rfl
        | true =>
            -- the chosen edges before this one took the ports before its own
            have hturn := getElem?_filter_countP (q := fun e' => chosen e' ∧ e'.target = e.target)
              he (decide_eq_true ⟨hc, rfl⟩)
            rw [place?_none (n := n) (by rw [Edge.loosened, hc]; rfl) hn]
            change Option.map _ ((unnamed _ e.target n)[openBefore _ k e.target]?) = _
            rw [h.unnamed_loosened ho hn, Diagram.openBefore_loosened, Diagram.chosenPorts,
              List.getElem?_map, hturn]
            rfl

end Sketch.Passed

/--
**A name is needed only out of turn.**

In an accepted sketch every wire becomes an edge that enters the port the wire names. The wires
into a node that name none get, in their order, the declared ports that no wire names, in the
order of their declaration. A diagram drawn once more without the ports of some edges, with the
output designated or not, becomes the same diagram exactly if into each node these edges come in
the declared order of their ports.
-/
theorem positional_exact {s : Sketch} {d : Diagram} (h : s.finish = .ok d) :
    List.Forall₂ SketchWire.Becomes s.wires d.edges
      ∧ (∀ i n, s.nodes[i]? = some n →
        s.portsGiven d.edges i = n.component.ports.filter fun p => (i, p) ∉ Sketch.named s.wires)
      ∧ ∀ chosen designated, (∀ i, designated = some i → i = d.output) →
        ((d.loosened chosen designated).finish = .ok d ↔ d.InDeclaredOrder chosen) := by
  have hp := Sketch.finish_passed h
  refine ⟨hp.resolved.becomes, fun i n hn => hp.portsGiven_eq (hp.nodes ▸ hn),
    fun chosen designated hd => ⟨fun hagain => ?_, fun ho => ?_⟩⟩
  · intro i n hn
    have hgiven := (Sketch.finish_passed hagain).portsGiven_eq hn
    rw [Diagram.portsGiven_loosened] at hgiven
    rw [hgiven]
    exact List.filter_sublist
  · exact hp.finish_of_redraws (hp.redraws_loosened ho hd)

/-- The edges of `gatedDiagram` whose ports come in turn. The wires into `above` and `either` were
drawn in the wrong order, and so were the branches of the gate. -/
def inTurn (e : Edge) : Bool :=
  match e.target, e.port with
  | 2, .b | 4, .b | 1, .above | 1, .below => false
  | _, _ => true

theorem positional_exact_gated : Sketch.gated.finish = .ok Sketch.gatedDiagram
    ∧ Sketch.gatedDiagram.InDeclaredOrder inTurn
    ∧ (Sketch.gatedDiagram.loosened inTurn none).finish = .ok Sketch.gatedDiagram
    ∧ (Sketch.gatedDiagram.loosened (fun _ => true) none).finish ≠ .ok Sketch.gatedDiagram := by
  have hfinish : Sketch.gated.finish = .ok Sketch.gatedDiagram := rfl
  obtain ⟨_, _, hleft⟩ := positional_exact hfinish
  have hturn : Sketch.gatedDiagram.InDeclaredOrder inTurn := by
    intro i n hn
    obtain ⟨hi, rfl⟩ := List.getElem?_eq_some_iff.mp hn
    clear hn
    revert i
    decide
  refine ⟨hfinish, hturn, (hleft inTurn none (by simp)).mpr hturn, fun hall => ?_⟩
  have hports := (hleft (fun _ => true) none (by simp)).mp hall 2 ⟨"above", .bitOr⟩ rfl
  exact absurd hports (by decide)

end RuleWiring
