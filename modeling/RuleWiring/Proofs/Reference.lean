import Mathlib
import RuleWiring.Evaluation.Basic
import RuleWiring.Proofs.Accepted

/-!
# What a diagram means

A gate whose condition cannot be seen passes on one of its branches, and it is not known
which. Once a choice is made for every gate, the value of a node is given by an equation in
the values of the nodes that feed it.

The equations of a diagram have one solution. They can be solved by unfolding, because a node
comes after all that feed it: no chain of feeds is longer than the list of nodes.
-/

namespace RuleWiring

/-- What at least two of the three bits are. -/
def Neighborhood.vote (n : Neighborhood Bool) : Bool :=
  (n.left && n.center) || (n.center && n.right) || (n.left && n.right)

/-- The two ports of which a gate passes one on. -/
def Component.branches? : Component → Option (Port × Port)
  | .thresholdSelect => some (.above, .below)
  | .conditionalSelect => some (.thenBranch, .elseBranch)
  | _ => none

namespace Diagram

/-! ## The equations -/

/-- The values of the nodes, as far as they have any. -/
abbrev Valuation := Nat → Option Bool

/-- Whether a port is fed by a component of some kind. -/
def fedBy (d : Diagram) (c : Component) (i : Nat) (p : Port) : Bool :=
  match d.input? i p with
  | some (.node j) => (d.nodes[j]?).any (·.component = c)
  | _ => false

/-- The value that arrives at a port. -/
def arriving (d : Diagram) (v : Valuation) (i : Nat) (p : Port) : Option Bool :=
  match d.input? i p with
  | some (.node j) => v j
  | some (.literal (.bool b)) => some b
  | _ => none

/-- Whether a gate with a condition takes its first branch: a constant decides, and a test of
a hidden bit is left to the choice. -/
def takesFirst? (d : Diagram) (ch : Nat → Bool) (i : Nat) : Option Bool :=
  match d.input? i .cond with
  | some (.literal (.bool b)) => some b
  | _ => if d.fedBy .bitTest i .cond then some (ch i) else none

/-- The value of a node by its component, from the values of the others. -/
def nodeValue (d : Diagram) (n : Neighborhood Bool) (ch : Nat → Bool) (v : Valuation) (i : Nat) :
    Component → Option Bool
  | .self | .prev => some n.center
  | .pred => some n.left
  | .succ => some n.right
  | .bitNot => (d.arriving v i .a).map (!·)
  | .bitAnd => Option.map₂ (· && ·) (d.arriving v i .a) (d.arriving v i .b)
  | .bitOr | .average => Option.map₂ (· || ·) (d.arriving v i .a) (d.arriving v i .b)
  | .bitXor => Option.map₂ (· ^^ ·) (d.arriving v i .a) (d.arriving v i .b)
  | .majority => if d.fedBy .neighbors i .sigils then some n.vote else none
  | .thresholdSelect => d.arriving v i (if ch i then .above else .below)
  | .conditionalSelect => (d.takesFirst? ch i).bind fun first =>
      d.arriving v i (if first then .thenBranch else .elseBranch)
  | .output => d.arriving v i .sigil
  | _ => none

/-- The right side of the equation of a node. -/
def valueFrom (d : Diagram) (n : Neighborhood Bool) (ch : Nat → Bool) (v : Valuation) :
    Valuation :=
  fun i => (d.nodes[i]?).bind fun m => d.nodeValue n ch v i m.component

/-- The values of the nodes by unfolding the equations some times. -/
def unfolded (d : Diagram) (n : Neighborhood Bool) (ch : Nat → Bool) : Nat → Valuation
  | 0 => fun _ => none
  | k + 1 => d.valueFrom n ch (unfolded d n ch k)

/-- **The reference values** of the nodes at a neighbourhood, for a choice at every gate. -/
def reference (d : Diagram) (n : Neighborhood Bool) (ch : Nat → Bool) : Valuation :=
  d.unfolded n ch d.nodes.length

end Diagram

namespace Sketch.Passed

open Diagram

variable {s : Sketch} {d : Diagram} {n : Neighborhood Bool} {ch : Nat → Bool}

/-! ## Inputs -/

/-- What feeds a port is an edge. -/
theorem edge_of_input? (h : Passed s d) {i : Nat} {p : Port} {src : Source}
    (hin : d.input? i p = some src) : ⟨src, i, p⟩ ∈ d.edges := by
  obtain ⟨f, hf, hsrc⟩ := Option.map_eq_some_iff.mp hin
  have hp := List.find?_some hf
  simp only [decide_eq_true_eq] at hp
  rw [← hp, ← hsrc]
  exact h.mem_inputsOf.mp (List.mem_of_find?_eq_some hf)

theorem feeds_of_input? (h : Passed s d) {i j : Nat} {p : Port}
    (hin : d.input? i p = some (.node j)) : d.Feeds j i :=
  ⟨_, h.edge_of_input? hin, rfl, rfl⟩

/-- Only a Boolean constant or a test of a bit has the type of a condition. -/
theorem cond_source (h : Passed s d) {i : Nat} {m : Node} (hm : d.nodes[i]? = some m)
    (hc : m.component = .conditionalSelect) {src : Source} (hin : d.input? i .cond = some src) :
    (∃ b, src = .literal (.bool b)) ∨
      ∃ j m', src = .node j ∧ d.nodes[j]? = some m' ∧ m'.component = .bitTest := by
  obtain ⟨m', expected, found, hm', hexpected, hfound, hfeeds⟩ := h.fits _ (h.edge_of_input? hin)
  dsimp only at hm' hexpected hfound
  rw [hm] at hm'
  injection hm' with hm'
  subst hm'
  rw [hc] at hexpected
  injection hexpected with hexpected
  subst hexpected
  -- nothing else is converted to a Boolean
  have hbool : found = .bool := by
    revert hfeeds
    cases found <;> decide
  subst hbool
  cases src with
  | literal l =>
      cases l with
      | bool b => exact Or.inl ⟨b, rfl⟩
      | int w => exact absurd hfound (by simp [sourceType?, Literal.valueType])
      | real x => exact absurd hfound (by simp [sourceType?, Literal.valueType])
  | node j =>
      obtain ⟨m', hm', htype⟩ := Option.map_eq_some_iff.mp hfound
      refine Or.inr ⟨j, m', rfl, hm', ?_⟩
      revert htype
      cases m'.component <;> decide

/-! ## The one solution -/

/-- An equation only reads the values of the nodes that feed its own. -/
theorem valueFrom_congr (h : Passed s d) {v w : Valuation} {i : Nat}
    (hvw : ∀ j, d.Feeds j i → v j = w j) : d.valueFrom n ch v i = d.valueFrom n ch w i := by
  have harriving : ∀ p, d.arriving v i p = d.arriving w i p := by
    intro p
    unfold arriving
    split
    · rename_i j hin
      exact hvw j (h.feeds_of_input? hin)
    · rfl
    · rfl
  unfold valueFrom
  congr 1
  funext m
  unfold nodeValue
  simp only [harriving]

/-- A node that is not there has no value. -/
theorem valueFrom_beyond {v : Valuation} {i : Nat} (hi : d.nodes.length ≤ i) :
    d.valueFrom n ch v i = none := by
  rw [valueFrom, List.getElem?_eq_none hi]
  rfl

theorem idxOf_lt (h : Passed s d) {i : Nat} (hi : i < d.nodes.length) :
    d.order.idxOf i < d.nodes.length := by
  have hmem := h.order_perm.mem_iff.mpr (List.mem_range.mpr hi)
  have hlen := h.order_perm.length_eq
  rw [List.length_range] at hlen
  rw [← hlen]
  exact List.idxOf_lt_length_of_mem hmem

/-- The value of a node is settled once the unfolding has reached its place in the order. -/
theorem unfolded_stable (h : Passed s d) : ∀ (k : Nat) {i : Nat}, d.order.idxOf i < k →
    d.unfolded n ch (k + 1) i = d.unfolded n ch k i
  | 0, _, hi => absurd hi (by omega)
  | k + 1, i, hi => by
      show d.valueFrom n ch _ i = d.valueFrom n ch _ i
      refine h.valueFrom_congr fun j hj => ?_
      have hbefore := h.feeds_before hj
      exact unfolded_stable h k (by omega)

theorem reference_eq (h : Passed s d) (i : Nat) :
    d.reference n ch i = d.valueFrom n ch (d.reference n ch) i := by
  show _ = d.unfolded n ch (d.nodes.length + 1) i
  by_cases hi : i < d.nodes.length
  · exact (h.unfolded_stable _ (h.idxOf_lt hi)).symm
  · -- beyond the nodes nothing ever has a value
    have hnone : ∀ k, d.unfolded n ch k i = none := by
      intro k
      cases k with
      | zero => rfl
      | succ k => exact valueFrom_beyond (by omega)
    rw [reference, hnone, hnone]

/-- **The equations have one solution.** The induction is on the place of a node in the
order: what feeds the node has an earlier place. -/
theorem eq_reference (h : Passed s d) {v : Valuation} (hv : ∀ i, v i = d.valueFrom n ch v i) :
    v = d.reference n ch := by
  have hplace : ∀ k i, d.order.idxOf i = k → v i = d.reference n ch i := by
    intro k
    induction k using Nat.strongRecOn with
    | ind k ih =>
      intro i hi
      rw [hv, h.reference_eq]
      refine h.valueFrom_congr fun j hj => ?_
      exact ih _ (hi ▸ h.feeds_before hj) j rfl
  funext i
  exact hplace _ i rfl

end Sketch.Passed

namespace Diagram

variable {d : Diagram} {n : Neighborhood Bool}

/-- Without gates there is nothing to choose. -/
theorem reference_plain (hd : ∀ m ∈ d.nodes, m.component.branches? = none)
    (ch ch' : Nat → Bool) : d.reference n ch = d.reference n ch' := by
  have hequation : ∀ v, d.valueFrom n ch v = d.valueFrom n ch' v := by
    intro v
    funext i
    unfold valueFrom
    cases hm : d.nodes[i]? with
    | none => rfl
    | some m =>
        have hnone := hd m (List.mem_of_getElem? hm)
        show d.nodeValue n ch v i m.component = d.nodeValue n ch' v i m.component
        revert hnone
        cases m.component <;> first | exact fun _ => rfl | exact fun h => absurd h (by decide)
  have hunfolded : ∀ k, d.unfolded n ch k = d.unfolded n ch' k := by
    intro k
    induction k with
    | zero => rfl
    | succ k ih =>
        show d.valueFrom n ch _ = d.valueFrom n ch' _
        rw [ih, hequation]
  exact hunfolded _

end Diagram

end RuleWiring
