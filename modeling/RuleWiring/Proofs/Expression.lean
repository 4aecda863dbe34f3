import Mathlib
import RuleWiring.Proofs.Reference

/-!
# What a diagram spells out

Unfolded from its output, a diagram is a tree: a component, with a tree or a constant at each of
its ports. Nodes that are shared in the diagram are repeated in the tree, and their ids and
positions are gone.

To know the tree it is enough to know, for each node, a tree that is made up of those of its
feeds. The order of the diagram shows that there is only one such assignment, and that a budget
of as many steps as there are nodes is enough to unfold it.
-/

namespace RuleWiring

/-- A component with what comes in at its ports, or a constant. -/
inductive Expression where
  | constant (l : Literal)
  | apply (c : Component) (inputs : List (Port × Expression))

namespace Expression

/-- The type of what an expression makes. -/
def type : Expression → ValueType
  | constant l => l.valueType
  | apply c _ => c.outputType

def inputs : Expression → List (Port × Expression)
  | constant _ => []
  | apply _ inputs => inputs

/-- A component that needs no input. -/
def leaf (c : Component) : Expression := apply c []

end Expression

namespace Diagram

/-! ## Unfolding -/

/-- What some ports are fed, if all of it can be told. -/
def unfoldInputs (tree : Source → Option Expression) :
    List (Port × Source) → Option (List (Port × Expression))
  | [] => some []
  | (p, src) :: rest =>
      match tree src, unfoldInputs tree rest with
      | some t, some ts => some ((p, t) :: ts)
      | _, _ => none

/-- What a source stands for, if that can be told in some steps. -/
def unfold (d : Diagram) : Nat → Source → Option Expression
  | _, .literal l => some (.constant l)
  | 0, .node _ => none
  | k + 1, .node i =>
      match d.nodes[i]? with
      | none => none
      | some n => (unfoldInputs (d.unfold k) (d.inputsOf i)).map (.apply n.component)

/-- **The expression of a diagram**, unfolded from its output. -/
def expression (d : Diagram) : Option Expression := d.unfold d.nodes.length (.node d.output)

end Diagram

/-! ## Trees for all nodes -/

/-- What a source stands for, where it is known what the nodes stand for. -/
def Source.Stands (tree : Nat → Option Expression) : Source → Expression → Prop
  | .literal l, t => t = .constant l
  | .node i, t => tree i = some t

/-- What comes in at some ports, in the same order. -/
def InputsStand (tree : Nat → Option Expression) :
    List (Port × Source) → List (Port × Expression) → Prop :=
  List.Forall₂ fun f a => f.1 = a.1 ∧ f.2.Stands tree a.2

/-- Every node has a tree, which is made up of those of its feeds. -/
def Diagram.Spelled (d : Diagram) (tree : Nat → Option Expression) : Prop :=
  ∀ i n, d.nodes[i]? = some n → ∃ args, tree i = some (.apply n.component args)
    ∧ InputsStand tree (d.inputsOf i) args

namespace Sketch.Passed

open Diagram

variable {s : Sketch} {d : Diagram} {tree : Nat → Option Expression}

theorem unfoldInputs_eq {f : Source → Option Expression} {fs : List (Port × Source)}
    {args : List (Port × Expression)} (h : InputsStand tree fs args)
    (hf : ∀ p src t, (p, src) ∈ fs → src.Stands tree t → f src = some t) :
    unfoldInputs f fs = some args := by
  induction h with
  | nil => rfl
  | @cons x a fs args hxa _ ih =>
      obtain ⟨p, src⟩ := x
      obtain ⟨q, t⟩ := a
      obtain ⟨hport, hstands⟩ := hxa
      dsimp only at hport hstands
      subst hport
      have hrest := ih fun p src t hmem => hf p src t (List.mem_cons_of_mem _ hmem)
      rw [unfoldInputs, hf _ src t (List.mem_cons_self ..) hstands, hrest]

/-- Nodes have early places, and so have the feeds of a node before it: one step for each place
is enough. -/
theorem unfold_eq (h : Passed s d) (htree : d.Spelled tree) :
    ∀ (k : Nat) {i : Nat} {n : Node}, d.nodes[i]? = some n → d.order.idxOf i < k →
      d.unfold k (.node i) = tree i
  | 0, _, _, _, hk => absurd hk (by omega)
  | k + 1, i, n, hn, hk => by
      obtain ⟨args, hargs, hinputs⟩ := htree i n hn
      have hall : unfoldInputs (d.unfold k) (d.inputsOf i) = some args := by
        refine unfoldInputs_eq hinputs fun p src t hmem hstands => ?_
        have hedge := h.mem_inputsOf.mp hmem
        cases src with
        | literal l =>
            have ht : t = .constant l := hstands
            rw [ht]
            cases k <;> rfl
        | node j =>
            have hbefore : d.order.idxOf j < d.order.idxOf i :=
              h.feeds_before ⟨_, hedge, rfl, rfl⟩
            obtain ⟨m, hm⟩ : ∃ m, d.nodes[j]? = some m :=
              ⟨_, List.getElem?_eq_getElem (fits_ends (h.fits _ hedge)).2⟩
            rw [unfold_eq h htree k hm (by omega)]
            exact hstands
      rw [unfold, hn]
      dsimp only
      rw [hall, hargs]
      rfl

/-- **The expression is the tree of the output.** -/
theorem expression_eq (h : Passed s d) (htree : d.Spelled tree) :
    d.expression = tree d.output := by
  have hout := h.output_spec.1
  exact h.unfold_eq htree _ (List.getElem?_eq_getElem hout) (h.idxOf_lt hout)

end Sketch.Passed

end RuleWiring
