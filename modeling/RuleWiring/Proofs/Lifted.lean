import Mathlib
import RuleWiring.Proofs.Reference
import RuleWiring.Proofs.Simulation

/-!
# Lifted evaluation is sound for every choice

An evaluation at bits makes no choice at its gates: it passes on a bit only if both branches
carry it. What it has computed for a node is therefore the reference value of the node,
whatever is chosen. And if it stops at a gate, then the reference values of the branches
differ, again whatever is chosen.

Everything is shown for a family of valuations, one for each choice, of which only the
equations are known.
-/

namespace RuleWiring

open EvalM

/-! ## What is computed -/

namespace Diagram

/-- What a node puts out tells its value, whatever is chosen, and which triple it is. -/
def Tells (n : Neighborhood Bool) (c : Component) (value : (Nat → Bool) → Option Bool) :
    Signal Bool → Prop
  | .bit b => c ≠ .bitTest ∧ ∀ ch, value ch = some b
  | .triple l m r => c = .neighbors ∧ n = ⟨l, m, r⟩
  | .hidden => True

/-- All that has been put out tells the values of its nodes. -/
def Told (d : Diagram) (n : Neighborhood Bool) (value : (Nat → Bool) → Valuation)
    (signals : Signals Bool) : Prop :=
  ∀ j v, signalAt? signals j = some v →
    ∃ m, d.nodes[j]? = some m ∧ Tells n m.component (fun ch => value ch j) v

/-- What comes in at a port: something that tells the value of the node it comes from, a
Boolean constant, or another constant, which is hidden. -/
def Arrives (d : Diagram) (n : Neighborhood Bool) (value : (Nat → Bool) → Valuation) (i : Nat)
    (p : Port) (v : Signal Bool) : Prop :=
  (∃ j m, d.input? i p = some (.node j) ∧ d.nodes[j]? = some m
      ∧ Tells n m.component (fun ch => value ch j) v)
    ∨ (∃ b, d.input? i p = some (.literal (.bool b)) ∧ v = .bit b)
    ∨ ∃ l, d.input? i p = some (.literal l) ∧ v = .hidden

/-- If the error is that a gate is undetermined, then its branches differ, whatever is
chosen. -/
def Undecided (d : Diagram) (value : (Nat → Bool) → Valuation) (e : EvalError) : Prop :=
  ∀ id, e = .undeterminedGate id → ∃ g m p q x, d.nodes[g]? = some m ∧ m.id = id
    ∧ m.component.branches? = some (p, q)
    ∧ ∀ ch, d.arriving (value ch) g p = some x ∧ d.arriving (value ch) g q = some (!x)

section Node

variable {s : Sketch} {d : Diagram} {n : Neighborhood Bool} {value : (Nat → Bool) → Valuation}
  {signals : Signals Bool}

theorem undecided_of_ne {e : EvalError} (h : ∀ id, e ≠ .undeterminedGate id) :
    Undecided d value e := fun id he => absurd he (h id)

theorem fetch_ends (hs : Told d n value signals) (i : Nat) (m : Node) (p : Port) :
    Ends (fetch bits d signals i m p) (Arrives d n value i p) (Undecided d value) := by
  unfold fetch
  cases hin : d.input? i p with
  | none => exact undecided_of_ne (by simp)
  | some src =>
      cases src with
      | node j =>
          dsimp only
          cases hv : (signals[j]?).join with
          | none => exact undecided_of_ne (by simp)
          | some v =>
              obtain ⟨m', hm', htells⟩ := hs j v hv
              exact Or.inl ⟨j, m', hin, hm', htells⟩
      | literal l =>
          cases l with
          | bool b => exact Or.inr (Or.inl ⟨b, hin, rfl⟩)
          | int w => exact Or.inr (Or.inr ⟨_, hin, rfl⟩)
          | real x => exact Or.inr (Or.inr ⟨_, hin, rfl⟩)

theorem arriving_of_arrives {i : Nat} {p : Port} {b : Bool}
    (h : Arrives d n value i p (.bit b)) (ch : Nat → Bool) :
    d.arriving (value ch) i p = some b := by
  rcases h with ⟨j, m, hin, _, htells⟩ | ⟨b', hin, hb⟩ | ⟨_, _, hhidden⟩
  · rw [arriving, hin]
    exact htells.2 ch
  · injection hb with hb
    rw [arriving, hin, hb]
  · exact absurd hhidden (by simp)

/-- A bit that has been fetched is the value that arrives. -/
theorem fetchBit_ends (hs : Told d n value signals) (i : Nat) (m : Node) (p : Port) :
    Ends (fetchBit bits d signals i m p) (fun b => ∀ ch, d.arriving (value ch) i p = some b)
      (Undecided d value) := by
  refine ends_bind (fetch_ends hs i m p) fun v hv => ?_
  cases v with
  | bit b => exact arriving_of_arrives hv
  | triple _ _ _ => exact undecided_of_ne (by simp)
  | hidden => exact undecided_of_ne (by simp)

/-- A triple only comes from the neighbours. -/
theorem fedBy_of_arrives {i : Nat} {p : Port} {l c r : Bool}
    (h : Arrives d n value i p (.triple l c r)) :
    d.fedBy .neighbors i p = true ∧ n = ⟨l, c, r⟩ := by
  rcases h with ⟨j, m, hin, hm, hc, hn⟩ | ⟨_, _, hv⟩ | ⟨_, _, hv⟩
  · refine ⟨?_, hn⟩
    rw [fedBy, hin]
    dsimp only
    rw [hm, Option.any_some, decide_eq_true hc]
  · exact absurd hv (by simp)
  · exact absurd hv (by simp)

/-- **The gate.** If the branches agree, either of them is what the gate passes on; if they do
not, the gate is undecided. -/
theorem agreed_ends {i : Nat} {m : Node} (hm : d.nodes[i]? = some m) {p q : Port}
    (hbranches : m.component.branches? = some (p, q)) {x y : Bool}
    (hx : ∀ ch, d.arriving (value ch) i p = some x)
    (hy : ∀ ch, d.arriving (value ch) i q = some y)
    (hvalue : ∀ ch, ∃ first : Bool, value ch i = d.arriving (value ch) i (if first then p else q)) :
    Ends (agreed bits m x y) (Tells n m.component fun ch => value ch i) (Undecided d value) := by
  rw [Ends, agreed_outcome]
  by_cases hxy : x = y
  · rw [if_pos hxy]
    refine ⟨fun hc => ?_, fun ch => ?_⟩
    · rw [hc] at hbranches
      exact absurd hbranches (by simp [Component.branches?])
    · obtain ⟨first, hfirst⟩ := hvalue ch
      show value ch i = some x
      rw [hfirst]
      cases first with
      | true => exact hx ch
      | false => rw [hxy]; exact hy ch
  · rw [if_neg hxy]
    intro id hid
    injection hid with hid
    refine ⟨i, m, p, q, x, hm, hid, hbranches, fun ch => ⟨hx ch, ?_⟩⟩
    rw [hy ch, Bool.eq_not_of_ne (Ne.symm hxy)]

theorem exists_input {i : Nat} {p : Port} {v : Signal Bool} (h : Arrives d n value i p v) :
    ∃ src, d.input? i p = some src := by
  rcases h with ⟨j, _, hin, _⟩ | ⟨b, hin, _⟩ | ⟨l, hin, _⟩
  · exact ⟨_, hin⟩
  · exact ⟨_, hin⟩
  · exact ⟨_, hin⟩

/-- A condition of the right type either is a constant or leaves the choice. -/
theorem takesFirst?_eq (h : Sketch.Passed s d) {i : Nat} {m : Node} (hm : d.nodes[i]? = some m)
    (hc : m.component = .conditionalSelect) {v : Signal Bool} (hv : Arrives d n value i .cond v)
    (ch : Nat → Bool) : ∃ first, d.takesFirst? ch i = some first := by
  obtain ⟨src, hin⟩ := exists_input hv
  rcases h.cond_source hm hc hin with ⟨b, hsrc⟩ | ⟨j, m', hsrc, hm', hc'⟩
  · subst hsrc
    exact ⟨b, by rw [takesFirst?, hin]⟩
  · subst hsrc
    have hfed : d.fedBy .bitTest i .cond = true := by
      rw [fedBy, hin]
      dsimp only
      rw [hm', Option.any_some, decide_eq_true hc']
    exact ⟨ch i, by rw [takesFirst?, hin]; exact if_pos hfed⟩

/-- A condition that is a bit is a constant, because a test of a bit is hidden. -/
theorem takesFirst?_bit (h : Sketch.Passed s d) {i : Nat} {m : Node} (hm : d.nodes[i]? = some m)
    (hc : m.component = .conditionalSelect) {b : Bool}
    (hv : Arrives d n value i .cond (.bit b)) (ch : Nat → Bool) :
    d.takesFirst? ch i = some b := by
  rcases hv with ⟨j, m', hin, hm', htells⟩ | ⟨b', hin, hb⟩ | ⟨_, _, hhidden⟩
  · rcases h.cond_source hm hc hin with ⟨_, hsrc⟩ | ⟨j', m'', hsrc, hm'', hc''⟩
    · exact absurd hsrc (by simp)
    · injection hsrc with hj
      subst hj
      rw [hm'] at hm''
      injection hm'' with hm''
      exact absurd (hm'' ▸ hc'') htells.1
  · injection hb with hb
    rw [takesFirst?, hin, hb]
  · exact absurd hhidden (by simp)

/-- **One node.** Its equation has one case for each component, and so has the evaluation. -/
theorem nodeSignal_ends (h : Sketch.Passed s d)
    (hvalue : ∀ ch i, value ch i = d.valueFrom n ch (value ch) i) (hs : Told d n value signals)
    {i : Nat} {m : Node} (hm : d.nodes[i]? = some m) :
    Ends (nodeSignal bits d n signals i m) (Tells n m.component fun ch => value ch i)
      (Undecided d value) := by
  have heq : ∀ ch, value ch i = d.nodeValue n ch (value ch) i m.component := by
    intro ch
    rw [hvalue, valueFrom, hm]
    rfl
  obtain ⟨id, c⟩ := m
  cases c with
  | self | prev | pred | succ => exact ⟨by simp, heq⟩
  | neighbors => exact ⟨rfl, rfl⟩
  | exotype | diversity | entropy | similarity | evenness | dominance | autocorrelation
  | bitTest => trivial
  | shiftLeft | shiftRight | crossover | mutate => exact undecided_of_ne (by simp)
  | bitNot =>
      refine ends_bind (fetchBit_ends hs i _ .a) fun x hx => ?_
      refine ⟨by simp, fun ch => ?_⟩
      show value ch i = _
      rw [heq, nodeValue, hx]
      rfl
  | bitAnd | bitOr | bitXor | average =>
      refine ends_bind (fetchBit_ends hs i _ .a) fun x hx => ?_
      refine ends_bind (fetchBit_ends hs i _ .b) fun y hy => ?_
      refine ⟨by simp, fun ch => ?_⟩
      show value ch i = _
      rw [heq, nodeValue, hx, hy]
      rfl
  | majority =>
      refine ends_bind (fetch_ends hs i _ .sigils) fun v hv => ?_
      cases v with
      | bit _ => exact undecided_of_ne (by simp)
      | hidden => exact undecided_of_ne (by simp)
      | triple l c r =>
          obtain ⟨hfed, hn⟩ := fedBy_of_arrives hv
          refine ⟨by simp, fun ch => ?_⟩
          show value ch i = _
          rw [heq, nodeValue, if_pos hfed, hn]
          rfl
  | thresholdSelect =>
      refine ends_bind (fetchBit_ends hs i _ .above) fun x hx => ?_
      refine ends_bind (fetchBit_ends hs i _ .below) fun y hy => ?_
      exact agreed_ends hm rfl hx hy fun ch => ⟨ch i, heq ch⟩
  | conditionalSelect =>
      refine ends_bind (fetchBit_ends hs i _ .thenBranch) fun x hx => ?_
      refine ends_bind (fetchBit_ends hs i _ .elseBranch) fun y hy => ?_
      refine ends_bind (fetch_ends hs i _ .cond) fun v hv => ?_
      -- whatever the condition is, the equation passes on one of the branches
      have hfirst : ∀ ch, ∃ first : Bool, value ch i
          = d.arriving (value ch) i (if first then .thenBranch else .elseBranch) := by
        intro ch
        obtain ⟨first, hfirst⟩ := takesFirst?_eq h hm rfl hv ch
        exact ⟨first, by rw [heq, nodeValue, hfirst, Option.bind_some]⟩
      cases v with
      | triple _ _ _ => exact agreed_ends hm rfl hx hy hfirst
      | hidden => exact agreed_ends hm rfl hx hy hfirst
      | bit b =>
          -- a constant; the evaluation selects by conjunction and disjunction
          refine ⟨by simp, fun ch => ?_⟩
          show value ch i = _
          rw [heq, nodeValue, takesFirst?_bit h hm rfl hv, Option.bind_some]
          cases b with
          | true =>
              rw [if_pos rfl, hx]
              cases x <;> rfl
          | false =>
              rw [if_neg (by simp), hy]
              cases y <;> rfl
  | output =>
      refine ends_bind (fetchBit_ends hs i _ .sigil) fun x hx => ?_
      refine ⟨by simp, fun ch => ?_⟩
      show value ch i = _
      rw [heq, nodeValue, hx]

end Node

/-! ## All nodes -/

section Run

variable {s : Sketch} {d : Diagram} {n : Neighborhood Bool} {value : (Nat → Bool) → Valuation}

theorem told_set {signals : Signals Bool} (hs : Told d n value signals) {i : Nat} {m : Node}
    (hm : d.nodes[i]? = some m) {v : Signal Bool}
    (hv : Tells n m.component (fun ch => value ch i) v) :
    Told d n value (signals.setIfInBounds i (some v)) := by
  intro j w hw
  rw [signalAt?_set] at hw
  by_cases hij : i = j ∧ i < signals.size
  · rw [if_pos hij] at hw
    injection hw with hw
    subst hw
    exact ⟨m, hij.1 ▸ hm, hij.1 ▸ hv⟩
  · rw [if_neg hij] at hw
    exact hs j w hw

theorem told_replicate (k : Nat) : Told d n value (Array.replicate k none) := by
  intro j v hv
  rw [signalAt?, Array.getElem?_replicate] at hv
  split at hv
  · exact absurd hv (by simp)
  · exact absurd hv (by simp)

theorem sweep_ends (h : Sketch.Passed s d)
    (hvalue : ∀ ch i, value ch i = d.valueFrom n ch (value ch) i) :
    ∀ (order : List Nat) {signals : Signals Bool}, Told d n value signals →
      Ends (sweep bits d n order signals) (Told d n value) (Undecided d value)
  | [], _, hs => hs
  | i :: order, signals, hs => by
      simp only [sweep]
      cases hm : d.nodes[i]? with
      | none => exact sweep_ends h hvalue order hs
      | some m =>
          refine ends_bind (nodeSignal_ends h hvalue hs hm) fun v hv => ?_
          exact sweep_ends h hvalue order (told_set hs hm hv)

/-- A component that is not allowed is not an undetermined gate. -/
theorem checkSupported_undecided {mode : EvalMode} {e : EvalError}
    (h : checkSupported d mode = .error e) : Undecided d value e := by
  unfold checkSupported at h
  split at h
  · exact absurd h (by simp)
  · rename_i e' hfound
    injection h with h
    subst h
    obtain ⟨m, _, hm⟩ := List.exists_of_findSome?_eq_some hfound
    refine undecided_of_ne fun id he => ?_
    subst he
    unfold Node.obstacle? at hm
    split at hm
    · split at hm
      · exact absurd hm (by simp)
      · exact absurd hm (by simp)
    · split at hm
      · exact absurd hm (by simp)
      · exact absurd hm (by simp)

/-- **A whole evaluation**, in either mode, gives the value of the output. -/
theorem evaluate_ends (h : Sketch.Passed s d)
    (hvalue : ∀ ch i, value ch i = d.valueFrom n ch (value ch) i) (mode : EvalMode) :
    Ends (evaluate bits d n mode) (fun b => ∀ ch, value ch d.output = some b)
      (Undecided d value) := by
  unfold evaluate
  cases hsupported : checkSupported d mode with
  | error e => exact checkSupported_undecided hsupported
  | ok _ =>
      refine ends_bind (sweep_ends h hvalue d.order (told_replicate _)) fun signals hs => ?_
      cases hv : (signals[d.output]?).join with
      | none => exact undecided_of_ne (by simp)
      | some v =>
          cases v with
          | bit b =>
              obtain ⟨_, _, htells⟩ := hs d.output (.bit b) hv
              exact htells.2
          | triple _ _ _ => exact undecided_of_ne (by simp)
          | hidden => exact undecided_of_ne (by simp)

end Run

end Diagram

/-! ## At a neighbourhood -/

namespace Sketch

/-- A gate that passes on the cell or its neighbour, and there is no telling which. -/
def torn : Sketch :=
  let s : Sketch := { metadata := { id := "torn" } }
  let s := ((s.addNode "output" .output).addNode "gate" .thresholdSelect).addNode "self" .self
  let s := ((s.addNode "pred" .pred).addNode "neighbors" .neighbors).addNode "score" .diversity
  let s := ((s.wirePositional 4 5).wire 2 1 .above).wire 3 1 .below
  ((s.wirePositional 5 1).literal (.int 1) 1 none).wirePositional 1 0

/-- What becomes of `torn`. -/
def tornDiagram : Diagram := torn.finish.toOption.get rfl

end Sketch

namespace Diagram

/--
**Lifted evaluation is exact about gates it cannot see through.**

For every choice the equations of an accepted diagram have one solution, the reference
values. A bit that the evaluation gives is the reference value of the output for every
choice. If the evaluation stops at an undetermined gate, then different values arrive at the
branches of that gate, the same two for every choice. Without gates there is no choice, and
the reference is the plain meaning of the diagram.
-/
theorem lifted_exact {s : Sketch} {d : Diagram} (h : s.finish = .ok d) (n : Neighborhood Bool) :
    (∀ ch v, (∀ i, v i = d.valueFrom n ch v i) ↔ v = d.reference n ch)
    ∧ (∀ b, evaluateBits d n .lifted = .ok b → ∀ ch, d.reference n ch d.output = some b)
    ∧ (∀ id, evaluateBits d n .lifted = .error (.undeterminedGate id) →
      ∃ g m p q x, d.nodes[g]? = some m ∧ m.id = id ∧ m.component.branches? = some (p, q)
        ∧ ∀ ch, d.arriving (d.reference n ch) g p = some x
          ∧ d.arriving (d.reference n ch) g q = some (!x))
    ∧ ((∀ m ∈ d.nodes, m.component.branches? = none) →
      ∀ ch ch', d.reference n ch = d.reference n ch') := by
  have hp := Sketch.finish_passed h
  have hvalue : ∀ ch i, d.reference n ch i = d.valueFrom n ch (d.reference n ch) i :=
    fun ch i => hp.reference_eq i
  have hends := evaluate_ends hp hvalue .lifted
  refine ⟨fun ch v => ⟨hp.eq_reference, ?_⟩, ?_, ?_, reference_plain⟩
  · intro hv i
    rw [hv]
    exact hp.reference_eq i
  · intro b hb
    exact ends_ok hends hb
  · intro id he
    exact ends_error hends he id rfl

theorem lifted_exact_torn :
    (∀ ch, Sketch.gatedDiagram.reference ⟨false, true, false⟩ ch 0 = some true)
    ∧ evaluateBits Sketch.tornDiagram ⟨true, false, false⟩ .lifted
      = .error (.undeterminedGate "gate")
    ∧ ∃ g p q x, ∀ ch,
      Sketch.tornDiagram.arriving (Sketch.tornDiagram.reference ⟨true, false, false⟩ ch) g p = some x
      ∧ Sketch.tornDiagram.arriving (Sketch.tornDiagram.reference ⟨true, false, false⟩ ch) g q
        = some (!x) := by
  have hgated : evaluateBits Sketch.gatedDiagram ⟨false, true, false⟩ .lifted = .ok true := by
    decide +kernel
  have htorn : evaluateBits Sketch.tornDiagram ⟨true, false, false⟩ .lifted
      = .error (.undeterminedGate "gate") := by
    decide +kernel
  refine ⟨(lifted_exact (s := Sketch.gated) rfl _).2.1 true hgated, htorn, ?_⟩
  obtain ⟨g, _, p, q, x, _, _, _, hx⟩ :=
    (lifted_exact (s := Sketch.torn) rfl _).2.2.1 "gate" htorn
  exact ⟨g, p, q, x, hx⟩

end Diagram

end RuleWiring
