import Mathlib
import RuleWiring.Proofs.Expression
import RuleWiring.Proofs.Simulation

/-!
# Evaluation by the tree

What a node puts out depends on its tree alone. Either each node puts out what its tree says, or
the evaluation stops, and then it stops at a node that is stuck: everything that comes in is
there, and the component makes nothing of it. So an evaluation can be known from the trees, in
whatever order the nodes are visited.
-/

namespace RuleWiring

open EvalM

/-- What stands before a node in an order without repetitions. -/
theorem mem_front_of_idxOf_lt {front back : List Nat} {i j : Nat}
    (hnd : (front ++ i :: back).Nodup)
    (hlt : (front ++ i :: back).idxOf j < (front ++ i :: back).idxOf i) : j ∈ front := by
  have hi : i ∉ front := fun hi => List.disjoint_of_nodup_append hnd hi (List.mem_cons_self ..)
  rw [List.idxOf_append_of_notMem hi, List.idxOf_cons_self, Nat.add_zero] at hlt
  by_contra hj
  rw [List.idxOf_append_of_notMem hj] at hlt
  omega

/-! ## What a tree puts out -/

/-- The bit of a signal that is one. -/
def Signal.bit? : Signal Bool → Option Bool
  | .bit b => some b
  | _ => none

/-- The bit that comes in at a port, if it is one. -/
def bitAt (arg : Port → Option (Signal Bool)) (p : Port) : Option Bool := (arg p).bind Signal.bit?

/-- What a gate that cannot see its condition passes on. -/
def agreement : Option Bool → Option Bool → Option (Signal Bool)
  | some a, some b => if a = b then some (.bit a) else none
  | _, _ => none

/-- What a component makes of what comes in at its ports, if it makes anything of it. -/
def Component.signal? (n : Neighborhood Bool) (arg : Port → Option (Signal Bool)) :
    Component → Option (Signal Bool)
  | .self | .prev => some (.bit n.center)
  | .pred => some (.bit n.left)
  | .succ => some (.bit n.right)
  | .neighbors => some (.triple n.left n.center n.right)
  | .exotype | .diversity | .entropy | .similarity | .evenness | .dominance | .autocorrelation
  | .bitTest => some .hidden
  | .bitNot => (bitAt arg .a).map fun a => .bit !a
  | .bitAnd => Option.map₂ (fun a b => .bit (a && b)) (bitAt arg .a) (bitAt arg .b)
  | .bitOr | .average => Option.map₂ (fun a b => .bit (a || b)) (bitAt arg .a) (bitAt arg .b)
  | .bitXor => Option.map₂ (fun a b => .bit (a ^^ b)) (bitAt arg .a) (bitAt arg .b)
  | .majority =>
      match arg .sigils with
      | some (.triple l c r) => some (.bit (Neighborhood.vote ⟨l, c, r⟩))
      | _ => none
  | .thresholdSelect => agreement (bitAt arg .above) (bitAt arg .below)
  | .conditionalSelect =>
      match bitAt arg .cond with
      | some c => Option.map₂ (fun a b => .bit (if c then a else b)) (bitAt arg .thenBranch)
          (bitAt arg .elseBranch)
      | none => agreement (bitAt arg .thenBranch) (bitAt arg .elseBranch)
  | .output => (bitAt arg .sigil).map .bit
  | .shiftLeft | .shiftRight | .crossover | .mutate => none

namespace Expression

mutual

/-- What a tree puts out at a neighbourhood, if it is not stuck. -/
def signal? (n : Neighborhood Bool) : Expression → Option (Signal Bool)
  | constant (.bool b) => some (.bit b)
  | constant _ => some .hidden
  | apply c inputs => c.signal? n (argument? n inputs)

/-- What comes in at a port. -/
def argument? (n : Neighborhood Bool) : List (Port × Expression) → Port → Option (Signal Bool)
  | [], _ => none
  | (q, e) :: rest, p => if q = p then signal? n e else argument? n rest p

end

end Expression

/-- A node at which an evaluation stops with some error: it makes nothing of what comes in. -/
structure Node.Stuck (n : Neighborhood Bool) (m : Node) (args : List (Port × Expression))
    (e : EvalError) : Prop where
  /-- Everything that comes in is there. -/
  fed : ∀ a ∈ args, ∃ v, a.2.signal? n = some v
  none : m.component.signal? n (Expression.argument? n args) = none
  /-- Nothing but its branches can be wrong with a gate. -/
  gate : ∀ a b, m.component = .thresholdSelect →
    bitAt (Expression.argument? n args) .above = some a →
    bitAt (Expression.argument? n args) .below = some b → e = .undeterminedGate m.id

namespace Diagram

variable {d : Diagram} {n : Neighborhood Bool} {signals : Signals Bool}

/-! ## One node -/

/-- Everything that comes in at the ports of a node can be fetched. -/
def Supplies (d : Diagram) (signals : Signals Bool) (i : Nat) (m : Node)
    (arg : Port → Option (Signal Bool)) : Prop :=
  ∀ p ∈ m.component.ports, ∃ v, arg p = some v ∧ (fetch bits d signals i m p).outcome = .ok v

section Node

variable {i : Nat} {m : Node} {arg : Port → Option (Signal Bool)} {p : Port}
  {Q : EvalError → Prop}

/-- A gate passes on what its branches agree on. -/
theorem agreed_ends_of_bits {a b : Bool} {x : Option (Signal Bool)}
    (hx : x = agreement (some a) (some b)) (hQ : x = none → Q (.undeterminedGate m.id)) :
    Ends (agreed bits m a b) (fun v => x = some v) Q := by
  rw [Ends, agreed_outcome]
  by_cases hab : a = b
  · rw [if_pos hab]
    exact hx.trans (if_pos hab)
  · rw [if_neg hab]
    exact hQ (hx.trans (if_neg hab))

theorem fetch_ends_of_supplied (h : Supplies d signals i m arg) (hp : p ∈ m.component.ports) :
    Ends (fetch bits d signals i m p) (fun v => arg p = some v) Q := by
  obtain ⟨v, hv, hfetch⟩ := h p hp
  exact ends_of_outcome hfetch hv

theorem fetchBit_ends_of_supplied (h : Supplies d signals i m arg) (hp : p ∈ m.component.ports)
    (hQ : ∀ e, bitAt arg p = none → Q e) :
    Ends (fetchBit bits d signals i m p) (fun b => bitAt arg p = some b) Q := by
  refine ends_bind (fetch_ends_of_supplied h hp) fun v hv => ?_
  cases v with
  | bit b =>
      show bitAt arg p = some b
      rw [bitAt, hv]
      rfl
  | triple _ _ _ | hidden =>
      refine hQ _ ?_
      rw [bitAt, hv]
      rfl

/-- **A node puts out what its component makes of its inputs**, or the evaluation stops at it. -/
theorem nodeSignal_ends_of_supplied (h : Supplies d signals i m arg) :
    Ends (nodeSignal bits d n signals i m) (fun v => m.component.signal? n arg = some v)
      (fun e => m.component.signal? n arg = none ∧ ∀ a b, m.component = .thresholdSelect →
        bitAt arg .above = some a → bitAt arg .below = some b → e = .undeterminedGate m.id) := by
  obtain ⟨id, c⟩ := m
  have hport : ∀ p, p ∈ c.ports → p ∈ (Node.mk id c).component.ports := fun _ hp => hp
  cases c with
  | self | prev | pred | succ | neighbors | exotype | diversity | entropy | similarity | evenness
  | dominance | autocorrelation | bitTest => exact rfl
  | shiftLeft | shiftRight | crossover | mutate => exact ⟨rfl, by simp⟩
  | bitNot =>
      refine ends_bind (fetchBit_ends_of_supplied h (hport .a (by decide)) fun e he => ?_)
        fun a ha => ?_
      · exact ⟨by rw [Component.signal?, he]; rfl, by simp⟩
      · show Component.signal? n arg .bitNot = _
        rw [Component.signal?, ha]
        rfl
  | bitAnd | bitOr | bitXor | average =>
      refine ends_bind (fetchBit_ends_of_supplied h (hport .a (by decide)) fun e he => ?_)
        fun a ha => ?_
      · exact ⟨by rw [Component.signal?, he]; rfl, by simp⟩
      · refine ends_bind (fetchBit_ends_of_supplied h (hport .b (by decide)) fun e he => ?_)
          fun b hb => ?_
        · exact ⟨by rw [Component.signal?, ha, he]; rfl, by simp⟩
        · show Component.signal? n arg _ = _
          rw [Component.signal?, ha, hb]
          rfl
  | majority =>
      refine ends_bind (fetch_ends_of_supplied h (hport .sigils (by decide))) fun v hv => ?_
      cases v with
      | triple l c r =>
          show Component.signal? n arg .majority = _
          rw [Component.signal?, hv]
          rfl
      | bit _ | hidden => exact ⟨by rw [Component.signal?, hv], by simp⟩
  | thresholdSelect =>
      refine ends_bind (fetchBit_ends_of_supplied h (hport .above (by decide)) fun e he => ?_)
        fun a ha => ?_
      · exact ⟨by rw [Component.signal?, he]; rfl, fun a b _ ha => by simp [he] at ha⟩
      · refine ends_bind (fetchBit_ends_of_supplied h (hport .below (by decide)) fun e he => ?_)
          fun b hb => ?_
        · exact ⟨by rw [Component.signal?, ha, he]; rfl, fun _ _ _ _ hb => by simp [he] at hb⟩
        · have hgate : Component.signal? n arg .thresholdSelect = agreement (some a) (some b) := by
            rw [Component.signal?, ha, hb]
          exact agreed_ends_of_bits hgate fun hnone => ⟨hnone, fun _ _ _ _ _ => rfl⟩
  | conditionalSelect =>
      refine ends_bind (fetchBit_ends_of_supplied h (hport .thenBranch (by decide)) fun e he => ?_)
        fun a ha => ?_
      · refine ⟨?_, by simp⟩
        rw [Component.signal?, he]
        cases bitAt arg .cond <;> rfl
      · refine ends_bind (fetchBit_ends_of_supplied h (hport .elseBranch (by decide))
          fun e he => ?_) fun b hb => ?_
        · refine ⟨?_, by simp⟩
          rw [Component.signal?, ha, he]
          cases bitAt arg .cond <;> rfl
        · refine ends_bind (fetch_ends_of_supplied h (hport .cond (by decide))) fun v hv => ?_
          cases v with
          | bit c =>
              show Component.signal? n arg .conditionalSelect = _
              rw [Component.signal?, bitAt, hv, ha, hb]
              cases c <;> cases a <;> cases b <;> rfl
          | triple _ _ _ | hidden =>
              refine agreed_ends_of_bits (x := Component.signal? n arg .conditionalSelect) ?_
                fun hnone => ⟨hnone, by simp⟩
              rw [Component.signal?, bitAt, hv, ha, hb]
              rfl
  | output =>
      refine ends_bind (fetchBit_ends_of_supplied h (hport .sigil (by decide)) fun e he => ?_)
        fun a ha => ?_
      · exact ⟨by rw [Component.signal?, he]; rfl, by simp⟩
      · show Component.signal? n arg .output = _
        rw [Component.signal?, ha]
        rfl

end Node

/-! ## All nodes -/

variable {s : Sketch} {tree : Nat → Option Expression}

/-- The trees are put out by the nodes visited so far. -/
structure Shown (d : Diagram) (n : Neighborhood Bool) (tree : Nat → Option Expression)
    (done : List Nat) (signals : Signals Bool) : Prop where
  size : signals.size = d.nodes.length
  shown : ∀ j ∈ done, ∃ e v, tree j = some e ∧ e.signal? n = some v ∧ signalAt? signals j = some v

/-- Some node at which an evaluation stops. -/
def StuckAt (d : Diagram) (n : Neighborhood Bool) (tree : Nat → Option Expression)
    (e : EvalError) : Prop :=
  ∃ i m args, d.nodes[i]? = some m ∧ tree i = some (.apply m.component args) ∧ m.Stuck n args e

/-- What a source sends on. -/
def Sends (signals : Signals Bool) (v : Signal Bool) : Source → Prop
  | .node j => signalAt? signals j = some v
  | .literal (.bool b) => v = .bit b
  | .literal _ => v = .hidden

theorem fetch_of_sends {v : Signal Bool} {src : Source} (h : Sends signals v src) {i : Nat}
    {p : Port} (hin : d.input? i p = some src) (m : Node) :
    (fetch bits d signals i m p).outcome = .ok v := by
  unfold fetch
  rw [hin]
  cases src with
  | node j =>
      have hat : (signals[j]?).join = some v := h
      dsimp only
      rw [hat]
      rfl
  | literal l =>
      cases l with
      | bool b | int w | real x =>
          rw [show v = _ from h]
          rfl

/-- If what feeds a source has been visited, the source sends on what its tree puts out. -/
theorem exists_sent {done : List Nat} (hs : Shown d n tree done signals) {src : Source}
    {e : Expression} (hstands : src.Stands tree e) (hdone : ∀ j, src = .node j → j ∈ done) :
    ∃ v, e.signal? n = some v ∧ Sends signals v src := by
  cases src with
  | node j =>
      obtain ⟨e', v, he', hv, hat⟩ := hs.shown j (hdone j rfl)
      have hee : some e' = some e := he'.symm.trans hstands
      injection hee with hee
      exact ⟨v, hee ▸ hv, hat⟩
  | literal l =>
      have he : e = .constant l := hstands
      subst he
      cases l with
      | bool b | int w | real x => exact ⟨_, rfl, rfl⟩

/-- The tree that comes in at a port. -/
theorem argument_of_stands {fs : List (Port × Source)} {args : List (Port × Expression)} {p : Port}
    (h : InputsStand tree fs args) (hp : p ∈ fs.map Prod.fst) :
    ∃ f e, fs.find? (·.1 = p) = some f ∧ f.2.Stands tree e
      ∧ Expression.argument? n args p = e.signal? n := by
  induction h with
  | nil => exact absurd hp (by simp)
  | @cons f a fs args hfa _ ih =>
      obtain ⟨q, e⟩ := a
      obtain ⟨hport, hstands⟩ := hfa
      rw [List.find?_cons, Expression.argument?]
      by_cases hq : f.1 = p
      · rw [decide_eq_true hq, if_pos (hport.symm.trans hq)]
        exact ⟨f, e, rfl, hstands, rfl⟩
      · rw [decide_eq_false hq, if_neg fun hqp => hq (hport.trans hqp)]
        rw [List.map_cons, List.mem_cons] at hp
        exact ih (hp.resolve_left fun hpf => hq hpf.symm)

/-- **One node**, once all that feeds it has been visited. -/
theorem node_ends (h : Sketch.Passed s d) (htree : d.Spelled tree) {done : List Nat}
    (hs : Shown d n tree done signals) {i : Nat} {m : Node} (hm : d.nodes[i]? = some m)
    (hready : ∀ j, d.Feeds j i → j ∈ done) :
    Ends (nodeSignal bits d n signals i m)
      (fun v => ∃ e, tree i = some e ∧ e.signal? n = some v) (StuckAt d n tree) := by
  obtain ⟨args, hargs, hinputs⟩ := htree i m hm
  have hvisited : ∀ f ∈ d.inputsOf i, ∀ j, f.2 = .node j → j ∈ done := fun f hf j hj =>
    hready j ⟨_, h.mem_inputsOf.mp hf, hj, rfl⟩
  have hsupplies : Supplies d signals i m (Expression.argument? n args) := by
    intro p hp
    rw [← (h.inputsOf_spec hm).1] at hp
    obtain ⟨f, e, hfind, hstands, harg⟩ := argument_of_stands hinputs hp
    obtain ⟨v, hv, hsends⟩ :=
      exists_sent hs hstands (hvisited f (List.mem_of_find?_eq_some hfind))
    have hin : d.input? i p = some f.2 := by rw [input?, hfind, Option.map_some]
    exact ⟨v, harg.trans hv, fetch_of_sends hsends hin m⟩
  have hfed : ∀ a ∈ args, ∃ v, a.2.signal? n = some v := by
    intro a ha
    obtain ⟨f, hf, _, hstands⟩ := exists_of_forall₂ hinputs.flip a ha
    obtain ⟨v, hv, _⟩ := exists_sent hs hstands (hvisited f hf)
    exact ⟨v, hv⟩
  refine ends_imp (nodeSignal_ends_of_supplied hsupplies) (fun v hv => ⟨_, hargs, ?_⟩)
    fun e he => ⟨i, m, args, hm, hargs, hfed, he.1, he.2⟩
  rw [Expression.signal?]
  exact hv

theorem shown_set {done : List Nat} (hs : Shown d n tree done signals) {i : Nat} {m : Node}
    (hm : d.nodes[i]? = some m) {v : Signal Bool}
    (hv : ∃ e, tree i = some e ∧ e.signal? n = some v) :
    Shown d n tree (done ++ [i]) (signals.setIfInBounds i (some v)) := by
  obtain ⟨e, he, hv⟩ := hv
  have hi : i < signals.size := hs.size ▸ (List.getElem?_eq_some_iff.mp hm).1
  refine ⟨by rw [Array.size_setIfInBounds, hs.size], fun j hj => ?_⟩
  rw [signalAt?_set]
  by_cases hij : i = j
  · rw [if_pos ⟨hij, hi⟩]
    exact ⟨e, v, hij ▸ he, hv, rfl⟩
  · rw [if_neg fun hand => hij hand.1]
    refine hs.shown j ((List.mem_append.mp hj).resolve_right fun hmem => ?_)
    exact hij (List.mem_singleton.mp hmem).symm

/-- **All nodes.** The visits keep to the order, in which a node comes after its feeds. -/
theorem sweep_ends_shown (h : Sketch.Passed s d) (htree : d.Spelled tree) :
    ∀ (rest done : List Nat) {signals : Signals Bool}, done ++ rest = d.order →
      Shown d n tree done signals →
      Ends (sweep bits d n rest signals) (Shown d n tree d.order) (StuckAt d n tree)
  | [], done, signals, horder, hs => by
      rw [List.append_nil] at horder
      exact horder ▸ hs
  | i :: rest, done, signals, horder, hs => by
      have hmem : i ∈ d.order := by rw [← horder]; simp
      have hi := List.mem_range.mp (h.order_perm.mem_iff.mp hmem)
      have hm := List.getElem?_eq_getElem hi
      have hnd : (done ++ i :: rest).Nodup := by
        rw [horder]
        exact h.order_perm.nodup_iff.mpr List.nodup_range
      have hready : ∀ j, d.Feeds j i → j ∈ done := by
        intro j hj
        have hlt := h.feeds_before hj
        rw [← horder] at hlt
        exact mem_front_of_idxOf_lt hnd hlt
      simp only [sweep, hm]
      refine ends_bind (node_ends h htree hs hm hready) fun v hv => ?_
      exact sweep_ends_shown h htree rest (done ++ [i]) (List.append_cons .. ▸ horder)
        (shown_set hs hm hv)

/--
**A whole evaluation.** It ends with the bit that the tree of the output puts out, and then no
node is stuck; or it ends with an error, and then at a node that is.
-/
theorem evaluate_ends_shown (h : Sketch.Passed s d) (htree : d.Spelled tree) {mode : EvalMode}
    (hsupported : checkSupported d mode = .ok ()) :
    Ends (evaluate bits d n mode)
      (fun b => (∀ i m, d.nodes[i]? = some m → ∃ e v, tree i = some e ∧ e.signal? n = some v)
        ∧ ∃ e, d.expression = some e ∧ e.signal? n = some (.bit b)) (StuckAt d n tree) := by
  unfold evaluate
  rw [hsupported]
  have hstart : Shown d n tree [] (Array.replicate d.nodes.length none) :=
    ⟨Array.size_replicate .., by simp⟩
  refine ends_bind (sweep_ends_shown h htree d.order [] rfl hstart) fun signals hs => ?_
  have hall : ∀ i m, d.nodes[i]? = some m → ∃ e v, tree i = some e ∧ e.signal? n = some v
      ∧ signalAt? signals i = some v := by
    intro i m hm
    have hi := (List.getElem?_eq_some_iff.mp hm).1
    exact hs.shown i (h.order_perm.mem_iff.mpr (List.mem_range.mpr hi))
  -- the output passes on a bit, as it makes nothing of anything else
  obtain ⟨m, hm⟩ : ∃ m, d.nodes[d.output]? = some m := ⟨_, List.getElem?_eq_getElem h.output_spec.1⟩
  obtain ⟨e, v, he, hv, hat⟩ := hall d.output m hm
  obtain ⟨args, hargs, _⟩ := htree d.output m hm
  rw [(h.output_spec.2 _ m hm).mpr rfl] at hargs
  have hbit : ∃ b, v = .bit b := by
    rw [he] at hargs
    injection hargs with hargs
    rw [hargs, Expression.signal?, Component.signal?] at hv
    obtain ⟨b, _, hb⟩ := Option.map_eq_some_iff.mp hv
    exact ⟨b, hb.symm⟩
  obtain ⟨b, rfl⟩ := hbit
  have hjoin : (signals[d.output]?).join = some (.bit b) := hat
  rw [hjoin]
  refine ⟨fun i m hm => ?_, e, (h.expression_eq htree).trans he, hv⟩
  obtain ⟨e, v, he, hv, _⟩ := hall i m hm
  exact ⟨e, v, he, hv⟩

end Diagram

end RuleWiring
