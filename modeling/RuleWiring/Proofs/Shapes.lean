import Mathlib
import RuleWiring.Proofs.Modes
import RuleWiring.Proofs.SameGraph
import RuleWiring.Proofs.Signals

/-!
# Accepted diagrams do not go wrong

The types of the wires are checked when a diagram is built, and at evaluation there are no types
any more, only signals: a bit, a triple or something hidden. The type of a component tells the
shape of the signal it puts out, with one exception. The exotype is a sigil like others, and so it
may enter where a bit will be read, but its bits are not known and its signal is hidden.

The nodes are visited in an order in which each comes after all that feed it. When the turn of a
node has come, everything that enters it has been put out and has the shape that the types promise
(`Turn`). So no input is ever missing, and a bit that cannot be read is the exotype's.
-/

namespace RuleWiring

open EvalM

/-! ## Whatever is stored -/

namespace EvalM

variable {σ α γ : Type} {P : α → Prop} {Q : EvalError → Prop}

/-- Whatever is stored before, an evaluation ends with a value of which `P` holds, or with an
error of which `Q` does. -/
def Always (m : EvalM σ α) (P : α → Prop) (Q : EvalError → Prop) : Prop :=
  ∀ st, match (m.exec st).1 with
    | .ok x => P x
    | .error e => Q e

theorem always_pure {x : α} (hx : P x) : Always (pure x : EvalM σ α) P Q := fun _ => hx

theorem always_throw {e : EvalError} (he : Q e) : Always (throw e : EvalM σ α) P Q := fun _ => he

/-- An operation of an algebra always has a result. -/
theorem always_lift (m : StateM σ α) : Always (liftM m : EvalM σ α) (fun _ => True) Q := by
  intro st
  have hrun : (EvalM.exec (liftM m : EvalM σ α) st).1 = .ok (m st).1 :=
    congrArg Prod.fst (exec_lift (Prod.eta (m st)).symm)
  simp only [hrun]

theorem always_bind {m : EvalM σ α} {k : α → EvalM σ γ} {P' : γ → Prop} (hm : Always m P Q)
    (hk : ∀ x, P x → Always (k x) P' Q) : Always (m >>= k) P' Q := by
  intro st
  have hfirst := hm st
  rw [exec_bind]
  rcases hrun : m.exec st with ⟨r, st'⟩
  rw [hrun] at hfirst
  cases r with
  | ok x => exact hk x hfirst st'
  | error e => exact hfirst

theorem always_imp {m : EvalM σ α} {P' : α → Prop} (h : Always m P Q) (hP : ∀ x, P x → P' x) :
    Always m P' Q := by
  intro st
  have hst := h st
  cases hrun : (m.exec st).1 with
  | ok x =>
      rw [hrun] at hst
      exact hP x hst
  | error e =>
      rw [hrun] at hst
      exact hst

theorem always_ok {m : EvalM σ α} (h : Always m P Q) {st : σ} {x : α}
    (hrun : (m.exec st).1 = .ok x) : P x := by
  have hst := h st
  rwa [hrun] at hst

theorem always_error {m : EvalM σ α} (h : Always m P Q) {st : σ} {e : EvalError}
    (hrun : (m.exec st).1 = .error e) : Q e := by
  have hst := h st
  rwa [hrun] at hst

end EvalM

/-! ## In the order of the nodes -/

namespace Diagram

section Sweep

variable {s : Sketch} {d : Diagram} {σ β : Type} {alg : BoolAlgebra σ β}
  {inputs : Neighborhood β} {signals : Signals β} {R : Nat → Signal β → Prop}

/-- A node has put out a signal of which something holds. -/
def Put (R : Nat → Signal β → Prop) (signals : Signals β) (j : Nat) : Prop :=
  ∃ v, signalAt? signals j = some v ∧ R j v

theorem put_set {i j : Nat} (hi : i < signals.size) {v : Signal β} (hv : R i v)
    (hj : j ≠ i → Put R signals j) : Put R (signals.setIfInBounds i (some v)) j := by
  rw [Put, signalAt?_set]
  by_cases hij : i = j
  · subst hij
    exact ⟨v, if_pos ⟨rfl, hi⟩, hv⟩
  · rw [if_neg fun hand => hij hand.1]
    exact hj (Ne.symm hij)

/-- **What holds of all signals** need only be shown of one node at a time, once it holds of all
that feed it: the visits keep to the order, in which a node comes after its feeds. -/
theorem sweep_always {Q : EvalError → Prop} (h : Sketch.Passed s d)
    (hnode : ∀ (signals : Signals β) (i : Nat) (m : Node), d.nodes[i]? = some m →
      (∀ j, d.Feeds j i → Put R signals j) →
      Always (nodeSignal alg d inputs signals i m) (R i) Q) :
    ∀ (rest done : List Nat) {signals : Signals β}, done ++ rest = d.order →
      signals.size = d.nodes.length → (∀ j ∈ done, Put R signals j) →
      Always (sweep alg d inputs rest signals) (fun vs => ∀ j ∈ d.order, Put R vs j) Q
  | [], done, signals, horder, _, hput => by
      rw [List.append_nil] at horder
      exact always_pure (horder ▸ hput)
  | i :: rest, done, signals, horder, hsize, hput => by
      have hmem : i ∈ d.order := by rw [← horder]; simp
      have hi := List.mem_range.mp (h.order_perm.mem_iff.mp hmem)
      have hm := List.getElem?_eq_getElem hi
      have hnd : (done ++ i :: rest).Nodup := by
        rw [horder]
        exact h.order_perm.nodup_iff.mpr List.nodup_range
      have hready : ∀ j, d.Feeds j i → Put R signals j := by
        intro j hj
        have hlt := h.feeds_before hj
        rw [← horder] at hlt
        exact hput j (mem_front_of_idxOf_lt hnd hlt)
      simp only [sweep, hm]
      refine always_bind (hnode signals i _ hm hready) fun v hv => ?_
      refine sweep_always h hnode rest (done ++ [i]) (List.append_cons .. ▸ horder)
        (by rw [Array.size_setIfInBounds, hsize]) fun j hj => ?_
      refine put_set (hsize ▸ hi) hv fun hne => hput j ?_
      exact (List.mem_append.mp hj).resolve_right fun hlast => hne (List.mem_singleton.mp hlast)

end Sweep

end Diagram

/-! ## Shapes -/

/-- What is known of a signal without its bits. -/
inductive Shape where
  | bit
  | triple
  | hidden
deriving DecidableEq, Repr

def Signal.shape {β : Type} : Signal β → Shape
  | .bit _ => .bit
  | .triple _ _ _ => .triple
  | .hidden => .hidden

def ValueType.shape : ValueType → Shape
  | .sigil => .bit
  | .sigils => .triple
  | _ => .hidden

namespace Component

/-- The shape of what a component puts out. It is that of the type, unless it is the exotype. -/
def shape (c : Component) : Shape := if c = .exotype then .hidden else c.outputType.shape

/-- The ports at which an evaluation reads a bit: the operands of the mixers that treat every bit
by itself, the branches of the gates, and the output. -/
def bitPorts : Component → List Port
  | .bitNot => [.a]
  | .bitAnd | .bitOr | .bitXor | .average => [.a, .b]
  | .thresholdSelect => [.above, .below]
  | .conditionalSelect => [.thenBranch, .elseBranch]
  | .output => [.sigil]
  | _ => []

theorem shape_of_sigil {c : Component} (h : c.outputType = .sigil) (hc : c ≠ .exotype) :
    c.shape = .bit := by
  rw [shape, if_neg hc, h]
  rfl

theorem shape_of_sigils {c : Component} (h : c.outputType = .sigils) : c.shape = .triple := by
  rw [shape, if_neg (by rintro rfl; exact absurd h (by decide)), h]
  rfl

end Component

namespace Diagram

/-- A port is wired directly from an exotype. -/
def ExotypeAt (d : Diagram) (i : Nat) (p : Port) : Prop :=
  ∃ j x, ⟨.node j, i, p⟩ ∈ d.edges ∧ d.nodes[j]? = some x ∧ x.component = .exotype

end Diagram

/-! ## What the types promise -/

namespace Sketch.Passed

open Diagram

variable {s : Sketch} {d : Diagram} {i : Nat} {m : Node} {p : Port} {t : ValueType}

/-- Something of the right type feeds every declared port. -/
theorem exists_input (h : Passed s d) (hm : d.nodes[i]? = some m)
    (hp : m.component.inputType? p = some t) : ∃ src found, d.input? i p = some src
      ∧ ⟨src, i, p⟩ ∈ d.edges ∧ sourceType? d.nodes src = some found ∧ found.feeds t := by
  have hport := Component.mem_ports_of_inputType? hp
  rw [← (h.inputsOf_spec hm).1] at hport
  obtain ⟨⟨_, src⟩, hf, rfl⟩ := List.mem_map.mp hport
  have hedge := h.mem_inputsOf.mp hf
  obtain ⟨m', expected, found, hm', hexpected, hfound, hfeeds⟩ := h.fits _ hedge
  dsimp only at hm' hexpected hfound
  rw [hm] at hm'
  injection hm' with hm'
  subst hm'
  rw [hp] at hexpected
  injection hexpected with hexpected
  subst hexpected
  exact ⟨src, found, h.input?_of_edge hedge, hedge, hfound, hfeeds⟩

/-- No constant is a sigil or several: such a value comes from a node of the very type. -/
theorem exists_node (h : Passed s d) (hm : d.nodes[i]? = some m)
    (hp : m.component.inputType? p = some t) (ht : t = .sigil ∨ t = .sigils) :
    ∃ j x, d.input? i p = some (.node j) ∧ ⟨.node j, i, p⟩ ∈ d.edges ∧ d.nodes[j]? = some x
      ∧ x.component.outputType = t := by
  obtain ⟨src, found, hin, hedge, hfound, hfeeds⟩ := h.exists_input hm hp
  have hsame : found = t := by
    revert hfeeds
    rcases ht with rfl | rfl <;> cases found <;> decide
  subst hsame
  cases src with
  | node j =>
      obtain ⟨x, hx, htype⟩ := Option.map_eq_some_iff.mp hfound
      exact ⟨j, x, hin, hedge, hx, htype⟩
  | literal l =>
      rcases ht with rfl | rfl <;> cases l <;>
        exact absurd hfound (by simp [sourceType?, Literal.valueType])

end Sketch.Passed

namespace Diagram

variable {s : Sketch} {d : Diagram} {σ β : Type} {alg : BoolAlgebra σ β}
  {inputs : Neighborhood β} {signals : Signals β} {i : Nat} {m : Node} {p : Port}

/-! ## One node -/

/-- A signal that is right for its node: it has the shape that the types promise, and no exotype
stands where the node has read a bit. -/
def Right (d : Diagram) (i : Nat) (v : Signal β) : Prop :=
  ∃ m, d.nodes[i]? = some m ∧ v.shape = m.component.shape
    ∧ ∀ p ∈ m.component.bitPorts, ¬d.ExotypeAt i p

/-- The turn of a node: everything that feeds it has put out the right signal. -/
structure Turn (s : Sketch) (d : Diagram) (signals : Signals β) (i : Nat) (m : Node) : Prop where
  passed : Sketch.Passed s d
  node : d.nodes[i]? = some m
  fed : ∀ j, d.Feeds j i → Put (Right d) signals j

/-- What may be wrong with an accepted diagram when it is evaluated: the branches of a gate
differ, or an exotype stands where a bit is read. -/
inductive Blamed (d : Diagram) : EvalError → Prop
  | gate {m : Node} : m ∈ d.nodes → m.component ∈ [.thresholdSelect, .conditionalSelect] →
      Blamed d (.undeterminedGate m.id)
  | exotype {i : Nat} {m : Node} {p : Port} : d.nodes[i]? = some m → d.ExotypeAt i p →
      Blamed d (.nonBooleanInput m.id p)

/-- **Nothing is missing**, and what comes from a node has its shape. -/
theorem fetch_always {Q : EvalError → Prop} (h : Turn s d signals i m) {t : ValueType}
    (hp : m.component.inputType? p = some t) : Always (fetch alg d signals i m p)
      (fun v => ∀ j x, d.input? i p = some (.node j) → d.nodes[j]? = some x →
        v.shape = x.component.shape) Q := by
  obtain ⟨src, _, hin, _, _, _⟩ := h.passed.exists_input h.node hp
  unfold fetch
  rw [hin]
  cases src with
  | node j =>
      obtain ⟨v, hv, x, hx, hshape, _⟩ := h.fed j (h.passed.feeds_of_input? hin)
      rw [signalAt?] at hv
      simp only [hv]
      refine always_pure fun j' x' hj hx' => ?_
      cases hj
      rw [hx] at hx'
      cases hx'
      exact hshape
  | literal l =>
      cases l with
      | bool b =>
          refine always_bind (always_lift (alg.constant b)) fun v _ => ?_
          exact always_pure (by simp)
      | int w | real x => exact always_pure (by simp)

/-- **A bit is read**, unless it is an exotype's. -/
theorem fetchBit_always (h : Turn s d signals i m) (hp : m.component.inputType? p = some .sigil) :
    Always (fetchBit alg d signals i m p) (fun _ => ¬d.ExotypeAt i p) (Blamed d) := by
  obtain ⟨j, x, hin, hedge, hx, htype⟩ := h.passed.exists_node h.node hp (.inl rfl)
  refine always_bind (fetch_always h hp) fun v hv => ?_
  have hshape := hv j x hin hx
  have hexotype : v.shape ≠ .bit → d.ExotypeAt i p := by
    intro hv
    refine ⟨j, x, hedge, hx, ?_⟩
    by_contra hc
    exact hv (hshape.trans (Component.shape_of_sigil htype hc))
  cases v with
  | bit b =>
      refine always_pure ?_
      rintro ⟨j', x', hedge', hx', hc⟩
      -- the port has one source
      have hhidden := hv j' x' (h.passed.input?_of_edge hedge') hx'
      rw [hc] at hhidden
      exact absurd hhidden (by simp [Signal.shape, Component.shape])
  | triple _ _ _ | hidden =>
      exact always_throw (.exotype h.node (hexotype (by simp [Signal.shape])))

/-- Three bits are read where several sigils enter. -/
theorem fetch_triple (h : Turn s d signals i m) (hp : m.component.inputType? p = some .sigils) :
    Always (fetch alg d signals i m p) (fun v => v.shape = .triple) (Blamed d) := by
  obtain ⟨j, x, hin, _, hx, htype⟩ := h.passed.exists_node h.node hp (.inr rfl)
  exact always_imp (fetch_always h hp) fun v hv =>
    (hv j x hin hx).trans (Component.shape_of_sigils htype)

theorem agreed_always {Q : EvalError → Prop} (hQ : Q (.undeterminedGate m.id)) (a b : β) :
    Always (agreed alg m a b) (fun v => v.shape = .bit) Q := by
  intro st
  have hrun : (agreed alg m a b).exec st
      = (if alg.same st a b then .ok (.bit a) else .error (.undeterminedGate m.id), st) := by
    show EvalM.exec (if alg.same st a b then _ else _) st = _
    split <;> rfl
  rw [hrun]
  cases alg.same st a b with
  | true => rfl
  | false => exact hQ

/-- **One node** puts out the right signal. -/
theorem nodeSignal_always (h : Turn s d signals i m) (hm : m.component.mixesBits = false) :
    Always (nodeSignal alg d inputs signals i m) (Right d i) (Blamed d) := by
  have hright : ∀ {v : Signal β}, v.shape = m.component.shape →
      (∀ p ∈ m.component.bitPorts, ¬d.ExotypeAt i p) → Right d i v :=
    fun hv hclear => ⟨m, h.node, hv, hclear⟩
  obtain ⟨id, c⟩ := m
  cases c with
  | self | prev | pred | succ | neighbors | exotype | diversity | entropy | similarity | evenness
  | dominance | autocorrelation | bitTest =>
      exact always_pure (hright rfl (by simp [Component.bitPorts]))
  | shiftLeft | shiftRight | crossover | mutate => exact absurd hm (by simp [Component.mixesBits])
  | bitNot =>
      refine always_bind (fetchBit_always h (p := .a) rfl) fun a ha => ?_
      refine always_bind (always_lift _) fun v _ => ?_
      exact always_pure (hright rfl (by simpa [Component.bitPorts] using ha))
  | bitAnd | bitOr | bitXor | average =>
      refine always_bind (fetchBit_always h (p := .a) rfl) fun a ha => ?_
      refine always_bind (fetchBit_always h (p := .b) rfl) fun b hb => ?_
      refine always_bind (always_lift _) fun v _ => ?_
      exact always_pure (hright rfl (by simpa [Component.bitPorts] using ⟨ha, hb⟩))
  | majority =>
      refine always_bind (fetch_triple h (p := .sigils) rfl) fun v hv => ?_
      cases v with
      | triple l c r =>
          refine always_bind (always_lift _) fun v _ => ?_
          exact always_pure (hright rfl (by simp [Component.bitPorts]))
      | bit _ | hidden => exact absurd hv (by simp [Signal.shape])
  | thresholdSelect =>
      refine always_bind (fetchBit_always h (p := .above) rfl) fun a ha => ?_
      refine always_bind (fetchBit_always h (p := .below) rfl) fun b hb => ?_
      refine always_imp (agreed_always (.gate (List.mem_of_getElem? h.node) (by simp)) a b)
        fun v hv => hright hv ?_
      simpa [Component.bitPorts] using ⟨ha, hb⟩
  | conditionalSelect =>
      refine always_bind (fetchBit_always h (p := .thenBranch) rfl) fun a ha => ?_
      refine always_bind (fetchBit_always h (p := .elseBranch) rfl) fun b hb => ?_
      have hclear : ∀ p ∈ Component.conditionalSelect.bitPorts, ¬d.ExotypeAt i p := by
        simpa [Component.bitPorts] using ⟨ha, hb⟩
      -- the condition may have any shape
      refine always_bind (fetch_always h (p := .cond) (t := .bool) rfl) fun v _ => ?_
      cases v with
      | bit c =>
          refine always_bind (always_lift _) fun v _ => ?_
          exact always_pure (hright rfl hclear)
      | triple _ _ _ | hidden =>
          refine always_imp (agreed_always (.gate (List.mem_of_getElem? h.node) (by simp)) a b)
            fun v hv => hright hv hclear
  | output =>
      refine always_bind (fetchBit_always h (p := .sigil) rfl) fun a ha => ?_
      exact always_pure (hright rfl (by simpa [Component.bitPorts] using ha))

/-! ## All nodes -/

theorem mixesBits_of_supported {mode : EvalMode} (h : checkSupported d mode = .ok ()) :
    ∀ m ∈ d.nodes, m.component.mixesBits = false := by
  have hlifted : checkSupported d .lifted = .ok () := by
    cases mode with
    | strict => exact checkSupported_of_strict h
    | lifted => exact h
  intro m hm
  simpa [Node.obstacle?] using checkSupported_ok_iff.mp hlifted m hm

/-- **A whole evaluation.** If it ends with a value then nowhere an exotype stands where a bit is
read. -/
theorem evaluate_always (h : Sketch.Passed s d) {mode : EvalMode}
    (hsupported : checkSupported d mode = .ok ()) : Always (evaluate alg d inputs mode)
      (fun _ => ∀ i m, d.nodes[i]? = some m → ∀ p ∈ m.component.bitPorts, ¬d.ExotypeAt i p)
      (Blamed d) := by
  unfold evaluate
  rw [hsupported]
  have hplain := mixesBits_of_supported hsupported
  refine always_bind (sweep_always (R := Right d) h (fun signals i m hm hready => ?_) d.order [] rfl
    (Array.size_replicate ..) (by simp)) fun signals hput => ?_
  · exact nodeSignal_always ⟨h, hm, hready⟩ (hplain m (List.mem_of_getElem? hm))
  have hvisited : ∀ {i m}, d.nodes[i]? = some m → i ∈ d.order := fun hm =>
    h.order_perm.mem_iff.mpr (List.mem_range.mpr (List.getElem?_eq_some_iff.mp hm).1)
  -- the output is a bit
  obtain ⟨houtput, hterminal⟩ := h.output_spec
  obtain ⟨v, hv, x, hx, hshape, _⟩ :=
    hput d.output (hvisited (List.getElem?_eq_getElem houtput))
  have hbit : v.shape = .bit := by
    rw [hshape, (hterminal _ x hx).mpr rfl]
    rfl
  cases v with
  | bit b =>
      rw [signalAt?] at hv
      rw [hv]
      refine always_pure fun i m hm => ?_
      obtain ⟨_, _, x, hx, _, hclear⟩ := hput i (hvisited hm)
      rw [hm] at hx
      cases hx
      exact hclear
  | triple _ _ _ | hidden => exact absurd hbit (by simp [Signal.shape])

/-! ## What may go wrong -/

/-- The components that strict mode allows. -/
def strictComponents : List Component :=
  [.pred, .self, .succ, .bitAnd, .bitOr, .bitXor, .bitNot, .output]

/-- The components that lifted mode does not allow. -/
def mixingComponents : List Component := [.shiftLeft, .shiftRight, .crossover, .mutate]

theorem checkSupported_strict_iff {e : EvalError} : checkSupported d .strict = .error e ↔
    ∃ m, d.nodes.find? (·.component ∉ strictComponents) = some m
      ∧ e = .unsupportedComponent m.id m.component := by
  refine checkSupported_error_iff (· ∉ strictComponents)
    (fun m => .unsupportedComponent m.id m.component) ?_
  rintro ⟨id, c⟩
  cases c <;> rfl

theorem checkSupported_lifted_iff {e : EvalError} : checkSupported d .lifted = .error e ↔
    ∃ m, d.nodes.find? (·.component ∈ mixingComponents) = some m
      ∧ e = .notLiftable m.id m.component := by
  refine checkSupported_error_iff (· ∈ mixingComponents)
    (fun m => .notLiftable m.id m.component) ?_
  rintro ⟨id, c⟩
  cases c <;> rfl

/-- Nothing can go wrong with a diagram of Boolean logic. -/
theorem not_blamed (hsupported : checkSupported d .strict = .ok ()) {e : EvalError} :
    ¬Blamed d e := by
  have hlogic : ∀ m ∈ d.nodes, m.component.isLogic = true := fun m hm => by
    simpa [Node.obstacle?] using checkSupported_ok_iff.mp hsupported m hm
  rintro (⟨hm, hgate⟩ | ⟨_, _, x, _, hx, hexotype⟩)
  · have hgates : ∀ c ∈ [Component.thresholdSelect, .conditionalSelect], c.isLogic = false := by
      decide
    have h := hlogic _ hm
    rw [hgates _ hgate] at h
    exact absurd h (by simp)
  · have h := hlogic x (List.mem_of_getElem? hx)
    rw [hexotype] at h
    exact absurd h (by decide)

/-- An evaluation that fails does so in the check, or is to blame on something that the check does
not look for. -/
theorem error_cases (h : Sketch.Passed s d) {mode : EvalMode} {st : σ} {e : EvalError}
    (hrun : ((evaluate alg d inputs mode).exec st).1 = .error e) :
    checkSupported d mode = .error e ∨ checkSupported d mode = .ok () ∧ Blamed d e := by
  cases hsupported : checkSupported d mode with
  | ok _ => exact .inr ⟨rfl, always_error (evaluate_always h hsupported) hrun⟩
  | error e' =>
      rw [evaluate_unsupported hsupported] at hrun
      injection hrun with he
      exact .inl (he ▸ rfl)

theorem strict_error_iff (h : Sketch.Passed s d) (st : σ) {e : EvalError} :
    ((evaluate alg d inputs .strict).exec st).1 = .error e ↔
      checkSupported d .strict = .error e := by
  refine ⟨fun hrun => ?_, fun hcheck => by rw [evaluate_unsupported hcheck]⟩
  exact (error_cases h hrun).resolve_right fun hblamed => not_blamed hblamed.1 hblamed.2

/-- How lifted evaluation of a diagram can end. -/
structure LiftedSafe (d : Diagram) (r : Except EvalError β) : Prop where
  /-- Every input is there. -/
  missing : ∀ id p, r ≠ .error (.missingInput id p)
  /-- Only the other mode complains about what is no Boolean logic. -/
  unsupported : ∀ id c, r ≠ .error (.unsupportedComponent id c)
  /-- The first node that mixes bits is named, and there is no such complaint without one. -/
  notLiftable : ∀ id c, r = .error (.notLiftable id c) ↔
    ∃ m, d.nodes.find? (·.component ∈ mixingComponents) = some m ∧ id = m.id ∧ c = m.component
  /-- Only the two gates can be undetermined. -/
  gate : ∀ id, r = .error (.undeterminedGate id) →
    ∃ m ∈ d.nodes, m.id = id ∧ m.component ∈ [.thresholdSelect, .conditionalSelect]
  /-- Only an exotype cannot be read. -/
  unreadable : ∀ id p, r = .error (.nonBooleanInput id p) →
    ∃ i m, d.nodes[i]? = some m ∧ m.id = id ∧ d.ExotypeAt i p
  /-- Where an exotype would have to be read, there is no value. -/
  exotype : ∀ i m p, d.nodes[i]? = some m → p ∈ m.component.bitPorts → d.ExotypeAt i p →
    ∃ e, r = .error e

theorem lifted_safe (h : Sketch.Passed s d) (st : σ) :
    LiftedSafe d ((evaluate alg d inputs .lifted).exec st).1 := by
  have hblamed : ∀ {e}, ((evaluate alg d inputs .lifted).exec st).1 = .error e →
      (∀ id c, e ≠ .notLiftable id c) → Blamed d e := by
    intro e hrun hother
    rcases error_cases h hrun with hcheck | hblamed
    · obtain ⟨_, _, he⟩ := checkSupported_lifted_iff.mp hcheck
      exact absurd he (hother _ _)
    · exact hblamed.2
  refine ⟨fun id p hrun => ?_, fun id c hrun => ?_, fun id c => ⟨fun hrun => ?_, ?_⟩,
    fun id hrun => ?_, fun id p hrun => ?_, fun i m p hm hp hat => ?_⟩
  · cases hblamed hrun (by simp)
  · cases hblamed hrun (by simp)
  · rcases error_cases h hrun with hcheck | hblamed
    · obtain ⟨m, hfirst, he⟩ := checkSupported_lifted_iff.mp hcheck
      injection he with hid hc
      exact ⟨m, hfirst, hid, hc⟩
    · cases hblamed.2
  · rintro ⟨m, hfirst, rfl, rfl⟩
    rw [evaluate_unsupported (checkSupported_lifted_iff.mpr ⟨m, hfirst, rfl⟩)]
  · cases hblamed hrun (by simp) with
    | gate hm hgate => exact ⟨_, hm, rfl, hgate⟩
  · cases hblamed hrun (by simp) with
    | exotype hm hat => exact ⟨_, _, hm, rfl, hat⟩
  · cases hrun : ((evaluate alg d inputs .lifted).exec st).1 with
    | error e => exact ⟨e, rfl⟩
    | ok v =>
        have hsupported := checkSupported_of_exec (Prod.ext hrun rfl)
        exact absurd hat (always_ok (evaluate_always h hsupported) hrun i m hm p hp)

end Diagram

/-- The negation of an exotype. -/
def Sketch.veiled : Sketch :=
  let s : Sketch := { metadata := { id := "veiled" } }
  let s := ((s.addNode "output" .output).addNode "not" .bitNot).addNode "exotype" .exotype
  (s.wirePositional 2 1).wirePositional 1 0

/-- What becomes of `veiled`. -/
def Sketch.veiledDiagram : Diagram := Sketch.veiled.finish.toOption.get rfl

namespace Diagram

/--
**An accepted diagram goes wrong only in the ways that are named.**

The diagram, the algebra, its store and the values at the inputs are arbitrary. Strict evaluation
fails just if some component is not of the eight that it allows, and names the first. Lifted
evaluation never misses an input. It refuses a diagram just if some component mixes bits, and
names the first; besides, it can only fail at a gate, or where an exotype is to be read as a bit,
and there it always fails.
-/
theorem evaluate_safe {s : Sketch} {d : Diagram} (h : s.finish = .ok d) {σ β : Type}
    (alg : BoolAlgebra σ β) (inputs : Neighborhood β) (st : σ) :
    (∀ e, ((evaluate alg d inputs .strict).exec st).1 = .error e ↔
      ∃ m, d.nodes.find? (·.component ∉ strictComponents) = some m
        ∧ e = .unsupportedComponent m.id m.component)
    ∧ LiftedSafe d ((evaluate alg d inputs .lifted).exec st).1 := by
  have hp := Sketch.finish_passed h
  exact ⟨fun e => (strict_error_iff hp st).trans checkSupported_strict_iff, lifted_safe hp st⟩

/-- An exotype cannot be negated, at bits or at terms. -/
theorem evaluate_safe_veiled :
    evaluateBits Sketch.veiledDiagram ⟨true, false, true⟩ .strict
      = .error (.unsupportedComponent "exotype" .exotype)
    ∧ (∀ n, ∃ e, evaluateBits Sketch.veiledDiagram n .lifted = .error e)
    ∧ ∃ e, (evaluateTerms Sketch.veiledDiagram ⟨0, 1, 2⟩ .lifted TermArena.threeVars).1
      = .error e := by
  have hat : Sketch.veiledDiagram.ExotypeAt 1 .a :=
    ⟨2, ⟨"exotype", .exotype⟩, by decide +kernel, rfl, rfl⟩
  refine ⟨?_, fun n => ?_, ?_⟩
  · refine ((evaluate_safe (s := Sketch.veiled) rfl bits ⟨true, false, true⟩ ()).1 _).mpr ?_
    exact ⟨⟨"exotype", .exotype⟩, by decide +kernel, rfl⟩
  · exact (evaluate_safe (s := Sketch.veiled) rfl bits n ()).2.exotype 1 _ .a rfl (by decide) hat
  · exact (evaluate_safe (s := Sketch.veiled) rfl TermArena.algebra ⟨0, 1, 2⟩ TermArena.threeVars).2
      |>.exotype 1 _ .a rfl (by decide) hat

end Diagram

end RuleWiring
