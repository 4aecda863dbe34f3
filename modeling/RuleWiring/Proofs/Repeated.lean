import Mathlib
import RuleWiring.Proofs.Simulation

/-!
# Evaluations repeat

An evaluation adds to its store what it makes on the way. Done once more, in the same store or in
one that has grown since, it finds everything there already: the result is the same, and nothing
is added. What an algebra has to promise for that is collected in `Memory`, and it is passed on
from the operations to whatever is put together from them.

The store of terms keeps the promise although the constructors simplify. What they give back is
decided by the terms at their operands, and those never change. A new term is found again because
a term is looked for from the oldest one on, and nothing is ever put in front.
-/

namespace RuleWiring

open EvalM

/-! ## Stores that grow -/

/-- When one store has everything another has, and which values belong to a store. Only a store
that is in order grows, so it grows to itself exactly if it is. -/
structure Growth (σ β : Type) where
  Grows : σ → σ → Prop
  Holds : σ → β → Prop
  settled : ∀ {st st' : σ}, Grows st st' → Grows st' st'
  trans : ∀ {st st' st'' : σ}, Grows st st' → Grows st' st'' → Grows st st''
  keeps : ∀ {st st' : σ} {x : β}, Grows st st' → Holds st x → Holds st' x

namespace Growth

variable {σ β α γ : Type} (G : Growth σ β)

/-- What is made is in the store from then on, and made again it adds nothing. -/
def Remakes (st : σ) (m : StateM σ β) : Prop :=
  ∃ x st', m st = (x, st') ∧ G.Grows st st' ∧ G.Holds st' x
    ∧ ∀ st'', G.Grows st' st'' → m st'' = (x, st'')

/-- If an evaluation succeeds, then it does so again with the same value, and adds nothing. -/
def Repeats (st : σ) (m : EvalM σ α) (P : σ → α → Prop) : Prop :=
  ∀ x st', m.exec st = (.ok x, st') → G.Grows st st' ∧ P st' x
    ∧ ∀ st'', G.Grows st' st'' → m.exec st'' = (.ok x, st'')

variable {G} {st : σ} {P : σ → α → Prop} {Q : σ → γ → Prop}

theorem remakes_bind {m : StateM σ β} {k : β → StateM σ β} (hm : G.Remakes st m)
    (hk : ∀ x st', G.Grows st st' → G.Holds st' x → G.Remakes st' (k x)) :
    G.Remakes st (m >>= k) := by
  obtain ⟨x, st', hrun, hgrows, hx, hagain⟩ := hm
  obtain ⟨y, st'', hrun', hgrows', hy, hagain'⟩ := hk x st' hgrows hx
  have hbind : ∀ u v, m u = (x, v) → (m >>= k) u = k x v := fun u v h => by
    show (let p := m u; k p.1 p.2) = _
    rw [h]
  refine ⟨y, st'', (hbind _ _ hrun).trans hrun', G.trans hgrows hgrows', hy, fun u hu => ?_⟩
  rw [hbind _ _ (hagain u (G.trans hgrows' hu)), hagain' u hu]

theorem repeats_pure (hst : G.Grows st st) {x : α} (hx : P st x) :
    G.Repeats st (pure x : EvalM σ α) P := by
  rintro y st' h
  cases h
  exact ⟨hst, hx, fun _ _ => rfl⟩

theorem repeats_throw (e : EvalError) : G.Repeats st (throw e : EvalM σ α) P := by
  rintro y st' h
  cases h

theorem repeats_lift {m : StateM σ β} (h : G.Remakes st m) :
    G.Repeats st (liftM m : EvalM σ β) G.Holds := by
  obtain ⟨x, st', hrun, hgrows, hx, hagain⟩ := h
  intro y st'' hy
  rw [exec_lift hrun] at hy
  cases hy
  exact ⟨hgrows, hx, fun u hu => exec_lift (hagain u hu)⟩

/-- One evaluation after the other. -/
theorem repeats_bind {m : EvalM σ α} {k : α → EvalM σ γ} (hm : G.Repeats st m P)
    (hk : ∀ x st', G.Grows st st' → P st' x → G.Repeats st' (k x) Q) :
    G.Repeats st (m >>= k) Q := by
  intro y st'' h
  rw [exec_bind] at h
  split at h
  · rename_i x st' hrun
    obtain ⟨hgrows, hx, hagain⟩ := hm x st' hrun
    obtain ⟨hgrows', hy, hagain'⟩ := hk x st' hgrows hx y st'' h
    refine ⟨G.trans hgrows hgrows', hy, fun u hu => ?_⟩
    rw [exec_bind_ok (hagain u (G.trans hgrows' hu)), hagain' u hu]
  · cases h

/-! ### Values made of values -/

variable (G)

/-- The values in a signal belong to the store. -/
def HoldsSignal (st : σ) : Signal β → Prop
  | .bit v => G.Holds st v
  | .triple l c r => G.Holds st l ∧ G.Holds st c ∧ G.Holds st r
  | .hidden => True

/-- The values in all signals belong to the store. -/
def HoldsSignals (st : σ) (signals : Signals β) : Prop :=
  ∀ j v, signalAt? signals j = some v → G.HoldsSignal st v

def HoldsInputs (st : σ) (inputs : Neighborhood β) : Prop :=
  G.Holds st inputs.left ∧ G.Holds st inputs.center ∧ G.Holds st inputs.right

variable {G} {st' : σ}

theorem keeps_signal (h : G.Grows st st') {v : Signal β} (hv : G.HoldsSignal st v) :
    G.HoldsSignal st' v := by
  cases v with
  | bit x => exact G.keeps h hv
  | triple l c r => exact ⟨G.keeps h hv.1, G.keeps h hv.2.1, G.keeps h hv.2.2⟩
  | hidden => trivial

theorem keeps_signals (h : G.Grows st st') {signals : Signals β}
    (hs : G.HoldsSignals st signals) : G.HoldsSignals st' signals :=
  fun j v hv => keeps_signal h (hs j v hv)

theorem keeps_inputs (h : G.Grows st st') {inputs : Neighborhood β}
    (hin : G.HoldsInputs st inputs) : G.HoldsInputs st' inputs :=
  ⟨G.keeps h hin.1, G.keeps h hin.2.1, G.keeps h hin.2.2⟩

end Growth

/-- What an algebra promises of its store. -/
structure Memory {σ β : Type} (alg : BoolAlgebra σ β) extends Growth σ β where
  constant : ∀ {st : σ} (b : Bool), Grows st st → toGrowth.Remakes st (alg.constant b)
  not : ∀ {st : σ} {x : β}, Grows st st → Holds st x → toGrowth.Remakes st (alg.not x)
  and : ∀ {st : σ} {x y : β}, Grows st st → Holds st x → Holds st y →
    toGrowth.Remakes st (alg.and x y)
  or : ∀ {st : σ} {x y : β}, Grows st st → Holds st x → Holds st y →
    toGrowth.Remakes st (alg.or x y)
  xor : ∀ {st : σ} {x y : β}, Grows st st → Holds st x → Holds st y →
    toGrowth.Remakes st (alg.xor x y)
  /-- What has been found the same stays the same. -/
  same : ∀ {st st' : σ} {x y : β}, Grows st st' → Holds st x → Holds st y →
    alg.same st x y = true → alg.same st' x y = true

/-! ## One node -/

namespace Memory

open Growth

variable {σ β : Type} {alg : BoolAlgebra σ β} (M : Memory alg) {st : σ}

theorem majority {a b c : β} (hst : M.Grows st st) (ha : M.Holds st a) (hb : M.Holds st b)
    (hc : M.Holds st c) : M.Remakes st (alg.majority a b c) := by
  refine remakes_bind (M.and hst ha hb) fun x st1 h1 hx => ?_
  refine remakes_bind (M.and (M.settled h1) (M.keeps h1 hb) (M.keeps h1 hc)) fun y st2 h2 hy => ?_
  have h12 := M.trans h1 h2
  refine remakes_bind (M.and (M.settled h2) (M.keeps h12 ha) (M.keeps h12 hc)) fun z st3 h3 hz => ?_
  refine remakes_bind (M.or (M.settled h3) (M.keeps (M.trans h2 h3) hx) (M.keeps h3 hy))
    fun w st4 h4 hw => ?_
  exact M.or (M.settled h4) hw (M.keeps h4 hz)

theorem choose {c a b : β} (hst : M.Grows st st) (hc : M.Holds st c) (ha : M.Holds st a)
    (hb : M.Holds st b) : M.Remakes st (RuleWiring.choose alg c a b) := by
  refine remakes_bind (M.and hst hc ha) fun x st1 h1 hx => ?_
  refine remakes_bind (M.not (M.settled h1) (M.keeps h1 hc)) fun y st2 h2 hy => ?_
  refine remakes_bind (M.and (M.settled h2) hy (M.keeps (M.trans h1 h2) hb)) fun z st3 h3 hz => ?_
  exact M.or (M.settled h3) (M.keeps (M.trans h2 h3) hx) hz

theorem mixBits (c : Component) {a b : β} (hst : M.Grows st st) (ha : M.Holds st a)
    (hb : M.Holds st b) : M.Remakes st (RuleWiring.mixBits alg c a b) := by
  unfold RuleWiring.mixBits
  split
  · exact M.and hst ha hb
  · exact M.xor hst ha hb
  · exact M.or hst ha hb

variable {d : Diagram} {inputs : Neighborhood β} {signals : Signals β}

theorem agreed_repeats (hst : M.Grows st st) (n : Node) {a b : β} (ha : M.Holds st a)
    (hb : M.Holds st b) : M.Repeats st (agreed alg n a b) M.HoldsSignal := by
  have hexec : ∀ u, (agreed alg n a b).exec u
      = (if alg.same u a b then .ok (.bit a) else .error (.undeterminedGate n.id), u) := by
    intro u
    show EvalM.exec (if alg.same u a b then _ else _) u = _
    split <;> rfl
  intro v st' h
  rw [hexec] at h
  split at h
  · rename_i hsame
    cases h
    refine ⟨hst, ha, fun u hu => ?_⟩
    rw [hexec, if_pos (M.same hu ha hb hsame)]
  · cases h

theorem fetch_repeats (hst : M.Grows st st) (hs : M.HoldsSignals st signals) (i : Nat) (n : Node)
    (p : Port) : M.Repeats st (fetch alg d signals i n p) M.HoldsSignal := by
  unfold fetch
  cases d.input? i p with
  | none => exact repeats_throw _
  | some src =>
      cases src with
      | node j =>
          dsimp only
          cases hv : (signals[j]?).join with
          | none => exact repeats_throw _
          | some v => exact repeats_pure hst (hs j v hv)
      | literal l =>
          cases l with
          | bool b =>
              refine repeats_bind (repeats_lift (M.constant b hst)) fun x st' h hx => ?_
              exact repeats_pure (M.settled h) hx
          | int w | real x => exact repeats_pure hst trivial

theorem fetchBit_repeats (hst : M.Grows st st) (hs : M.HoldsSignals st signals) (i : Nat)
    (n : Node) (p : Port) : M.Repeats st (fetchBit alg d signals i n p) M.Holds := by
  refine repeats_bind (M.fetch_repeats hst hs i n p) fun v st' h hv => ?_
  cases v with
  | bit x => exact repeats_pure (M.settled h) hv
  | triple _ _ _ | hidden => exact repeats_throw _

/-- **One node.** -/
theorem nodeSignal_repeats (hst : M.Grows st st) (hin : M.HoldsInputs st inputs)
    (hs : M.HoldsSignals st signals) (i : Nat) (n : Node) :
    M.Repeats st (nodeSignal alg d inputs signals i n) M.HoldsSignal := by
  obtain ⟨id, c⟩ := n
  have hbit := fun (u : σ) (h : M.Grows st u) (p : Port) =>
    M.fetchBit_repeats (d := d) (M.settled h) (keeps_signals h hs) i ⟨id, c⟩ p
  have hfetch := fun (u : σ) (h : M.Grows st u) (p : Port) =>
    M.fetch_repeats (d := d) (M.settled h) (keeps_signals h hs) i ⟨id, c⟩ p
  cases c with
  | self | prev => exact repeats_pure hst hin.2.1
  | pred => exact repeats_pure hst hin.1
  | succ => exact repeats_pure hst hin.2.2
  | neighbors => exact repeats_pure hst hin
  | exotype | diversity | entropy | similarity | evenness | dominance | autocorrelation
  | bitTest => exact repeats_pure hst trivial
  | shiftLeft | shiftRight | crossover | mutate => exact repeats_throw _
  | bitNot =>
      refine repeats_bind (hbit st hst .a) fun x st1 h1 hx => ?_
      refine repeats_bind (repeats_lift (M.not (M.settled h1) hx)) fun y st2 h2 hy => ?_
      exact repeats_pure (M.settled h2) hy
  | bitAnd | bitOr | bitXor | average =>
      refine repeats_bind (hbit st hst .a) fun x st1 h1 hx => ?_
      refine repeats_bind (hbit st1 h1 .b) fun y st2 h2 hy => ?_
      refine repeats_bind (repeats_lift (M.mixBits _ (M.settled h2) (M.keeps h2 hx) hy))
        fun z st3 h3 hz => ?_
      exact repeats_pure (M.settled h3) hz
  | majority =>
      refine repeats_bind (hfetch st hst .sigils) fun v st1 h1 hv => ?_
      cases v with
      | triple l c r =>
          refine repeats_bind (repeats_lift (M.majority (M.settled h1) hv.1 hv.2.1 hv.2.2))
            fun x st2 h2 hx => ?_
          exact repeats_pure (M.settled h2) hx
      | bit _ | hidden => exact repeats_throw _
  | thresholdSelect =>
      refine repeats_bind (hbit st hst .above) fun x st1 h1 hx => ?_
      refine repeats_bind (hbit st1 h1 .below) fun y st2 h2 hy => ?_
      exact M.agreed_repeats (M.settled h2) _ (M.keeps h2 hx) hy
  | conditionalSelect =>
      refine repeats_bind (hbit st hst .thenBranch) fun x st1 h1 hx => ?_
      refine repeats_bind (hbit st1 h1 .elseBranch) fun y st2 h2 hy => ?_
      refine repeats_bind (hfetch st2 (M.trans h1 h2) .cond) fun v st3 h3 hv => ?_
      -- the branches are looked up before the condition and used after it
      have hx' := M.keeps (M.trans h2 h3) hx
      have hy' := M.keeps h3 hy
      cases v with
      | bit z =>
          refine repeats_bind (repeats_lift (M.choose (M.settled h3) hv hx' hy'))
            fun w st4 h4 hw => ?_
          exact repeats_pure (M.settled h4) hw
      | triple _ _ _ | hidden => exact M.agreed_repeats (M.settled h3) _ hx' hy'
  | output =>
      refine repeats_bind (hbit st hst .sigil) fun x st1 h1 hx => ?_
      exact repeats_pure (M.settled h1) hx

/-! ## All nodes -/

theorem holdsSignals_set {st' : σ} (h : M.Grows st st') (hs : M.HoldsSignals st signals) (i : Nat)
    {v : Signal β} (hv : M.HoldsSignal st' v) :
    M.HoldsSignals st' (signals.setIfInBounds i (some v)) := by
  intro j w hw
  rw [signalAt?_set] at hw
  split at hw
  · cases hw
    exact hv
  · exact keeps_signal h (hs j w hw)

theorem sweep_repeats : ∀ (order : List Nat) {st : σ} {signals : Signals β}, M.Grows st st →
    M.HoldsInputs st inputs → M.HoldsSignals st signals →
    M.Repeats st (sweep alg d inputs order signals) M.HoldsSignals
  | [], _, _, hst, _, hs => repeats_pure hst hs
  | i :: order, st, signals, hst, hin, hs => by
      unfold sweep
      split
      · exact sweep_repeats order hst hin hs
      · refine repeats_bind (M.nodeSignal_repeats hst hin hs i _) fun v st' h hv => ?_
        exact sweep_repeats order (M.settled h) (keeps_inputs h hin) (M.holdsSignals_set h hs i hv)

/-- **The whole evaluation.** -/
theorem evaluate_repeats {mode : EvalMode} (hst : M.Grows st st) (hin : M.HoldsInputs st inputs) :
    M.Repeats st (evaluate alg d inputs mode) M.Holds := by
  have hnone : M.HoldsSignals st (Array.replicate d.nodes.length none) := by
    intro j v hv
    rw [signalAt?_replicate] at hv
    cases hv
  unfold evaluate
  split
  · exact repeats_throw _
  · refine repeats_bind (M.sweep_repeats d.order hst hin hnone) fun signals st' h hs => ?_
    split
    · rename_i v hv
      exact repeats_pure (M.settled h) (hs d.output _ hv)
    · exact repeats_throw _

end Memory

end RuleWiring
