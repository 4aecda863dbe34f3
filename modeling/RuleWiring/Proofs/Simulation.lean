import Mathlib
import RuleWiring.Evaluation.Basic
import RuleWiring.Proofs.Accepted
import RuleWiring.Proofs.Constructions
import RuleWiring.Proofs.Outcomes

/-!
# Evaluation in terms follows evaluation in bits

A diagram evaluated at terms runs beside the same diagram evaluated at bits, once for every
assignment of the variables. The two never part as long as the evaluation at terms goes on:
whatever it has computed stands for what the evaluations at bits have computed (`Follows`).

They differ where a gate is hidden. The evaluation at terms asks whether two terms agree
under all assignments, and the one at bits whether two bits are equal. If the first goes on,
so does the second. If it stops, then there is an assignment under which the second stops
too, and with the same error, provided that the arena has few enough variables to tell. All of
this needs the variables to be below the bound of the arena, since others are not tried.
-/

namespace RuleWiring

open TermArena

open EvalM

theorem evaluateBits_eq (d : Diagram) (inputs : Neighborhood Bool) (mode : EvalMode) :
    evaluateBits d inputs mode = (evaluate bits d inputs mode).outcome := rfl

/-- Something made of terms stands for something made of bits that depends on the
variables, and still does when the arena has grown. -/
class Denotable (α : Type) (γ : outParam Type) where
  Den : TermArena → α → ((Nat → Bool) → γ) → Prop
  den_extends : ∀ {a b : TermArena} {x : α} {f : (Nat → Bool) → γ},
    Extends a b → Den a x f → Den b x f

open Denotable

instance : Denotable Nat Bool where
  Den := Denotes
  den_extends := fun h hi => denotes_extends h hi

instance : Denotable (Signal Nat) (Signal Bool) where
  Den a v f := match v with
    | .bit i => ∃ g, a.Denotes i g ∧ f = fun s => .bit (g s)
    | .triple l c r => ∃ gl gc gr, a.Denotes l gl ∧ a.Denotes c gc ∧ a.Denotes r gr
        ∧ f = fun s => .triple (gl s) (gc s) (gr s)
    | .hidden => f = fun _ => .hidden
  den_extends := by
    intro a b v f hab h
    cases v with
    | bit i =>
        obtain ⟨g, hg, hf⟩ := h
        exact ⟨g, denotes_extends hab hg, hf⟩
    | triple l c r =>
        obtain ⟨gl, gc, gr, hl, hc, hr, hf⟩ := h
        exact ⟨gl, gc, gr, denotes_extends hab hl, denotes_extends hab hc,
          denotes_extends hab hr, hf⟩
    | hidden => exact h

/-- What a node has put out. -/
def signalAt? {β : Type} (vs : Signals β) (j : Nat) : Option (Signal β) := (vs[j]?).join

theorem signalAt?_set {β : Type} (vs : Signals β) (i j : Nat) (v : Signal β) :
    signalAt? (vs.setIfInBounds i (some v)) j
      = if i = j ∧ i < vs.size then some v else signalAt? vs j := by
  rw [signalAt?, signalAt?, Array.getElem?_setIfInBounds]
  by_cases hij : i = j
  · by_cases hi : i < vs.size
    · rw [if_pos hij, if_pos hi, if_pos ⟨hij, hi⟩]
      rfl
    · rw [if_pos hij, if_neg hi, if_neg fun h => hi h.2, ← hij, Array.getElem?_eq_none (by omega)]
  · rw [if_neg hij, if_neg fun h => hij h.1]

theorem signalAt?_replicate {β : Type} (n j : Nat) :
    signalAt? (Array.replicate n none : Signals β) j = none := by
  rw [signalAt?, Array.getElem?_replicate]
  split <;> rfl

/-- Signals stand for signals of the same nodes. -/
instance : Denotable (Signals Nat) (Signals Bool) where
  Den a vs fs := (∀ s, (fs s).size = vs.size) ∧
    ∀ j, (signalAt? vs j = none ∧ ∀ s, signalAt? (fs s) j = none) ∨
      ∃ v f, signalAt? vs j = some v ∧ Den a v f ∧ ∀ s, signalAt? (fs s) j = some (f s)
  den_extends := by
    intro a b vs fs hab h
    refine ⟨h.1, fun j => ?_⟩
    rcases h.2 j with hj | ⟨v, f, hv, hf, hs⟩
    · exact Or.inl hj
    · exact Or.inr ⟨v, f, hv, den_extends hab hf, hs⟩

/-- The three terms of a neighbourhood stand for one of bits. -/
instance : Denotable (Neighborhood Nat) (Neighborhood Bool) where
  Den a n f := a.Denotes n.left (fun s => (f s).left) ∧ a.Denotes n.center (fun s => (f s).center)
    ∧ a.Denotes n.right (fun s => (f s).right)
  den_extends := fun hab h =>
    ⟨denotes_extends hab h.1, denotes_extends hab h.2.1, denotes_extends hab h.2.2⟩

/-! ## Following -/

/--
Run in arena `a`, an evaluation at terms follows a family of evaluations at bits, one for
each assignment: it ends as they all do, or with an error that one of them has.
-/
def Follows {α γ : Type} [Denotable α γ] (a : TermArena) (m : EvalM TermArena α)
    (k : (Nat → Bool) → EvalM Unit γ) : Prop :=
  a.Bounded → ∃ b, Extends a b ∧
    ((∃ x f, m.exec a = (.ok x, b) ∧ Den b x f ∧ ∀ s, (k s).outcome = .ok (f s)) ∨
      ∃ e, m.exec a = (.error e, b) ∧
        (a.varCount ≤ maxDecidedVars → ∃ s, (k s).outcome = .error e))

section Following

variable {α γ α' γ' : Type} [Denotable α γ] [Denotable α' γ'] {a : TermArena}

theorem follows_pure (ha : a.Valid) {x : α} {f : (Nat → Bool) → γ} (hx : Den a x f) :
    Follows a (pure x) (fun s => pure (f s)) :=
  fun _ => ⟨a, extends_refl ha, Or.inl ⟨x, f, rfl, hx, fun _ => rfl⟩⟩

theorem follows_throw (ha : a.Valid) (e : EvalError) :
    Follows a (throw e : EvalM TermArena α) (fun _ => (throw e : EvalM Unit γ)) :=
  fun _ => ⟨a, extends_refl ha, Or.inr ⟨e, rfl, fun _ => ⟨fun _ => false, rfl⟩⟩⟩

theorem follows_bind {m : EvalM TermArena α} {k : (Nat → Bool) → EvalM Unit γ}
    {m' : α → EvalM TermArena α'} {k' : (Nat → Bool) → γ → EvalM Unit γ'} (hm : Follows a m k)
    (hm' : ∀ x f b, Extends a b → Den b x f → Follows b (m' x) (fun s => k' s (f s))) :
    Follows a (m >>= m') (fun s => k s >>= k' s) := by
  intro hbounded
  obtain ⟨b, hab, ⟨x, f, hrun, hx, hk⟩ | ⟨e, hrun, hk⟩⟩ := hm hbounded
  · -- every evaluation at bits has gone on, each with the value that `x` has for it
    obtain ⟨c, hbc, hrest⟩ := hm' x f b hab hx (hab.bounded hbounded)
    have hfirst : (m >>= m').exec a = (m' x).exec b := exec_bind_ok hrun
    have hsecond : ∀ s, (k s >>= k' s).outcome = (k' s (f s)).outcome :=
      fun s => outcome_bind_ok (hk s)
    refine ⟨c, extends_trans hab hbc, ?_⟩
    rcases hrest with ⟨y, g, hrun', hy, hk'⟩ | ⟨e, hrun', hk'⟩
    · exact Or.inl ⟨y, g, hfirst.trans hrun', hy, fun s => (hsecond s).trans (hk' s)⟩
    · refine Or.inr ⟨e, hfirst.trans hrun', fun hv => ?_⟩
      rw [← hab.vars] at hv
      obtain ⟨s, hs⟩ := hk' hv
      exact ⟨s, (hsecond s).trans hs⟩
  · refine ⟨b, hab, Or.inr ⟨e, by rw [exec_bind, hrun], fun hv => ?_⟩⟩
    obtain ⟨s, hs⟩ := hk hv
    exact ⟨s, outcome_bind_error hs⟩

/-- A constructor of terms follows the operation on bits. -/
theorem follows_lift {m : StateM TermArena Nat} {f : (Nat → Bool) → Bool} (hm : Makes a m f) :
    Follows a (liftM m : EvalM TermArena Nat) (fun s => (pure (f s) : EvalM Unit Bool)) := by
  obtain ⟨i, b, hrun, hab, hi⟩ := hm
  exact fun _ => ⟨b, hab, Or.inl ⟨i, f, exec_lift hrun, hi, fun _ => rfl⟩⟩

end Following

/-! ## One node -/

section Node

variable {a : TermArena} {d : Diagram} {signals : Signals Nat} {signals' : (Nat → Bool) → Signals Bool}

theorem fetch_follows (ha : a.Valid) (hs : Den a signals signals') (i : Nat) (n : Node) (p : Port) :
    Follows a (fetch TermArena.algebra d signals i n p)
      (fun s => fetch bits d (signals' s) i n p) := by
  unfold fetch
  cases d.input? i p with
  | none => exact follows_throw ha _
  | some source =>
      cases source with
      | node j =>
          dsimp only
          rcases hs.2 j with ⟨hnone, hnone'⟩ | ⟨v, f, hsome, hv, hsome'⟩
          · rw [signalAt?] at hnone
            simp only [signalAt?] at hnone'
            simp only [hnone, hnone']
            exact follows_throw ha _
          · rw [signalAt?] at hsome
            simp only [signalAt?] at hsome'
            simp only [hsome, hsome']
            exact follows_pure ha hv
      | literal l =>
          cases l with
          | bool b =>
              refine follows_bind (follows_lift (mkConst_makes ha b)) fun x f c hc hx => ?_
              exact follows_pure hc.valid ⟨f, hx, rfl⟩
          | int w => exact follows_pure ha (x := Signal.hidden) rfl
          | real x => exact follows_pure ha (x := Signal.hidden) rfl

theorem fetchBit_follows (ha : a.Valid) (hs : Den a signals signals') (i : Nat) (n : Node)
    (p : Port) :
    Follows a (fetchBit TermArena.algebra d signals i n p)
      (fun s => fetchBit bits d (signals' s) i n p) := by
  refine follows_bind (fetch_follows ha hs i n p) fun v f b hb hv => ?_
  cases v with
  | bit x =>
      obtain ⟨g, hg, hf⟩ := hv
      subst hf
      exact follows_pure hb.valid hg
  | triple l c r =>
      obtain ⟨_, _, _, _, _, _, hf⟩ := hv
      subst hf
      exact follows_throw hb.valid _
  | hidden =>
      subst hv
      exact follows_throw hb.valid _

theorem agreed_outcome (n : Node) (x y : Bool) : (agreed bits n x y).outcome
    = if x = y then .ok (.bit x) else .error (.undeterminedGate n.id) := by
  show EvalM.outcome (if decide (x = y) then _ else _) = _
  by_cases hxy : x = y
  · rw [if_pos hxy, if_pos (decide_eq_true hxy)]
    rfl
  · rw [if_neg hxy, if_neg (by simp [hxy])]
    rfl

/-- **The hidden gate.** Terms found the same have the same value under every assignment;
terms not found the same have different values under one. -/
theorem agreed_follows (ha : a.Valid) (n : Node) {i j : Nat} {f g : (Nat → Bool) → Bool}
    (hi : a.Denotes i f) (hj : a.Denotes j g) :
    Follows a (agreed TermArena.algebra n i j) (fun s => agreed bits n (f s) (g s)) := by
  have hterms : (agreed TermArena.algebra n i j).exec a
      = (if a.same i j then .ok (.bit i) else .error (.undeterminedGate n.id), a) := by
    show EvalM.exec (if a.same i j then _ else _) a = _
    split <;> rfl
  refine fun hbounded => ⟨a, extends_refl ha, ?_⟩
  cases hsame : a.same i j with
  | true =>
      -- the same function: the bits agree under every assignment
      rw [hterms, hsame]
      refine Or.inl ⟨.bit i, fun s => .bit (f s), rfl, ⟨f, hi, rfl⟩, fun s => ?_⟩
      rw [agreed_outcome, if_pos (by rw [← hi.2, ← hj.2]; exact same_sound hbounded hsame s)]
  | false =>
      -- two functions: under some assignment the bits differ, and the gate stops there too
      rw [hterms, hsame]
      refine Or.inr ⟨_, rfl, fun hv => ?_⟩
      obtain ⟨s, hs⟩ := same_complete hv hsame
      rw [hi.2, hj.2] at hs
      exact ⟨s, by rw [agreed_outcome, if_neg hs]⟩

theorem mixBits_makes (ha : a.Valid) (c : Component) {i j : Nat} {f g : (Nat → Bool) → Bool}
    (hi : a.Denotes i f) (hj : a.Denotes j g) :
    Makes a (mixBits TermArena.algebra c i j) (fun s => (mixBits bits c (f s) (g s) ()).1) := by
  unfold mixBits
  split
  · exact mkAnd_makes ha hi hj
  · exact mkXor_makes ha hi hj
  · exact mkOr_makes ha hi hj

theorem choose_makes (ha : a.Valid) {c i j : Nat} {e f g : (Nat → Bool) → Bool}
    (hc : a.Denotes c e) (hi : a.Denotes i f) (hj : a.Denotes j g) :
    Makes a (choose TermArena.algebra c i j) (fun s => (e s && f s) || (!e s && g s)) := by
  refine makes_bind (mkAnd_makes ha hc hi) fun x b hb hx => ?_
  refine makes_bind (mkNot_makes hb.valid (denotes_extends hb hc)) fun y b' hb' hy => ?_
  refine makes_bind (mkAnd_makes hb'.valid hy (denotes_extends (extends_trans hb hb') hj))
    fun z b'' hb'' hz => ?_
  exact mkOr_makes hb''.valid (denotes_extends (extends_trans hb' hb'') hx) hz

/-- **One node.** -/
theorem nodeSignal_follows (ha : a.Valid) (hs : Den a signals signals')
    {inputs : Neighborhood Nat} {inputs' : (Nat → Bool) → Neighborhood Bool}
    (hin : Den a inputs inputs') (i : Nat) (n : Node) :
    Follows a (nodeSignal TermArena.algebra d inputs signals i n)
      (fun s => nodeSignal bits d (inputs' s) (signals' s) i n) := by
  obtain ⟨hl, hc, hr⟩ := hin
  obtain ⟨id, component⟩ := n
  cases component with
  | self | prev => exact follows_pure ha ⟨_, hc, rfl⟩
  | pred => exact follows_pure ha ⟨_, hl, rfl⟩
  | succ => exact follows_pure ha ⟨_, hr, rfl⟩
  | neighbors => exact follows_pure ha ⟨_, _, _, hl, hc, hr, rfl⟩
  | exotype | diversity | entropy | similarity | evenness | dominance | autocorrelation
  | bitTest => exact follows_pure ha (x := Signal.hidden) rfl
  | shiftLeft | shiftRight | crossover | mutate => exact follows_throw ha _
  | bitNot =>
      refine follows_bind (fetchBit_follows ha hs i _ .a) fun x f b hb hx => ?_
      refine follows_bind (follows_lift (mkNot_makes hb.valid hx)) fun y g c hc hy => ?_
      exact follows_pure hc.valid ⟨g, hy, rfl⟩
  | bitAnd | bitOr | bitXor | average =>
      refine follows_bind (fetchBit_follows ha hs i _ .a) fun x f b hb hx => ?_
      refine follows_bind (fetchBit_follows hb.valid (den_extends hb hs) i _ .b)
        fun y g c hc hy => ?_
      refine follows_bind (follows_lift (mixBits_makes hc.valid _ (denotes_extends hc hx) hy))
        fun z h e he hz => ?_
      exact follows_pure he.valid ⟨h, hz, rfl⟩
  | majority =>
      refine follows_bind (fetch_follows ha hs i _ .sigils) fun v f b hb hv => ?_
      cases v with
      | bit x =>
          obtain ⟨g, _, hf⟩ := hv
          subst hf
          exact follows_throw hb.valid _
      | triple x y z =>
          obtain ⟨gx, gy, gz, hx, hy, hz, hf⟩ := hv
          subst hf
          refine follows_bind (follows_lift (majority_makes hb.valid hx hy hz)) fun w g c hc hw => ?_
          exact follows_pure hc.valid ⟨g, hw, rfl⟩
      | hidden =>
          subst hv
          exact follows_throw hb.valid _
  | thresholdSelect =>
      refine follows_bind (fetchBit_follows ha hs i _ .above) fun x f b hb hx => ?_
      refine follows_bind (fetchBit_follows hb.valid (den_extends hb hs) i _ .below)
        fun y g c hc hy => ?_
      exact agreed_follows hc.valid _ (denotes_extends hc hx) hy
  | conditionalSelect =>
      refine follows_bind (fetchBit_follows ha hs i _ .thenBranch) fun x f b hb hx => ?_
      refine follows_bind (fetchBit_follows hb.valid (den_extends hb hs) i _ .elseBranch)
        fun y g c hc hy => ?_
      have hx' := denotes_extends hc hx
      refine follows_bind (fetch_follows hc.valid (den_extends (extends_trans hb hc) hs) i _ .cond)
        fun v h e he hv => ?_
      have hx'' := denotes_extends he hx'
      have hy'' := denotes_extends he hy
      -- a condition that is a bit selects, any other leaves the branches to agree
      cases v with
      | bit z =>
          obtain ⟨g', hz, hf⟩ := hv
          subst hf
          refine follows_bind (follows_lift (choose_makes he.valid hz hx'' hy''))
            fun w g'' e' he' hw => ?_
          exact follows_pure he'.valid ⟨g'', hw, rfl⟩
      | triple _ _ _ =>
          obtain ⟨_, _, _, _, _, _, hf⟩ := hv
          subst hf
          exact agreed_follows he.valid _ hx'' hy''
      | hidden =>
          subst hv
          exact agreed_follows he.valid _ hx'' hy''
  | output =>
      refine follows_bind (fetchBit_follows ha hs i _ .sigil) fun x f b hb hx => ?_
      exact follows_pure hb.valid ⟨f, hx, rfl⟩

end Node

/-! ## All nodes -/

theorem den_set {a : TermArena} {vs : Signals Nat} {fs : (Nat → Bool) → Signals Bool}
    (hs : Den a vs fs) {v : Signal Nat} {f : (Nat → Bool) → Signal Bool} (hv : Den a v f)
    (i : Nat) : Den a (vs.setIfInBounds i (some v))
      (fun s => (fs s).setIfInBounds i (some (f s))) := by
  refine ⟨fun s => ?_, fun j => ?_⟩
  · rw [Array.size_setIfInBounds, Array.size_setIfInBounds, hs.1 s]
  · simp only [signalAt?_set, hs.1]
    by_cases hj : i = j ∧ i < vs.size
    · simp only [if_pos hj]
      exact Or.inr ⟨v, f, rfl, hv, fun _ => rfl⟩
    · simp only [if_neg hj]
      exact hs.2 j

theorem den_replicate (a : TermArena) (n : Nat) :
    Den a (Array.replicate n none : Signals Nat)
      (fun _ => (Array.replicate n none : Signals Bool)) :=
  ⟨fun _ => by rw [Array.size_replicate, Array.size_replicate],
    fun j => Or.inl ⟨signalAt?_replicate n j, fun _ => signalAt?_replicate n j⟩⟩

theorem sweep_follows {d : Diagram} {inputs : Neighborhood Nat}
    {inputs' : (Nat → Bool) → Neighborhood Bool} : ∀ (order : List Nat) {a : TermArena}
    {signals : Signals Nat} {signals' : (Nat → Bool) → Signals Bool}, a.Valid →
    Den a inputs inputs' → Den a signals signals' →
    Follows a (sweep TermArena.algebra d inputs order signals)
      (fun s => sweep bits d (inputs' s) order (signals' s))
  | [], _, _, _, ha, _, hs => follows_pure ha hs
  | i :: order, a, signals, signals', ha, hin, hs => by
      simp only [sweep]
      cases d.nodes[i]? with
      | none => exact sweep_follows order ha hin hs
      | some n =>
          refine follows_bind (nodeSignal_follows ha hs hin i n) fun v f b hb hv => ?_
          exact sweep_follows order hb.valid (den_extends hb hin) (den_set (den_extends hb hs) hv i)

/-- **The evaluation at terms follows those at bits**, for any diagram and in either mode. -/
theorem evaluate_follows (d : Diagram) (mode : EvalMode) {a : TermArena} (ha : a.Valid)
    {inputs : Neighborhood Nat} {inputs' : (Nat → Bool) → Neighborhood Bool}
    (hin : Den a inputs inputs') :
    Follows a (evaluate TermArena.algebra d inputs mode)
      (fun s => evaluate bits d (inputs' s) mode) := by
  unfold evaluate
  cases checkSupported d mode with
  | error e => exact follows_throw ha e
  | ok _ =>
      refine follows_bind (sweep_follows d.order ha hin (den_replicate a _))
        fun vs fs b hb hs => ?_
      rcases hs.2 d.output with ⟨hnone, hnone'⟩ | ⟨v, f, hsome, hv, hsome'⟩
      · simp only [signalAt?] at hnone hnone'
        simp only [hnone, hnone']
        exact follows_throw hb.valid _
      · simp only [signalAt?] at hsome hsome'
        simp only [hsome, hsome']
        cases v with
        | bit i =>
            obtain ⟨g, hg, hf⟩ := hv
            subst hf
            exact follows_pure hb.valid hg
        | triple _ _ _ =>
            obtain ⟨_, _, _, _, _, _, hf⟩ := hv
            subst hf
            exact follows_throw hb.valid _
        | hidden =>
            subst hv
            exact follows_throw hb.valid _

/-! ## At three terms of an arena -/

/-- If everything can be computed at bits, then it can be computed at terms. -/
theorem evaluateTerms_of_bits {d : Diagram} {mode : EvalMode} {a : TermArena} (ha : a.Valid)
    (hbounded : a.Bounded) (hv : a.varCount ≤ maxDecidedVars) {inputs : Neighborhood Nat}
    {inputs' : (Nat → Bool) → Neighborhood Bool} (hin : Den a inputs inputs')
    {f : (Nat → Bool) → Bool} (h : ∀ s, evaluateBits d (inputs' s) mode = .ok (f s)) :
    ∃ t b, (evaluate TermArena.algebra d inputs mode).exec a = (.ok t, b) ∧ Extends a b
      ∧ b.Denotes t f := by
  obtain ⟨b, hab, ⟨t, g, hrun, ht, hbits⟩ | ⟨e, _, herror⟩⟩ :=
    evaluate_follows d mode ha hin hbounded
  · refine ⟨t, b, hrun, hab, ht.1, fun s => ?_⟩
    have hs := h s
    rw [evaluateBits_eq, hbits s] at hs
    rw [ht.2 s]
    exact Except.ok.inj hs
  · -- an error would be met at some assignment
    obtain ⟨s, hs⟩ := herror hv
    rw [← evaluateBits_eq, h s] at hs
    exact absurd hs (by simp)

/-- The arena of three variables. -/
def TermArena.threeVars : TermArena :=
  (TermArena.var 2 (TermArena.var 1 (TermArena.var 0 TermArena.empty).2).2).2

end RuleWiring
