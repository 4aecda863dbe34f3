import Mathlib
import RuleWiring.Proofs.Analysis
import RuleWiring.Proofs.Scheme
import RuleWiring.Proofs.Signals

/-!
# Which patterns can be analysed

What an analysis of a compiled pattern comes to can be told from the mix mode and the rotation.
Mixers that move bits about are refused from the start. The others make one bit, and the gate
behind them has the cell's own bit as its other branch: whatever the fallback is, it has that bit.
So the gate passes on the cell, or stops the evaluation at the first neighbourhood where the mixer
makes something else of it. All later gates have the cell's bit on both sides.
-/

namespace RuleWiring

open Expression Piece Neighborhood

namespace Scheme

variable {o : CompilerOptions} {q : Pattern} {p : ParameterRecord} {n : Neighborhood Bool}

/-! ## What the stages put out -/

/-- What the mixer makes of the bits of a neighbourhood, if it does not move bits about. -/
def mixedBit (n : Neighborhood Bool) : MixMode → Bool
  | .reverse => !n.center
  | .xorNeighbor => n.left ^^ n.right
  | .majority => n.vote
  | _ => n.center

/-- Why a stage of the action cannot be lifted, if one cannot. -/
def blocked? (p : ParameterRecord) : Option EvalError :=
  match p.mixMode with
  | .rotateLeft => some (.notLiftable "action-bit-shift-left" .shiftLeft)
  | .rotateRight => some (.notLiftable "action-bit-shift-right" .shiftRight)
  | .scramble => some (.notLiftable "action-mutate" .mutate)
  | .swapHalves => some (.notLiftable "action-crossover" .crossover)
  | .none | .reverse | .xorNeighbor | .majority =>
      if 0 < p.rotation then some (.notLiftable "action-rotate" .shiftLeft) else none

theorem not_turns (h : blocked? p = none) : ¬ Turns p := by
  rintro ⟨hrotation, hleft, hright⟩
  unfold blocked? at h
  split at h
  · exact absurd h (by simp)
  · exact absurd h (by simp)
  · exact absurd h (by simp)
  · exact absurd h (by simp)
  all_goals
    rw [if_pos hrotation] at h
    exact absurd h (by simp)

theorem sensor_signal : (sensor p).signal? n = some .hidden := by
  obtain ⟨rotation, threshold, probability, mode, invert⟩ := p
  cases mode <;> rfl

theorem mixed_signal (h : blocked? p = none) :
    (mixed o p).signal? n = some (.bit (mixedBit n p.mixMode)) := by
  obtain ⟨rotation, threshold, probability, mode, invert⟩ := p
  cases mode with
  | none | reverse | xorNeighbor | majority => rfl
  | rotateLeft | rotateRight | scramble | swapHalves => exact absurd h (by simp [blocked?])

theorem action_signal (h : blocked? p = none) :
    (action o p).signal? n = some (.bit (mixedBit n p.mixMode)) := by
  rw [action, if_neg (not_turns h), mixed_signal h]

/-- Whatever the fallback is, it has the bit of the cell. -/
theorem fallback_signal (t : Preservation) : (fallback t).signal? n = some (.bit n.center) := by
  cases t with
  | full | none => rfl
  | partly =>
      show some (Signal.bit (n.center || n.center)) = _
      rw [Bool.or_self]

theorem gate_signal {es ea eb : Expression} {t : Binary64} {a b : Bool}
    (ha : ea.signal? n = some (.bit a)) (hb : eb.signal? n = some (.bit b)) :
    (gate es t ea eb).signal? n = if a = b then some (.bit a) else none := by
  show agreement ((ea.signal? n).bind Signal.bit?) ((eb.signal? n).bind Signal.bit?) = _
  rw [ha, hb]
  rfl

/-- The cell's bit if the mixer makes it, too, and nothing otherwise. -/
def settled (n : Neighborhood Bool) (m : MixMode) : Option (Signal Bool) :=
  if mixedBit n m = n.center then some (.bit n.center) else none

theorem settled_cases (n : Neighborhood Bool) (m : MixMode) :
    mixedBit n m = n.center ∧ settled n m = some (.bit n.center)
      ∨ mixedBit n m ≠ n.center ∧ settled n m = none := by
  by_cases h : mixedBit n m = n.center
  · exact Or.inl ⟨h, if_pos h⟩
  · exact Or.inr ⟨h, if_neg h⟩

theorem chosen_signal (h : blocked? p = none) :
    (chosen o q p).signal? n = settled n p.mixMode := by
  rw [chosen, gate_signal (action_signal h) (fallback_signal _), settled]
  by_cases heq : mixedBit n p.mixMode = n.center
  · rw [if_pos heq, if_pos heq, heq]
  · rw [if_neg heq, if_neg heq]

theorem reconsidered_signal (h : blocked? p = none) :
    (reconsidered o q p).signal? n = settled n p.mixMode := by
  show agreement (((fallback q.effectivePreservation).signal? n).bind Signal.bit?)
    (((chosen o q p).signal? n).bind Signal.bit?) = _
  rw [fallback_signal, chosen_signal h]
  rcases settled_cases n p.mixMode with ⟨_, hs⟩ | ⟨_, hs⟩
  · rw [hs]
    exact if_pos rfl
  · rw [hs]
    rfl

theorem inverted_signal (h : blocked? p = none) :
    (inverted o q p).signal? n = settled n p.mixMode := by
  rw [inverted]
  split
  · exact reconsidered_signal h
  · exact chosen_signal h

theorem softened_signal (h : blocked? p = none) :
    (softened o q p).signal? n = settled n p.mixMode := by
  show agreement (((inverted o q p).signal? n).bind Signal.bit?) (some n.center) = _
  rw [inverted_signal h]
  rcases settled_cases n p.mixMode with ⟨_, hs⟩ | ⟨_, hs⟩
  · rw [hs]
    exact if_pos rfl
  · rw [hs]
    rfl

theorem updated_signal (h : blocked? p = none) :
    (updated o q p).signal? n = settled n p.mixMode := by
  rw [updated]
  split
  · exact softened_signal h
  · exact inverted_signal h

theorem whole_signal (h : blocked? p = none) :
    (whole o q p).signal? n = settled n p.mixMode := by
  show (((updated o q p).signal? n).bind Signal.bit?).map Signal.bit = _
  rw [updated_signal h]
  rcases settled_cases n p.mixMode with ⟨_, hs⟩ | ⟨_, hs⟩
  · rw [hs]
    rfl
  · rw [hs]
    rfl

/-! ## Where an evaluation can stop -/

theorem extractor_signal {x : Piece} (hx : x ∈ extractors) :
    ∃ v, x.expression.signal? n = some v := by
  simp only [extractors, Compilation.extractors, List.map_cons, List.map_nil, List.mem_cons,
    List.not_mem_nil, or_false] at hx
  rcases hx with rfl | rfl | rfl | rfl | rfl <;> exact ⟨_, rfl⟩

theorem conditionPiece_expression : (conditionPiece p).expression = sensor p := sensor_eq.symm

theorem mixerPiece_expression {c : Component} (hc : p.mixMode.mixer? = some c) :
    (mixerPiece o p c).expression = mixed o p := by
  obtain ⟨rotation, threshold, probability, mode, invert⟩ := p
  cases mode with
  | none => exact absurd hc (by simp [MixMode.mixer?])
  | rotateLeft | rotateRight | reverse | xorNeighbor | scramble | majority | swapHalves =>
      injection hc with hc
      subst hc
      rfl

/-- **No node but the gate is ever stuck**, and the gate only if the mixer makes something else
of the cell. -/
theorem stuck_gate (h : blocked? p = none) {x : Piece} (hx : x ∈ pieces o q p) {e : EvalError}
    (hstuck : x.node.Stuck n x.inputs e) :
    mixedBit n p.mixMode ≠ n.center ∧ e = .undeterminedGate "gate" := by
  have hnone : x.expression.signal? n = none := hstuck.none
  -- a node that puts something out, or waits for one that does not, is not stuck
  have hout : ∀ v, x.expression.signal? n ≠ some v := fun v hv => by simp [hnone] at hv
  have hfed : ∀ {port : Port} {t : Expression}, (port, t) ∈ x.inputs →
      t.signal? n = settled n p.mixMode → x.expression.signal? n = settled n p.mixMode → False := by
    intro port t ht hsettled hsame
    obtain ⟨v, hv⟩ := hstuck.fed _ ht
    exact hout v (by rw [hsame, ← hsettled, hv])
  rcases List.mem_append.mp hx with hx | hx
  · rcases mem_innerPieces.mp hx with hx | rfl | ⟨c, hc, rfl⟩ | ⟨hturns, rfl⟩ | ⟨_, rfl⟩ | rfl
      | ⟨_, rfl | rfl | rfl⟩ | ⟨_, rfl | rfl⟩
    · obtain ⟨v, hv⟩ := extractor_signal hx
      exact absurd hv (hout v)
    · rw [conditionPiece_expression, sensor_signal] at hnone
      exact absurd hnone (by simp)
    · rw [mixerPiece_expression hc, mixed_signal h] at hnone
      exact absurd hnone (by simp)
    · exact absurd hturns (not_turns h)
    · exact absurd (fallback_signal .partly) (hout _)
    · have hab : (gatePiece o q p).expression.signal? n = settled n p.mixMode := chosen_signal h
      refine ⟨fun heq => ?_, hstuck.gate (mixedBit n p.mixMode) n.center rfl ?_ ?_⟩
      · exact hout (.bit n.center) (hab.trans (if_pos heq))
      · show ((action o p).signal? n).bind Signal.bit? = _
        rw [action_signal h]
        rfl
      · show ((fallback q.effectivePreservation).signal? n).bind Signal.bit? = _
        rw [fallback_signal]
        rfl
    · exact absurd rfl (hout .hidden)
    · exact absurd rfl (hout .hidden)
    · have hin : (Port.elseBranch, chosen o q p) ∈ (inversionPiece o q p).inputs := by
        simp [inversionPiece, reconsidered, Expression.inputs]
      exact (hfed hin (chosen_signal h) (reconsidered_signal h)).elim
    · exact absurd rfl (hout .hidden)
    · have hin : (Port.above, inverted o q p) ∈ (updatePiece o q p).inputs := by
        simp [updatePiece, softened, gate, Expression.inputs]
      exact (hfed hin (inverted_signal h) (softened_signal h)).elim
  · rw [List.mem_singleton.mp hx] at hfed
    exact (hfed (List.mem_singleton_self _) (updated_signal h) (whole_signal h)).elim

/-! ## The evaluation of a compiled pattern -/

/-- A diagram with the nodes and the tree of the scheme. -/
structure Realised (o : CompilerOptions) (q : Pattern) (p : ParameterRecord) (d : Diagram) :
    Prop where
  nodes : d.nodes = (pieces o q p).map Piece.node
  spelled : d.Spelled (tree (pieces o q p))
  expression : d.expression = some (whole o q p)

variable {d : Diagram}

theorem checkSupported_strict (hd : Realised o q p d) :
    checkSupported d .strict = .error (.unsupportedComponent "prev" .prev) := by
  rw [checkSupported, hd.nodes, pieces, innerPieces]
  simp only [List.append_assoc, List.map_append]
  rfl

/-- Why a node cannot be lifted, if it cannot. -/
def refusal? (x : Piece) : Option EvalError := Node.obstacle? .lifted x.node

/-- Up to the action, only the action may have something that is not allowed. -/
theorem lifts_action : (extractors ++ [conditionPiece p] ++ actionPieces o p).findSome?
    refusal? = blocked? p := by
  by_cases ht : Turns p
  · rw [actionPieces, if_pos ht]
    obtain ⟨rotation, threshold, probability, mode, invert⟩ := p
    cases mode with
    | none | reverse | xorNeighbor | majority =>
        rw [blocked?]
        exact (if_pos ht.1).symm
    | scramble | swapHalves => rfl
    | rotateLeft => exact absurd rfl ht.2.1
    | rotateRight => exact absurd rfl ht.2.2
  · rw [actionPieces, if_neg ht]
    obtain ⟨rotation, threshold, probability, mode, invert⟩ := p
    cases mode with
    | none | reverse | xorNeighbor | majority =>
        rw [blocked?]
        exact (if_neg fun hrotation => ht ⟨hrotation, by simp, by simp⟩).symm
    | rotateLeft | rotateRight | scramble | swapHalves => rfl

/-- **What is refused from the start.** -/
theorem checkSupported_lifted (hd : Realised o q p d) :
    checkSupported d .lifted = match blocked? p with
      | some e => .error e
      | none => .ok () := by
  have hfound : d.nodes.findSome? (Node.obstacle? .lifted) = blocked? p := by
    have hback : (fallbackPieces q.effectivePreservation).findSome? refusal? = none := by
      unfold fallbackPieces
      split <;> rfl
    have hgate : [gatePiece o q p].findSome? refusal? = none := rfl
    have hinvert : (inversionPieces o q p).findSome? refusal? = none := by
      unfold inversionPieces
      split <;> rfl
    have hupdate : (updatePieces o q p).findSome? refusal? = none := by
      unfold updatePieces
      split <;> rfl
    have hout : [outputPiece o q p].findSome? refusal? = none := rfl
    rw [hd.nodes, List.findSome?_map, pieces, innerPieces]
    show List.findSome? refusal? _ = _
    rw [List.findSome?_append, List.findSome?_append, List.findSome?_append,
      List.findSome?_append, List.findSome?_append, lifts_action, hback, hgate, hinvert, hupdate,
      hout]
    simp only [Option.or_none]
  rw [checkSupported, hfound]
  cases blocked? p <;> rfl

/-- **An evaluation** gives the cell its own bit, or stops at the gate. -/
theorem evaluateBits_eq_of_realised {s : Sketch} (hp : s.Passed d) (hd : Realised o q p d)
    (h : blocked? p = none) :
    evaluateBits d n .lifted = if mixedBit n p.mixMode = n.center then .ok n.center
      else .error (.undeterminedGate "gate") := by
  have hsupported : checkSupported d .lifted = .ok () := by rw [checkSupported_lifted hd, h]
  have hends := Diagram.evaluate_ends_shown (n := n) hp hd.spelled hsupported
  cases hout : evaluateBits d n .lifted with
  | ok b =>
      obtain ⟨_, e, he, hsignal⟩ := EvalM.ends_ok hends hout
      rw [hd.expression] at he
      injection he with he
      rw [← he, whole_signal h] at hsignal
      rcases settled_cases n p.mixMode with ⟨heq, hs⟩ | ⟨_, hs⟩
      · rw [hs] at hsignal
        injection hsignal with hsignal
        injection hsignal with hsignal
        rw [if_pos heq, hsignal]
      · rw [hs] at hsignal
        exact absurd hsignal (by simp)
  | error e =>
      obtain ⟨i, m, args, hm, hargs, hstuck⟩ := EvalM.ends_error hends hout
      rw [hd.nodes, List.getElem?_map] at hm
      obtain ⟨x, hx, hxm⟩ := Option.map_eq_some_iff.mp hm
      rw [tree, hx] at hargs
      injection hargs with hargs
      subst hxm
      injection hargs with _ hargs
      subst hargs
      obtain ⟨hne, he⟩ := stuck_gate h (List.mem_of_getElem? hx) hstuck
      rw [if_neg hne, he]

/-- Somewhere a mixer that makes bits makes something else of the cell. -/
theorem exists_unsettled {m : MixMode} (h : m = .reverse ∨ m = .xorNeighbor ∨ m = .majority) :
    ∃ k, k < 8 ∧ mixedBit (ofIndex k) m ≠ (ofIndex k).center := by
  rcases h with rfl | rfl | rfl
  · exact ⟨0, by decide, by decide⟩
  · exact ⟨1, by decide, by decide⟩
  · exact ⟨2, by decide, by decide⟩

/-! ## The outcome of an analysis -/

/-- Why the diagram of some parameters cannot be analysed, if it cannot. -/
def obstacle? (p : ParameterRecord) : Option EvalError :=
  match p.mixMode with
  | .rotateLeft => some (.notLiftable "action-bit-shift-left" .shiftLeft)
  | .rotateRight => some (.notLiftable "action-bit-shift-right" .shiftRight)
  | .scramble => some (.notLiftable "action-mutate" .mutate)
  | .swapHalves => some (.notLiftable "action-crossover" .crossover)
  | .none => if 0 < p.rotation then some (.notLiftable "action-rotate" .shiftLeft) else none
  | .reverse | .xorNeighbor | .majority =>
      if 0 < p.rotation then some (.notLiftable "action-rotate" .shiftLeft)
      else some (.undeterminedGate "gate")

theorem obstacle?_cases (p : ParameterRecord) :
    (∃ e, blocked? p = some e ∧ obstacle? p = some e)
      ∨ (blocked? p = none ∧ p.mixMode = .none ∧ obstacle? p = none)
      ∨ blocked? p = none
        ∧ (p.mixMode = .reverse ∨ p.mixMode = .xorNeighbor ∨ p.mixMode = .majority)
        ∧ obstacle? p = some (.undeterminedGate "gate") := by
  by_cases hrotation : 0 < p.rotation
  · unfold blocked? obstacle?
    cases p.mixMode <;> simp [hrotation]
  · unfold blocked? obstacle?
    cases p.mixMode <;> simp [hrotation]

theorem obstacle?_none_iff (p : ParameterRecord) :
    obstacle? p = none ↔ p.mixMode = .none ∧ p.rotation = 0 := by
  have hzero : ¬ 0 < p.rotation ↔ p.rotation = 0 := by rw [UInt32.not_lt, UInt32.le_zero_iff]
  rw [← hzero]
  by_cases hrotation : 0 < p.rotation
  · unfold obstacle?
    cases p.mixMode <;> simp [hrotation]
  · unfold obstacle?
    cases p.mixMode <;> simp [hrotation]

/-- **The table** of a compiled pattern is that of the cell itself, if there is one. -/
theorem ofDiagram_realised {s : Sketch} (hp : s.Passed d) (hd : Realised o q p d) :
    match obstacle? p with
    | some e => TruthTable.ofDiagram d .lifted = .error e
    | none => ∃ t, TruthTable.ofDiagram d .lifted = .ok t
        ∧ ∀ n, t.eval n = n.center := by
  rcases obstacle?_cases p with ⟨e, hblocked, hobstacle⟩ | ⟨hfree, hmode, hobstacle⟩
    | ⟨hfree, hmode, hobstacle⟩
  · rw [hobstacle]
    refine TruthTable.ofDiagram_unsupported ?_
    rw [checkSupported_lifted hd, hblocked]
  · have hall : ∀ n, evaluateBits d n .lifted = .ok n.center := by
      intro n
      rw [evaluateBits_eq_of_realised hp hd hfree, hmode]
      exact if_pos rfl
    rw [hobstacle]
    cases htable : TruthTable.ofDiagram d .lifted with
    | ok t =>
        refine ⟨t, rfl, fun n => ?_⟩
        have heval := TruthTable.ofDiagram_ok htable n
        rw [hall] at heval
        injection heval with heval
        exact heval.symm
    | error e =>
        obtain ⟨k, _, he, _⟩ := TruthTable.ofDiagram_error htable
        rw [hall] at he
        exact absurd he (by simp)
  · obtain ⟨k, hk, hne⟩ := exists_unsettled hmode
    rw [hobstacle]
    cases htable : TruthTable.ofDiagram d .lifted with
    | ok t =>
        have heval := TruthTable.ofDiagram_ok htable (ofIndex k)
        rw [evaluateBits_eq_of_realised hp hd hfree, if_neg hne] at heval
        exact absurd heval (by simp)
    | error e =>
        obtain ⟨j, _, he, _⟩ := TruthTable.ofDiagram_error htable
        rw [evaluateBits_eq_of_realised hp hd hfree] at he
        split at he
        · exact absurd he (by simp)
        · injection he with he
          rw [he]

theorem ofDiagram_error_iff {s : Sketch} (hp : s.Passed d) (hd : Realised o q p d)
    {e : EvalError} : TruthTable.ofDiagram d .lifted = .error e ↔ obstacle? p = some e := by
  have htable := ofDiagram_realised hp hd
  cases hobstacle : obstacle? p with
  | some e' =>
      rw [hobstacle] at htable
      rw [htable, Except.error.injEq, Option.some.injEq]
  | none =>
      rw [hobstacle] at htable
      obtain ⟨t, ht, _⟩ := htable
      rw [ht]
      simp

theorem eval_of_ofDiagram_ok {s : Sketch} (hp : s.Passed d) (hd : Realised o q p d)
    {t : TruthTable} (h : TruthTable.ofDiagram d .lifted = .ok t) (n : Neighborhood Bool) :
    t.eval n = n.center := by
  have htable := ofDiagram_realised hp hd
  cases hobstacle : obstacle? p with
  | some e =>
      rw [hobstacle] at htable
      rw [htable] at h
      exact absurd h (by simp)
  | none =>
      rw [hobstacle] at htable
      obtain ⟨t', ht', heval⟩ := htable
      rw [ht'] at h
      injection h with h
      exact h ▸ heval n

/-- The rule of the cell itself has the number 204. -/
theorem rule_of_center {t : TruthTable} (h : ∀ n, t.eval n = n.center) : t.rule = 204 := by
  refine UInt8.toNat_inj.mp (Nat.eq_of_testBit_eq fun k => ?_)
  by_cases hk : k < 8
  · have heval := h (ofIndex k)
    rw [← TruthTable.output_eq hk, TruthTable.output] at heval
    rw [heval]
    interval_cases k <;> decide
  · have hlarge : ∀ x : UInt8, x.toNat.testBit k = false := by
      intro x
      have hpow : 2 ^ 8 ≤ 2 ^ k := Nat.pow_le_pow_right (by decide) (by omega)
      exact Nat.testBit_lt_two_pow (Nat.lt_of_lt_of_le x.toNat_lt hpow)
    rw [hlarge, hlarge]

end Scheme

open Scheme

/-- A report on a diagram that leaves the cell as it is. -/
structure Analysis.Unchanging (prover : Prover) (c : Clock) (r : Analysis) : Prop where
  rule : r.rule = 204
  dynamicalClass : r.dynamicalClass = .periodic
  confidence : r.confidence = Classification.hundredths 95
  /-- The prover agrees if it has the time. -/
  verified : ∀ timeout, prover = .exhaustive timeout →
    (∀ i, i < 8 → c.reading (i + 2) < c.reading 1 + timeout) → r.verification = .verified

/--
**Which compiled patterns can be analysed.**

Patterns, parameters and options are arbitrary, and so are the prover and the clock. The mix mode
and the rotation decide whether lifted analysis succeeds, and what it fails with if it does not.
If it succeeds, the rule leaves the cell as it is. Strict analysis never succeeds, because the
previous state is not part of Boolean logic.
-/
theorem analyze_compiled (o : CompilerOptions) (q : Pattern) (r : Resolution) :
    ∃ d, compile o q r = .ok d ∧ ∀ (prover : Prover) (c : Clock),
      ((∃ a, (Analyzer.analyze ⟨.lifted, prover⟩ d c).1 = .ok a)
        ↔ r.params.mixMode = .none ∧ r.params.rotation = 0)
      ∧ (∀ a, (Analyzer.analyze ⟨.lifted, prover⟩ d c).1 = .ok a → a.Unchanging prover c)
      ∧ (∀ e, (Analyzer.analyze ⟨.lifted, prover⟩ d c).1 = .error e
        ↔ obstacle? r.params = some e)
      ∧ (Analyzer.analyze ⟨.strict, prover⟩ d c).1
        = .error (.unsupportedComponent "prev" .prev) := by
  obtain ⟨d, hd, hnodes, hspelled, hexpression⟩ := compile_drawn o q r
  have hrealised : Realised o q r.params d := ⟨hnodes, hspelled, hexpression⟩
  have hpassed := Sketch.finish_passed hd
  have herror : ∀ (prover : Prover) (c : Clock) e,
      (Analyzer.analyze ⟨.lifted, prover⟩ d c).1 = .error e ↔ obstacle? r.params = some e :=
    fun prover c e => Analyzer.analyze_error_iff.trans (ofDiagram_error_iff hpassed hrealised)
  refine ⟨d, hd, fun prover c => ⟨?_, fun a ha => ?_, herror prover c, ?_⟩⟩
  · rw [← obstacle?_none_iff]
    cases hresult : (Analyzer.analyze ⟨.lifted, prover⟩ d c).1 with
    | ok a =>
        refine iff_of_true ⟨a, rfl⟩ (Option.eq_none_iff_forall_ne_some.mpr fun e he => ?_)
        rw [(herror prover c e).mpr he] at hresult
        exact absurd hresult (by simp)
    | error e => simp [(herror prover c e).mp hresult]
  · obtain ⟨t, elapsed, ht, hreport⟩ := Analyzer.analyze_ok ha
    have hrule := rule_of_center (eval_of_ofDiagram_ok hpassed hrealised ht)
    refine ⟨?_, ?_, ?_, (Analyzer.faithful_of_ok ha).verified⟩
    · rw [hreport]
      exact hrule
    · rw [hreport, Analyzer.report, hrule]
      rfl
    · rw [hreport, Analyzer.report, hrule]
      rfl
  · exact Analyzer.analyze_error_iff.mpr
      (TruthTable.ofDiagram_unsupported (checkSupported_strict hrealised))

end RuleWiring
