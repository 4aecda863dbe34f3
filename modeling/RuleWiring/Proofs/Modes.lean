import Mathlib
import RuleWiring.Proofs.Analysis

/-!
# Lifted mode extends strict mode

The mode says which components are allowed, and nothing else depends on it: two modes that both
allow all the nodes of a diagram make the same evaluation of it, step by step, with the same
errors and the same effects on the store. Strict mode allows fewer components than lifted mode
does. So a diagram that has a value in strict mode is evaluated alike in both, and what is made of
evaluations, a table or a circuit, is the same as well.

What is left is the clock. Two analyses of a diagram read it at different times, and so a deadline
may be met in one and missed in the other; if it is met in both, the clock only shows in the time
that is reported.
-/

namespace RuleWiring

open EvalM

/-! ## What a mode allows -/

section Supported

variable {d : Diagram} {mode : EvalMode}

theorem checkSupported_ok_iff :
    checkSupported d mode = .ok () ↔ ∀ m ∈ d.nodes, m.obstacle? mode = none := by
  rw [checkSupported, ← List.findSome?_eq_none_iff]
  cases d.nodes.findSome? (Node.obstacle? mode) with
  | none => simp
  | some e => simp

/-- Where an obstacle only depends on the component, the first component of that kind decides. -/
theorem checkSupported_error_iff (forbidden : Component → Bool) (complaint : Node → EvalError)
    (hmode : ∀ m : Node, m.obstacle? mode
      = if forbidden m.component then some (complaint m) else none) {e : EvalError} :
    checkSupported d mode = .error e ↔
      ∃ m, d.nodes.find? (fun m => forbidden m.component) = some m ∧ e = complaint m := by
  have hfirst : d.nodes.findSome? (Node.obstacle? mode)
      = (d.nodes.find? fun m => forbidden m.component).map complaint := by
    rw [← List.findSome?_guard, List.map_findSome?]
    congr 1
    funext m
    rw [hmode, Function.comp_apply, Option.guard]
    split <;> rfl
  rw [checkSupported, hfirst]
  cases d.nodes.find? fun m => forbidden m.component with
  | none => simp
  | some m => simp [eq_comm]

/-- The operations of Boolean logic treat every bit by itself. -/
theorem Component.mixesBits_of_isLogic {c : Component} (h : c.isLogic = true) :
    c.mixesBits = false := by
  revert h
  cases c <;> decide

/-- What is allowed in strict mode is allowed in lifted mode. -/
theorem Node.obstacle?_lifted {m : Node} (h : m.obstacle? .strict = none) :
    m.obstacle? .lifted = none := by
  have hlogic : m.component.isLogic = true := by simpa [Node.obstacle?] using h
  simp [Node.obstacle?, Component.mixesBits_of_isLogic hlogic]

theorem checkSupported_of_strict (h : checkSupported d .strict = .ok ()) :
    checkSupported d .lifted = .ok () :=
  checkSupported_ok_iff.mpr fun m hm => Node.obstacle?_lifted (checkSupported_ok_iff.mp h m hm)

variable {σ β : Type} {alg : BoolAlgebra σ β} {inputs : Neighborhood β}

/-- Nothing is computed of a diagram that is not allowed. -/
theorem evaluate_unsupported {e : EvalError} (h : checkSupported d mode = .error e) (st : σ) :
    (evaluate alg d inputs mode).exec st = (.error e, st) := by
  rw [evaluate, h]
  rfl

theorem checkSupported_of_exec {st st' : σ} {v : β}
    (h : (evaluate alg d inputs mode).exec st = (.ok v, st')) : checkSupported d mode = .ok () := by
  cases hsupported : checkSupported d mode with
  | ok _ => rfl
  | error e =>
      rw [evaluate_unsupported hsupported] at h
      exact absurd (congrArg Prod.fst h) (by simp)

end Supported

/-! ## Two modes that allow a diagram -/

section Alike

variable {d : Diagram} {mode mode' : EvalMode} (h : checkSupported d mode = .ok ())
  (h' : checkSupported d mode' = .ok ())

include h h'

/-- **The mode is only looked at in the check.** -/
theorem evaluate_alike {σ β : Type} (alg : BoolAlgebra σ β) (inputs : Neighborhood β) :
    evaluate alg d inputs mode = evaluate alg d inputs mode' := by
  rw [evaluate, evaluate, h, h']

theorem TruthTable.outputs_alike (ns : List Nat) : outputs d mode ns = outputs d mode' ns := by
  induction ns with
  | nil => rfl
  | cons n ns ih =>
      rw [outputs, outputs, ih, evaluateBits, evaluateBits, evaluate_alike h h']

theorem TruthTable.ofDiagram_alike : ofDiagram d mode = ofDiagram d mode' := by
  rw [ofDiagram, ofDiagram, outputs_alike h h']

theorem SymbolicCircuit.ofDiagram_alike : ofDiagram d mode = ofDiagram d mode' := by
  simp only [ofDiagram, build, evaluate_alike h h']

theorem Analyzer.analyze_alike (p : Prover) (c : Clock) :
    analyze ⟨mode, p⟩ d c = analyze ⟨mode', p⟩ d c := by
  simp only [analyze, confirm, h, h', TruthTable.ofDiagram_alike h h',
    SymbolicCircuit.ofDiagram_alike h h']

end Alike

/-! ## Two clocks -/

/-- No deadline expires while a prover compares a circuit with the table in an analysis. The
analysis reads the clock first; then the search reads it to set its deadline, and once more before
each of eight assignments. -/
def Prover.InTime (p : Prover) (c : Clock) : Prop :=
  ∀ timeout, p = .exhaustive timeout → ∀ i, i < 8 → c.reading (i + 2) < c.reading 1 + timeout

namespace Analyzer

variable {z : Analyzer} {d : Diagram} {c c' : Clock}

theorem checkSupported_of_analyze {r : Analysis} (h : (z.analyze d c).1 = .ok r) :
    checkSupported d z.mode = .ok () := by
  obtain ⟨t, _, ht, _⟩ := analyze_ok h
  cases hsupported : checkSupported d z.mode with
  | ok _ => rfl
  | error e =>
      rw [TruthTable.ofDiagram_unsupported hsupported] at ht
      exact absurd ht (by simp)

/-- What a prover says about the table of a diagram does not depend on the clock, if the clock
leaves it the time. -/
theorem confirm_clock {t : TruthTable} (ht : TruthTable.ofDiagram d z.mode = .ok t)
    (hc : z.prover.InTime c) (hc' : z.prover.InTime c') :
    (z.confirm d t (Linearity.check t).linear c'.read.2).1
      = (z.confirm d t (Linearity.check t).linear c.read.2).1 := by
  obtain ⟨k, hk, hexact⟩ := exists_circuit ht
  have hverdict : (z.prover.equivalent k t c'.read.2).1 = (z.prover.equivalent k t c.read.2).1 := by
    cases hp : z.prover with
    | null => rfl
    | exhaustive timeout =>
        rw [equivalent_in_time hexact (hc' timeout hp), equivalent_in_time hexact (hc timeout hp)]
  rw [confirm_eq hk, confirm_eq hk, hverdict, linearityWarning_nil hexact,
    linearityWarning_nil hexact]

/-- An analysis that succeeds does so whatever the clock shows, and reports the same but for the
time. -/
theorem analyze_clock {r : Analysis} (h : (z.analyze d c).1 = .ok r) (hc : z.prover.InTime c)
    (hc' : z.prover.InTime c') : ∃ ms, (z.analyze d c').1 = .ok { r with timeMs := ms } := by
  obtain ⟨t, elapsed, ht, hr⟩ := analyze_ok h
  cases h' : (z.analyze d c').1 with
  | error e =>
      rw [analyze_error_iff.mp h'] at ht
      exact absurd ht (by simp)
  | ok r' =>
      obtain ⟨t', elapsed', ht', hr'⟩ := analyze_ok h'
      rw [ht] at ht'
      injection ht' with ht'
      subst ht' hr hr'
      rw [confirm_clock ht hc hc']
      exact ⟨milliseconds elapsed', rfl⟩

end Analyzer

/-! ## Strict and lifted -/

/-- The neighbours of a cell, compared. -/
def Sketch.differing : Sketch :=
  let s : Sketch := { metadata := { id := "differing" } }
  let s := ((s.addNode "output" .output).addNode "differ" .bitXor).addNode "pred" .pred
  let s := ((s.addNode "succ" .succ).wirePositional 2 1).wirePositional 3 1
  s.wirePositional 1 0

/-- What becomes of `differing`. -/
def Sketch.differingDiagram : Diagram := Sketch.differing.finish.toOption.get rfl

namespace Diagram

/--
**Lifted mode conservatively extends strict mode.**

The diagram, the algebra, its store and the values at the inputs are arbitrary. Where strict
evaluation gives a value, lifted evaluation from the same store gives the same value and leaves
the same store. An analysis that succeeds in strict mode is, at the same readings of the clock,
the same in lifted mode; at other readings the report is still the same in all but the time,
provided that no deadline expires.
-/
theorem lifted_extends_strict (d : Diagram) :
    (∀ {σ β : Type} (alg : BoolAlgebra σ β) (inputs : Neighborhood β) (st st' : σ) (v : β),
      (evaluate alg d inputs .strict).exec st = (.ok v, st') →
        (evaluate alg d inputs .lifted).exec st = (.ok v, st'))
    ∧ ∀ (p : Prover) (c : Clock) (r : Analysis), (Analyzer.analyze ⟨.strict, p⟩ d c).1 = .ok r →
      Analyzer.analyze ⟨.lifted, p⟩ d c = Analyzer.analyze ⟨.strict, p⟩ d c
      ∧ ∀ c', p.InTime c → p.InTime c' →
        ∃ ms, (Analyzer.analyze ⟨.lifted, p⟩ d c').1 = .ok { r with timeMs := ms } := by
  refine ⟨?_, ?_⟩
  · intro σ β alg inputs st st' v h
    have hstrict := checkSupported_of_exec h
    rwa [← evaluate_alike hstrict (checkSupported_of_strict hstrict)]
  · intro p c r h
    have hstrict := Analyzer.checkSupported_of_analyze h
    have hsame := Analyzer.analyze_alike (checkSupported_of_strict hstrict) hstrict p
    refine ⟨hsame c, fun c' hc hc' => ?_⟩
    rw [hsame c']
    exact Analyzer.analyze_clock h hc hc'

/-- A comparison of the neighbours is rule 90 in either mode and at any time of the day. -/
theorem lifted_extends_strict_differing :
    evaluateTerms Sketch.differingDiagram ⟨0, 1, 2⟩ .lifted TermArena.threeVars
      = (.ok 3, (TermArena.mkXor 0 2 TermArena.threeVars).2)
    ∧ ∃ r, (Analyzer.analyze ⟨.strict, .exhaustive 1⟩ Sketch.differingDiagram .still).1 = .ok r
      ∧ r.rule = 90
      ∧ ∃ ms, (Analyzer.analyze ⟨.lifted, .exhaustive 1⟩ Sketch.differingDiagram ⟨fun _ => 7⟩).1
        = .ok { r with timeMs := ms } := by
  obtain ⟨hevaluate, hanalyze⟩ := lifted_extends_strict Sketch.differingDiagram
  have hterm : (evaluate TermArena.algebra Sketch.differingDiagram ⟨0, 1, 2⟩ .strict).exec
      TermArena.threeVars = (.ok 3, (TermArena.mkXor 0 2 TermArena.threeVars).2) := by
    decide +kernel
  refine ⟨hevaluate _ _ _ _ _ hterm, ?_⟩
  have htable : TruthTable.ofDiagram Sketch.differingDiagram .strict = .ok ⟨90⟩ := by
    decide +kernel
  cases hr : (Analyzer.analyze ⟨.strict, .exhaustive 1⟩ Sketch.differingDiagram .still).1 with
  | error e =>
      have herror := Analyzer.analyze_error_iff.mp hr
      rw [htable] at herror
      exact absurd herror (by simp)
  | ok r =>
      obtain ⟨t, elapsed, ht, hreport⟩ := Analyzer.analyze_ok hr
      rw [htable] at ht
      injection ht with ht
      subst ht
      refine ⟨r, rfl, by rw [hreport]; rfl, ?_⟩
      -- both clocks stand still
      refine (hanalyze _ _ r hr).2 _ (fun timeout hp i _ => ?_) fun timeout hp i _ => ?_
      · cases hp
        exact Nat.zero_lt_one
      · cases hp
        exact Nat.lt_succ_self 7

end Diagram

end RuleWiring
