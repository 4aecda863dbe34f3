import Mathlib
import RuleWiring.Analysis.Analyzer
import RuleWiring.Proofs.Accepted
import RuleWiring.Proofs.Circuit

/-!
# The second opinion never contradicts the first

An analysis reads the rule of a diagram off eight evaluations at bits, and then asks a prover
about the circuit of the diagram. If the evaluations have given a table, there is a circuit,
and it is exact for the table. So a prover that comes to an end confirms the table and its
linearity, and one that does not says nothing: whatever the clock shows, there is no warning.
-/

namespace RuleWiring

open Neighborhood

/-! ## What a report owes to the evaluations -/

/-- A report that says of a diagram what its evaluations say. -/
structure Analysis.Faithful (z : Analyzer) (d : Diagram) (c : Clock) (r : Analysis) : Prop where
  /-- The diagram has a circuit. -/
  circuit : ∃ k, SymbolicCircuit.ofDiagram d z.mode = .ok k
  /-- The bits of the rule are the outputs at the neighbourhoods. -/
  rule : ∀ n, n < 8 → evaluateBits d (ofIndex n) z.mode = .ok (r.rule.toNat.testBit n)
  table : r.table = ⟨r.rule⟩
  /-- Nothing is added to what the table says about linearity. -/
  linearity : r.linearityDetail = (Linearity.check r.table).detail
  /-- The prover does not object. -/
  verification : r.verification = .verified ∨ r.verification = .unknown
  /-- It agrees if it has the time: the search reads the clock second to set its deadline,
  and then once for each of eight assignments. -/
  verified : ∀ timeout, z.prover = .exhaustive timeout →
    (∀ i, i < 8 → c.reading (i + 2) < c.reading 1 + timeout) → r.verification = .verified

/-- Two reports with the same findings: they differ at most in the name of the diagram, its
formula, the outcome of the proof and the time. -/
def Analysis.SameFindings (r r' : Analysis) : Prop :=
  r = { r' with id := r.id, formula := r.formula, verification := r.verification,
                timeMs := r.timeMs }

namespace Analyzer

variable {z : Analyzer} {d : Diagram} {c : Clock} {t : TruthTable} {k : SymbolicCircuit}

/-! ## The prover's part -/

/-- A prover does not contradict the table about linearity. -/
theorem linearityWarning_nil (hk : k.Exact t.eval) (p : Prover) (c : Clock) :
    linearityWarning (Linearity.check t).linear (p.linear k c).1 = "" := by
  cases houtcome : (p.linear k c).1 with
  | unknown => rfl
  | verified =>
      have hlinear : (Linearity.check t).linear = true :=
        (Linearity.check_linear t).mpr (Prover.linear_verified hk houtcome)
      rw [hlinear]
      rfl
  | refuted =>
      obtain ⟨m, n, hne⟩ := Prover.linear_refuted hk houtcome
      have hlinear : (Linearity.check t).linear = false := by
        rw [Bool.eq_false_iff]
        exact fun h => hne ((Linearity.check_linear t).mp h m n)
      rw [hlinear]
      rfl

/-- A prover does not find the circuit to differ from the table. -/
theorem equivalent_not_refuted (hk : k.Exact t.eval) (p : Prover) (c : Clock) :
    (p.equivalent k t c).1 ≠ .refuted := by
  intro hrefuted
  obtain ⟨n, hn⟩ := Prover.equivalent_refuted hk hrefuted
  exact hn rfl

theorem equivalent_in_time (hk : k.Exact t.eval) {timeout : Nat}
    (hc : ∀ i, i < 8 → c.reading (i + 1) < c.reading 0 + timeout) :
    ((Prover.exhaustive timeout).equivalent k t c).1 = .verified := by
  have hnot := equivalent_not_refuted hk (.exhaustive timeout) c
  generalize hv : ((Prover.exhaustive timeout).equivalent k t c).1 = v at hnot
  cases v with
  | verified => rfl
  | refuted => exact absurd rfl hnot
  | unknown =>
      obtain ⟨i, hi, hlate⟩ := Prover.equivalent_unknown hk hv
      exact absurd (hc i hi) (by omega)

theorem exists_circuit (h : TruthTable.ofDiagram d z.mode = .ok t) :
    ∃ k, SymbolicCircuit.ofDiagram d z.mode = .ok k ∧ k.Exact t.eval :=
  SymbolicCircuit.ofDiagram_exact (TruthTable.ofDiagram_ok h)

theorem confirm_eq (hk : SymbolicCircuit.ofDiagram d z.mode = .ok k) (linear : Bool) :
    (z.confirm d t linear c).1 = ⟨(z.prover.equivalent k t c).1,
      linearityWarning linear (z.prover.linear k (z.prover.equivalent k t c).2).1,
      some k.formula⟩ := by
  simp only [confirm, hk]

theorem confirm_warning (h : TruthTable.ofDiagram d z.mode = .ok t) :
    (z.confirm d t (Linearity.check t).linear c).1.warning = "" := by
  obtain ⟨k, hk, hexact⟩ := exists_circuit h
  rw [confirm_eq hk]
  exact linearityWarning_nil hexact _ _

theorem confirm_not_refuted (h : TruthTable.ofDiagram d z.mode = .ok t) :
    (z.confirm d t (Linearity.check t).linear c).1.verification ≠ .refuted := by
  obtain ⟨k, hk, hexact⟩ := exists_circuit h
  rw [confirm_eq hk]
  exact equivalent_not_refuted hexact _ _

theorem confirm_in_time (h : TruthTable.ofDiagram d z.mode = .ok t) {timeout : Nat}
    (hp : z.prover = .exhaustive timeout)
    (hc : ∀ i, i < 8 → c.reading (i + 1) < c.reading 0 + timeout) :
    (z.confirm d t (Linearity.check t).linear c).1.verification = .verified := by
  obtain ⟨k, hk, hexact⟩ := exists_circuit h
  rw [confirm_eq hk, hp, equivalent_in_time hexact hc]

/-! ## The whole report -/

/-- Asking what the mode allows first makes no difference: the first evaluation asks too. -/
theorem analyze_error_iff {e : EvalError} :
    (z.analyze d c).1 = .error e ↔ TruthTable.ofDiagram d z.mode = .error e := by
  simp only [analyze]
  cases hsupported : checkSupported d z.mode with
  | error e' =>
      rw [TruthTable.ofDiagram_unsupported hsupported]
      simp
  | ok _ =>
      cases TruthTable.ofDiagram d z.mode with
      | error e' => simp
      | ok t => simp

theorem analyze_ok {r : Analysis} (h : (z.analyze d c).1 = .ok r) :
    ∃ t elapsed, TruthTable.ofDiagram d z.mode = .ok t ∧
      r = report d t (z.confirm d t (Linearity.check t).linear c.read.2).1 elapsed := by
  simp only [analyze] at h
  cases hsupported : checkSupported d z.mode with
  | error e =>
      rw [hsupported] at h
      exact absurd h (by simp)
  | ok _ =>
      cases htable : TruthTable.ofDiagram d z.mode with
      | error e =>
          rw [hsupported, htable] at h
          exact absurd h (by simp)
      | ok t =>
          rw [hsupported, htable] at h
          injection h with h
          exact ⟨t, _, rfl, h.symm⟩

theorem faithful_of_ok {r : Analysis} (h : (z.analyze d c).1 = .ok r) : r.Faithful z d c := by
  obtain ⟨t, elapsed, ht, hr⟩ := analyze_ok h
  subst hr
  obtain ⟨k, hk, _⟩ := exists_circuit ht
  refine ⟨⟨k, hk⟩, fun n hn => ?_, rfl, ?_, ?_, ?_⟩
  · rw [TruthTable.ofDiagram_ok ht, TruthTable.eval, index_ofIndex hn]
    rfl
  · show _ ++ (z.confirm d t (Linearity.check t).linear c.read.2).1.warning = _
    rw [confirm_warning ht, String.append_empty]
    rfl
  · have hnot := confirm_not_refuted (c := c.read.2) ht
    show (z.confirm d t (Linearity.check t).linear c.read.2).1.verification = _ ∨ _
    cases hv : (z.confirm d t (Linearity.check t).linear c.read.2).1.verification with
    | verified => exact Or.inl rfl
    | refuted => exact absurd hv hnot
    | unknown => exact Or.inr hv
  · intro timeout hp hc
    exact confirm_in_time ht hp hc

/-- A report whose warning is empty is made of the table, but for the four fields. -/
theorem sameFindings_report {d' : Diagram} {p p' : Confirmation} (hp : p.warning = "")
    (hp' : p'.warning = "") (elapsed elapsed' : Nat) :
    (report d' t p' elapsed').SameFindings (report d t p elapsed) := by
  rw [Analysis.SameFindings, report, report, hp, hp']

/--
**An analysis is exact.**

The diagram, the mode, the prover and the readings of the clock are arbitrary. The analysis
succeeds if all eight evaluations do, and otherwise fails like the lowest that fails. A report
is faithful to the evaluations, and the table decides all of it but the name of the diagram,
the formula, the outcome of the proof and the time.
-/
theorem analyze_exact (z : Analyzer) (d : Diagram) (c : Clock) :
    ((∃ r, (z.analyze d c).1 = .ok r) ↔
      ∀ n, n < 8 → ∃ b, evaluateBits d (ofIndex n) z.mode = .ok b)
    ∧ (∀ e, (z.analyze d c).1 = .error e ↔
      ∃ n, n < 8 ∧ evaluateBits d (ofIndex n) z.mode = .error e
        ∧ ∀ m, m < n → ∃ b, evaluateBits d (ofIndex m) z.mode = .ok b)
    ∧ ∀ r, (z.analyze d c).1 = .ok r → r.Faithful z d c
      ∧ ∀ z' d' c' r', (analyze z' d' c').1 = .ok r' → r'.table = r.table → r'.SameFindings r := by
  refine ⟨⟨?_, ?_⟩, ?_, ?_⟩
  · rintro ⟨r, hr⟩ n hn
    exact ⟨_, (faithful_of_ok hr).rule n hn⟩
  · intro hall
    cases hr : (z.analyze d c).1 with
    | ok r => exact ⟨r, rfl⟩
    | error e =>
        obtain ⟨n, hn, he, _⟩ := TruthTable.ofDiagram_error (analyze_error_iff.mp hr)
        obtain ⟨b, hb⟩ := hall n hn
        rw [he] at hb
        exact absurd hb (by simp)
  · intro e
    rw [analyze_error_iff]
    constructor
    · exact TruthTable.ofDiagram_error
    · rintro ⟨n, _, he, hbefore⟩
      exact TruthTable.ofDiagram_error_of_lowest he hbefore
  · intro r hr
    refine ⟨faithful_of_ok hr, fun z' d' c' r' hr' hsame => ?_⟩
    obtain ⟨t, elapsed, ht, hreport⟩ := analyze_ok hr
    obtain ⟨t', elapsed', ht', hreport'⟩ := analyze_ok hr'
    have htable : t' = t := by
      subst hreport
      subst hreport'
      exact hsame
    subst htable
    rw [hreport, hreport']
    exact sameFindings_report (confirm_warning ht) (confirm_warning ht') _ _

theorem analyze_exact_gated : ∃ r,
    (analyze ⟨.lifted, .exhaustive 1⟩ Sketch.gatedDiagram .still).1 = .ok r
      ∧ (∀ n, n < 8 → r.rule.toNat.testBit n = Nat.testBit 204 n)
      ∧ r.verification = .verified := by
  obtain ⟨hok, _, hfaithful⟩ := analyze_exact ⟨.lifted, .exhaustive 1⟩ Sketch.gatedDiagram .still
  have hall : ∀ n, n < 8 →
      evaluateBits Sketch.gatedDiagram (ofIndex n) .lifted = .ok (Nat.testBit 204 n) := by
    decide +kernel
  obtain ⟨r, hr⟩ := hok.mpr fun n hn => ⟨_, hall n hn⟩
  have hf := (hfaithful r hr).1
  refine ⟨r, hr, fun n hn => ?_, hf.verified 1 rfl fun i _ => Nat.zero_lt_one⟩
  exact Except.ok.inj ((hf.rule n hn).symm.trans (hall n hn))

end Analyzer

end RuleWiring
