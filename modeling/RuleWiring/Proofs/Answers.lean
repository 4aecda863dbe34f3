import Mathlib
import RuleWiring.Proofs.Accepted
import RuleWiring.Proofs.Circuit

/-!
# A prover's answers are exact

Where a diagram has a circuit, it has been evaluated at variables, and so it has a value at
every neighbourhood: the circuit is exact for the table of the diagram. A question about the
circuit is therefore one about this table, and whoever answers it by trying all assignments
can only be right. The clock decides whether there is an answer, and not which.
-/

namespace RuleWiring

open Neighborhood EvalM

/-! ## Where there is a circuit there is a table -/

/-- A table is known by what it says at the neighbourhoods. -/
theorem TruthTable.eq_of_eval_eq {t t' : TruthTable} (h : ∀ n, t.eval n = t'.eval n) : t = t' := by
  obtain ⟨r⟩ := t
  obtain ⟨r'⟩ := t'
  have hrule : r.toNat = r'.toNat := by
    refine Nat.eq_of_testBit_eq fun i => ?_
    by_cases hi : i < 8
    · have hbit := h (ofIndex i)
      rwa [TruthTable.eval, TruthTable.eval, index_ofIndex hi] at hbit
    · have hlarge : 2 ^ 8 ≤ 2 ^ i := Nat.pow_le_pow_right (by omega) (by omega)
      rw [Nat.testBit_lt_two_pow (Nat.lt_of_lt_of_le r.toNat_lt hlarge),
        Nat.testBit_lt_two_pow (Nat.lt_of_lt_of_le r'.toNat_lt hlarge)]
  rw [UInt8.toNat_inj.mp hrule]

namespace SymbolicCircuit

variable {d : Diagram} {mode : EvalMode} {k : SymbolicCircuit}

/-- A circuit begins with an evaluation at the first three variables. -/
theorem evaluated_of_ofDiagram (h : ofDiagram d mode = .ok k) :
    ∃ t b, (evaluate TermArena.algebra d ⟨0, 1, 2⟩ mode).exec sixVars = (.ok t, b) := by
  rcases hfirst : (evaluate TermArena.algebra d ⟨0, 1, 2⟩ mode).exec sixVars with ⟨r, b⟩
  cases r with
  | ok t => exact ⟨t, b, rfl⟩
  | error e =>
      have hbuild : (build d mode).exec TermArena.empty = (.error e, b) := by
        rw [build, exec_bind_ok (exec_lift bothInputs_empty)]
        dsimp only
        rw [exec_bind, hfirst]
      have hrun : (build d mode).run TermArena.empty = (.error e, b) := hbuild
      rw [ofDiagram, hrun] at h
      exact absurd h (by simp)

/-- Variables take every value, so the evaluation at them is one at every neighbourhood. -/
theorem evaluateBits_of_ofDiagram (h : ofDiagram d mode = .ok k) (n : Neighborhood Bool) :
    ∃ b, evaluateBits d n mode = .ok b := by
  obtain ⟨t, a, hterms⟩ := evaluated_of_ofDiagram h
  obtain ⟨_, _, ⟨_, f, _, _, hbits⟩ | ⟨e, herror, _⟩⟩ :=
    evaluate_follows d mode sixVars_valid den_first sixVars_bounded
  · obtain ⟨s, hs, _⟩ := exists_spelled n n
    refine ⟨f s, ?_⟩
    rw [← hs, evaluateBits_eq]
    exact hbits s
  · rw [hterms] at herror
    exact absurd herror (by simp)

/-- **A circuit is exact for the table of its diagram.** -/
theorem exact_of_ofDiagram (h : ofDiagram d mode = .ok k) :
    ∃ table, TruthTable.ofDiagram d mode = .ok table ∧ k.Exact table.eval := by
  cases htable : TruthTable.ofDiagram d mode with
  | error e =>
      obtain ⟨n, _, hn, _⟩ := TruthTable.ofDiagram_error htable
      obtain ⟨b, hb⟩ := evaluateBits_of_ofDiagram h (ofIndex n)
      rw [hn] at hb
      exact absurd hb (by simp)
  | ok table =>
      obtain ⟨k', hk', hexact⟩ := ofDiagram_exact (TruthTable.ofDiagram_ok htable)
      rw [h] at hk'
      injection hk' with hk'
      subst hk'
      exact ⟨table, rfl, hexact⟩

end SymbolicCircuit

/-! ## Answers -/

/-- An answer to the question whether a claim holds. The first reading of the clock sets the
deadline, and there is one more before each of a number of trials. -/
structure Verification.Answers (v : Verification) (claim : Prop) (timeout trials : Nat)
    (c : Clock) : Prop where
  verified : v = .verified → claim
  refuted : v = .refuted → ¬claim
  /-- There is no answer only if a reading has reached the deadline. -/
  unknown : v = .unknown → ∃ i, i < trials ∧ c.reading 0 + timeout ≤ c.reading (i + 1)
  /-- There is one if no reading has. -/
  inTime : (∀ i, i < trials → c.reading (i + 1) < c.reading 0 + timeout) →
    v = .verified ∨ v = .refuted

/-- An answer that only the clock can prevent is given in time. -/
theorem Verification.answers_of {v : Verification} {claim : Prop} {timeout trials : Nat} {c : Clock}
    (hverified : v = .verified → claim) (hrefuted : v = .refuted → ¬claim)
    (hunknown : v = .unknown → ∃ i, i < trials ∧ c.reading 0 + timeout ≤ c.reading (i + 1)) :
    v.Answers claim timeout trials c := by
  refine ⟨hverified, hrefuted, hunknown, fun hc => ?_⟩
  cases v with
  | verified => exact Or.inl rfl
  | refuted => exact Or.inr rfl
  | unknown =>
      obtain ⟨i, hi, hlate⟩ := hunknown rfl
      exact absurd (hc i hi) (Nat.not_lt.mpr hlate)

namespace Prover

open SymbolicCircuit

variable {k : SymbolicCircuit} {f : Neighborhood Bool → Bool} {table : TruthTable}

/-- The search for a pair ends before the deadline or because of it. -/
theorem linear_unknown {timeout : Nat} {c : Clock}
    (h : ((exhaustive timeout).linear k c).1 = .unknown) :
    ∃ i, i < 64 ∧ c.reading 0 + timeout ≤ c.reading (i + 1) := by
  rw [linear_eq] at h
  exact Search.findModel_timeout (ofSearch_inv h)

/-- Asked about a table, a prover compares it with the table of the circuit. -/
theorem equivalent_answers (hk : k.Exact table.eval) (timeout : Nat) (c : Clock)
    (t : TruthTable) :
    ((exhaustive timeout).equivalent k t c).1.Answers (t = table) timeout 8 c := by
  refine Verification.answers_of (fun h => ?_) (fun h => ?_) fun h => ?_
  · exact TruthTable.eq_of_eval_eq fun n => (equivalent_verified hk h n).symm
  · rintro rfl
    obtain ⟨n, hn⟩ := equivalent_refuted hk h
    exact hn rfl
  · exact equivalent_unknown hk h

/-- Asked about linearity, it tries all pairs of neighbourhoods. -/
theorem linear_answers (hk : k.Exact f) (timeout : Nat) (c : Clock) :
    ((exhaustive timeout).linear k c).1.Answers
      (∀ a b : Neighborhood Bool, f (a.sum b) = (f a ^^ f b)) timeout 64 c := by
  refine Verification.answers_of (fun h => ?_) (fun h => ?_) fun h => ?_
  · exact linear_verified hk h
  · intro hlinear
    obtain ⟨m, n, hne⟩ := linear_refuted hk h
    exact hne (hlinear m n)
  · exact linear_unknown h

/--
**The answers of a search are exact, whatever the clock shows.**

A diagram that has a circuit, in either mode, has a table. Asked whether the circuit computes
some table, an exhaustive prover only says that it does of the table of the diagram, and that
it does not of any other. Asked whether the circuit is linear, it says so only if the function
of the diagram respects the sum of all pairs of neighbourhoods, which is what the check of the
table finds, and denies it only if some pair fails. It says nothing only if a reading of the
clock has reached the deadline.
-/
theorem exhaustive_exact {d : Diagram} {mode : EvalMode} (h : ofDiagram d mode = .ok k) :
    ∃ table, TruthTable.ofDiagram d mode = .ok table
      ∧ (∀ n, evaluateBits d n mode = .ok (table.eval n))
      ∧ ((Linearity.check table).linear = true ↔
          ∀ a b : Neighborhood Bool, table.eval (a.sum b) = (table.eval a ^^ table.eval b))
      ∧ ∀ timeout c,
        (∀ t, ((exhaustive timeout).equivalent k t c).1.Answers (t = table) timeout 8 c)
        ∧ ((exhaustive timeout).linear k c).1.Answers
            (∀ a b : Neighborhood Bool, table.eval (a.sum b) = (table.eval a ^^ table.eval b))
            timeout 64 c := by
  obtain ⟨table, htable, hexact⟩ := exact_of_ofDiagram h
  refine ⟨table, htable, TruthTable.ofDiagram_ok htable, Linearity.check_linear table, ?_⟩
  exact fun timeout c => ⟨equivalent_answers hexact timeout c, linear_answers hexact timeout c⟩

/-- A gate whose branches agree has the circuit of rule 204, which is linear. -/
theorem exhaustive_exact_gated : ∃ k, ofDiagram Sketch.gatedDiagram .lifted = .ok k
    ∧ ((exhaustive 1).equivalent k ⟨204⟩ .still).1 = .verified
    ∧ ((exhaustive 1).equivalent k ⟨205⟩ .still).1 = .refuted
    ∧ ((exhaustive 1).linear k .still).1 = .verified := by
  have hvalues : ∀ n, n < 8 →
      evaluateBits Sketch.gatedDiagram (ofIndex n) .lifted
        = .ok ((⟨204⟩ : TruthTable).eval (ofIndex n)) := by
    decide +kernel
  have heval : ∀ n, evaluateBits Sketch.gatedDiagram n .lifted
      = .ok ((⟨204⟩ : TruthTable).eval n) :=
    fun n => ofIndex_index n ▸ hvalues n.index n.index_lt
  obtain ⟨k, hk, _⟩ := ofDiagram_exact heval
  obtain ⟨table, _, htable, hlinear, hanswers⟩ := exhaustive_exact hk
  have h204 : table = ⟨204⟩ := TruthTable.eq_of_eval_eq fun n => by
    have hn := heval n
    rw [htable n] at hn
    exact Except.ok.inj hn
  subst h204
  obtain ⟨hequivalent, hlinearAnswer⟩ := hanswers 1 .still
  refine ⟨k, hk, ?_, ?_, ?_⟩
  · rcases (hequivalent ⟨204⟩).inTime fun _ _ => Nat.zero_lt_one with hv | hr
    · exact hv
    · exact absurd rfl ((hequivalent ⟨204⟩).refuted hr)
  · rcases (hequivalent ⟨205⟩).inTime fun _ _ => Nat.zero_lt_one with hv | hr
    · exact absurd ((hequivalent ⟨205⟩).verified hv) (by decide)
    · exact hr
  · rcases hlinearAnswer.inTime fun _ _ => Nat.zero_lt_one with hv | hr
    · exact hv
    · exact absurd (hlinear.mp (by decide +kernel)) (hlinearAnswer.refuted hr)

end Prover

end RuleWiring
