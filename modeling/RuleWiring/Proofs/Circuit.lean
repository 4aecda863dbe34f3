import Mathlib
import RuleWiring.Proofs.Search
import RuleWiring.Proofs.Simulation
import RuleWiring.Proofs.Tables
import RuleWiring.Prover.Circuit

/-!
# The circuit of a diagram is exact

A diagram that has a value at every neighbourhood has a circuit, whose root stands for that
function of the first three variables and whose defect for the sum that is zero where the
function is linear. The questions put to a prover are about these two terms, so its answers
are about the function.
-/

namespace RuleWiring

open TermArena Denotable EvalM

/-! ## Neighbourhoods of variables -/

namespace Neighborhood

/-- The neighbourhood that the first three variables spell. -/
def first (s : Nat → Bool) : Neighborhood Bool := ⟨s 0, s 1, s 2⟩

/-- The neighbourhood that the next three spell. -/
def second (s : Nat → Bool) : Neighborhood Bool := ⟨s 3, s 4, s 5⟩

/-- Any two neighbourhoods are spelled by an assignment. -/
theorem exists_spelled (m n : Neighborhood Bool) : ∃ s, first s = m ∧ second s = n :=
  ⟨fun k => [m.left, m.center, m.right, n.left, n.center, n.right].getD k false, rfl, rfl⟩

theorem decide_eq_beq (m n : Neighborhood Bool) :
    decide (m = n) = (m.left == n.left && m.center == n.center && m.right == n.right) := by
  rw [Bool.eq_iff_iff, decide_eq_true_iff, Neighborhood.mk.injEq]
  simp only [Bool.and_eq_true, beq_iff_eq, and_assoc]

theorem first_congr {s s' : Nat → Bool} (h : ∀ k, k < 3 → s k = s' k) : first s = first s' := by
  rw [first, first, h 0 (by omega), h 1 (by omega), h 2 (by omega)]

theorem second_congr {s s' : Nat → Bool} (h : ∀ k, k < 6 → s k = s' k) :
    second s = second s' := by
  rw [second, second, h 3 (by omega), h 4 (by omega), h 5 (by omega)]

end Neighborhood

open Neighborhood

/-- By how much a function misses linearity at two neighbourhoods. -/
def defectOf (f : Neighborhood Bool → Bool) (m n : Neighborhood Bool) : Bool :=
  f (m.sum n) ^^ (f m ^^ f n)

namespace SymbolicCircuit

/-- The circuit of a function of neighbourhoods. -/
structure Exact (k : SymbolicCircuit) (f : Neighborhood Bool → Bool) : Prop where
  valid : k.arena.Valid
  inputs : Den k.arena k.inputs first
  root : k.arena.Denotes k.root fun s => f (first s)
  defect : k.arena.Denotes k.defect fun s => defectOf f (first s) (second s)

/-! ## Building the circuit -/

/-- The arena that the evaluations start from. -/
def sixVars : TermArena := (bothInputs TermArena.empty).2

theorem sixVars_reachable : Reachable sixVars :=
  .var 5 (.var 4 (.var 3 (.var 2 (.var 1 (.var 0 .empty)))))

theorem sixVars_valid : sixVars.Valid := valid_reachable sixVars_reachable

theorem sixVars_bounded : sixVars.Bounded :=
  (Constructed.of_reachable sixVars_reachable).bounded (by decide +kernel)

theorem bothInputs_empty :
    bothInputs TermArena.empty = ((⟨0, 1, 2⟩, ⟨3, 4, 5⟩), sixVars) := by
  refine Prod.ext ?_ rfl
  decide +kernel

theorem denotes_var {a : TermArena} {i k : Nat} (h : a.get? i = some (.var k)) :
    a.Denotes i fun s => s k :=
  ⟨get?_isSome_iff.mp ⟨_, h⟩, fun s => evalWith_eq h trivial s⟩

theorem den_first : Den sixVars (⟨0, 1, 2⟩ : Neighborhood Nat) first :=
  ⟨denotes_var (by decide +kernel), denotes_var (by decide +kernel), denotes_var (by decide +kernel)⟩

theorem den_second : Den sixVars (⟨3, 4, 5⟩ : Neighborhood Nat) second :=
  ⟨denotes_var (by decide +kernel), denotes_var (by decide +kernel), denotes_var (by decide +kernel)⟩

theorem sum_makes {a : TermArena} (ha : a.Valid) {m n : Neighborhood Nat}
    {f g : (Nat → Bool) → Neighborhood Bool} (hm : Den a m f) (hn : Den a n g) :
    ∃ r b, sum m n a = (r, b) ∧ Extends a b ∧ Den b r fun s => (f s).sum (g s) := by
  obtain ⟨hml, hmc, hmr⟩ := hm
  obtain ⟨hnl, hnc, hnr⟩ := hn
  obtain ⟨l, b, hl, hab, hdl⟩ := mkXor_makes ha hml hnl
  obtain ⟨c, b', hc, hbb', hdc⟩ :=
    mkXor_makes hab.valid (denotes_extends hab hmc) (denotes_extends hab hnc)
  have hab' := extends_trans hab hbb'
  obtain ⟨r, b'', hr, hbb'', hdr⟩ :=
    mkXor_makes hab'.valid (denotes_extends hab' hmr) (denotes_extends hab' hnr)
  refine ⟨⟨l, c, r⟩, b'', ?_, extends_trans hab' hbb'', ?_⟩
  · simp only [sum, bind, StateT.bind, hl, hc, hr]
    rfl
  · exact ⟨denotes_extends (extends_trans hbb' hbb'') hdl, denotes_extends hbb'' hdc, hdr⟩

/-- **A function has an exact circuit.** The six variables are few enough to find any two
terms the same that stand for the same function, so no gate stays undetermined. The root is what
the evaluation at the first three variables has given. -/
theorem ofDiagram_built {d : Diagram} {mode : EvalMode} {f : Neighborhood Bool → Bool}
    (h : ∀ n, evaluateBits d n mode = .ok (f n)) :
    ∃ k, ofDiagram d mode = .ok k ∧ k.Exact f
      ∧ ∃ a, evaluateTerms d ⟨0, 1, 2⟩ mode sixVars = (.ok k.root, a) ∧ Extends a k.arena := by
  have hfew : ∀ {a : TermArena}, Extends sixVars a → a.varCount ≤ maxDecidedVars := by
    intro a ha
    rw [ha.vars]
    decide +kernel
  have hbounded : ∀ {a : TermArena}, Extends sixVars a → a.Bounded :=
    fun ha => ha.bounded sixVars_bounded
  -- the outputs at the two neighbourhoods
  have he0 := extends_refl sixVars_valid
  obtain ⟨fa, a1, hfa, he1, hd1⟩ :=
    evaluateTerms_of_bits he0.valid (hbounded he0) (hfew he0) den_first fun s => h (first s)
  obtain ⟨fb, a2, hfb, he2, hd2⟩ := evaluateTerms_of_bits he1.valid (hbounded he1)
    (hfew he1) (den_extends he1 den_second) fun s => h (second s)
  -- the output at their sum
  have he02 := extends_trans he1 he2
  obtain ⟨ab, a3, hab, he3, hd3⟩ := sum_makes he02.valid (den_extends he02 den_first)
    (den_extends he02 den_second)
  have he03 := extends_trans he02 he3
  obtain ⟨fab, a4, hfab, he4, hd4⟩ := evaluateTerms_of_bits he03.valid (hbounded he03)
    (hfew he03) hd3 fun s => h ((first s).sum (second s))
  -- the sum of all three
  have he14 := extends_trans he2 (extends_trans he3 he4)
  obtain ⟨both, a5, hboth, he5, hd5⟩ := mkXor_makes he14.valid (denotes_extends he14 hd1)
    (denotes_extends (extends_trans he3 he4) hd2)
  obtain ⟨defect, a6, hdefect, he6, hd6⟩ := mkXor_makes he5.valid (denotes_extends he5 hd4) hd5
  have he16 := extends_trans he14 (extends_trans he5 he6)
  have hbuild : (build d mode).exec TermArena.empty = (.ok (fa, ⟨0, 1, 2⟩, defect), a6) := by
    rw [build, exec_bind_ok (exec_lift bothInputs_empty)]
    rw [exec_bind_ok hfa, exec_bind_ok hfb, exec_bind_ok (exec_lift hab), exec_bind_ok hfab]
    rw [exec_bind_ok (exec_lift hboth), exec_bind_ok (exec_lift hdefect)]
    rfl
  refine ⟨⟨a6, fa, ⟨0, 1, 2⟩, defect⟩, ?_, ?_, a1, hfa, he16⟩
  · have hrun : (build d mode).run TermArena.empty = (.ok (fa, ⟨0, 1, 2⟩, defect), a6) := hbuild
    rw [ofDiagram, hrun]
  · exact {
      valid := he16.valid
      inputs := den_extends (extends_trans he1 he16) den_first
      root := denotes_extends he16 hd1
      defect := hd6 }

theorem ofDiagram_exact {d : Diagram} {mode : EvalMode} {f : Neighborhood Bool → Bool}
    (h : ∀ n, evaluateBits d n mode = .ok (f n)) :
    ∃ k, ofDiagram d mode = .ok k ∧ k.Exact f := by
  obtain ⟨k, hk, hexact, _⟩ := ofDiagram_built h
  exact ⟨k, hk, hexact⟩

/-! ## Where the circuit differs from a table -/

section Disagreement

variable {k : SymbolicCircuit} {f : Neighborhood Bool → Bool} {a : TermArena}

theorem literal_makes (ha : a.Valid) {v : Nat} {g : (Nat → Bool) → Bool} (hv : a.Denotes v g)
    (positive : Bool) : Makes a (literal v positive) fun s => g s == positive := by
  cases positive with
  | true =>
      refine makes_old ha rfl hv.1 fun s => ?_
      rw [hv.2 s, beq_true]
  | false =>
      refine makes_congr (mkNot_makes ha hv) fun s => ?_
      rw [beq_false]

theorem differenceAt_makes (hk : k.Exact f) (ha : Extends k.arena a) (t : TruthTable) (n : Nat) :
    Makes a (k.differenceAt t n) fun s =>
      decide (first s = ofIndex n) && (f (first s) ^^ t.eval (ofIndex n)) := by
  obtain ⟨hleft, hcenter, hright⟩ := hk.inputs
  -- the three literals hold together only at neighbourhood `n`
  refine makes_bind (literal_makes ha.valid (denotes_extends ha hleft) _) fun l b hb hl => ?_
  have hkb := extends_trans ha hb
  refine makes_bind (literal_makes hb.valid (denotes_extends hkb hcenter) _) fun c e he hc => ?_
  have hke := extends_trans hkb he
  refine makes_bind (literal_makes he.valid (denotes_extends hke hright) _) fun r p hp hr => ?_
  refine makes_bind (mkAnd_makes hp.valid (denotes_extends (extends_trans he hp) hl)
    (denotes_extends hp hc)) fun lc q hq hlc => ?_
  refine makes_bind (mkAnd_makes hq.valid hlc (denotes_extends hq hr)) fun point u hu hpoint => ?_
  -- and there the root is compared with the table
  refine makes_bind (mkConst_makes hu.valid _) fun expected v hv hexpected => ?_
  have hkv := extends_trans hke (extends_trans hp (extends_trans hq (extends_trans hu hv)))
  refine makes_bind (mkXor_makes hv.valid (denotes_extends hkv hk.root) hexpected)
    fun differs w hw hdiffers => ?_
  refine makes_congr (mkAnd_makes hw.valid (denotes_extends (extends_trans hv hw) hpoint) hdiffers)
    fun s => ?_
  rw [decide_eq_beq]

theorem differences_makes (hk : k.Exact f) (t : TruthTable) : ∀ (ns : List Nat) {a : TermArena}
    {found : Nat} {g : (Nat → Bool) → Bool}, Extends k.arena a → a.Denotes found g →
    Makes a (k.differences t ns found) fun s =>
      g s || ns.any fun n => decide (first s = ofIndex n) && (f (first s) ^^ t.eval (ofIndex n))
  | [], a, found, g, ha, hfound => by
      refine makes_old ha.valid rfl hfound.1 fun s => ?_
      rw [hfound.2 s, List.any_nil, Bool.or_false]
  | n :: ns, a, found, g, ha, hfound => by
      refine makes_bind (differenceAt_makes hk ha t n) fun here b hb hhere => ?_
      refine makes_bind (mkOr_makes hb.valid (denotes_extends hb hfound) hhere)
        fun found' c hc hfound' => ?_
      have hkc := extends_trans ha (extends_trans hb hc)
      refine makes_congr (differences_makes hk t ns hkc hfound') fun s => ?_
      rw [List.any_cons, Bool.or_assoc]

/-- Of the eight numbers one names the neighbourhood. -/
theorem any_difference (f : Neighborhood Bool → Bool) (t : TruthTable) (m : Neighborhood Bool) :
    ((List.range 8).any fun n => decide (m = ofIndex n) && (f m ^^ t.eval (ofIndex n)))
      = (f m ^^ t.eval m) := by
  rw [Bool.eq_iff_iff, List.any_eq_true]
  constructor
  · rintro ⟨n, _, hn⟩
    obtain ⟨hm, hdiffers⟩ := Bool.and_eq_true_iff.mp hn
    rwa [← of_decide_eq_true hm] at hdiffers
  · intro h
    refine ⟨m.index, List.mem_range.mpr m.index_lt, ?_⟩
    rw [ofIndex_index, decide_eq_true rfl, Bool.true_and, h]

theorem disagreement_makes (hk : k.Exact f) (t : TruthTable) :
    Makes k.arena (k.disagreement t) fun s => f (first s) ^^ t.eval (first s) := by
  refine makes_bind (mkConst_makes hk.valid false) fun nothing b hb hnothing => ?_
  refine makes_congr (differences_makes hk t (List.range 8) hb hnothing) fun s => ?_
  rw [Bool.false_or, any_difference]

end Disagreement

end SymbolicCircuit

/-! ## What a prover answers -/

namespace Prover

open SymbolicCircuit

variable {k : SymbolicCircuit} {f : Neighborhood Bool → Bool} {p : Prover} {c : Clock}

theorem ofSearch_inv {r : Search} {v : Verification} (h : Verification.ofSearch r = v) :
    match v with
    | .verified => r = .unsat
    | .refuted => ∃ m, r = .sat m
    | .unknown => r = .timeout := by
  subst h
  cases r with
  | sat m => exact ⟨m, rfl⟩
  | unsat => rfl
  | timeout => rfl

/-- The question whether the circuit computes a table is a search for where it does not. -/
theorem equivalent_eq (hk : k.Exact f) (timeout : Nat) (t : TruthTable) (c : Clock) :
    ∃ a term, a.Denotes term (fun s => f (first s) ^^ t.eval (first s))
      ∧ ((exhaustive timeout).equivalent k t c).1
        = .ofSearch (Search.findModel a term 3 timeout c).1 := by
  obtain ⟨term, a, hrun, _, hterm⟩ := disagreement_makes hk t
  refine ⟨a, term, hterm, ?_⟩
  simp only [equivalent, hrun]

theorem equivalent_verified (hk : k.Exact f) {t : TruthTable}
    (h : (p.equivalent k t c).1 = .verified) (n : Neighborhood Bool) : f n = t.eval n := by
  cases p with
  | null => exact absurd h (by simp [equivalent])
  | exhaustive timeout =>
      obtain ⟨a, term, hterm, heq⟩ := equivalent_eq hk timeout t c
      rw [heq] at h
      obtain ⟨s, hs, _⟩ := exists_spelled n n
      have hfalse := Search.findModel_unsat hterm
        (fun _ _ hsame => by rw [first_congr hsame]) (ofSearch_inv h) s
      rw [hs] at hfalse
      exact bne_eq_false_iff_eq.mp hfalse

theorem equivalent_refuted (hk : k.Exact f) {t : TruthTable}
    (h : (p.equivalent k t c).1 = .refuted) : ∃ n, f n ≠ t.eval n := by
  cases p with
  | null => exact absurd h (by simp [equivalent])
  | exhaustive timeout =>
      obtain ⟨a, term, hterm, heq⟩ := equivalent_eq hk timeout t c
      rw [heq] at h
      obtain ⟨m, hm⟩ := ofSearch_inv h
      obtain ⟨s, hs⟩ := Search.findModel_sat hterm hm
      exact ⟨first s, bne_iff_ne.mp hs⟩

theorem equivalent_unknown (hk : k.Exact f) {timeout : Nat} {t : TruthTable}
    (h : ((exhaustive timeout).equivalent k t c).1 = .unknown) :
    ∃ i, i < 8 ∧ c.reading 0 + timeout ≤ c.reading (i + 1) := by
  obtain ⟨a, term, _, heq⟩ := equivalent_eq hk timeout t c
  rw [heq] at h
  exact Search.findModel_timeout (ofSearch_inv h)

theorem linear_eq (k : SymbolicCircuit) (timeout : Nat) (c : Clock) :
    ((exhaustive timeout).linear k c).1
      = .ofSearch (Search.findModel k.arena k.defect 6 timeout c).1 := rfl

/-- A search that ends without a model has seen the function to be linear. -/
theorem linear_verified (hk : k.Exact f) (h : (p.linear k c).1 = .verified)
    (m n : Neighborhood Bool) : f (m.sum n) = (f m ^^ f n) := by
  cases p with
  | null => exact absurd h (by simp [linear])
  | exhaustive timeout =>
      rw [linear_eq] at h
      obtain ⟨s, hm, hn⟩ := exists_spelled m n
      have hfalse := Search.findModel_unsat hk.defect (fun _ _ hsame => by
        rw [first_congr fun i hi => hsame i (by omega), second_congr hsame])
        (ofSearch_inv h) s
      rw [hm, hn] at hfalse
      exact bne_eq_false_iff_eq.mp hfalse

theorem linear_refuted (hk : k.Exact f) (h : (p.linear k c).1 = .refuted) :
    ∃ m n : Neighborhood Bool, f (m.sum n) ≠ (f m ^^ f n) := by
  cases p with
  | null => exact absurd h (by simp [linear])
  | exhaustive timeout =>
      rw [linear_eq] at h
      obtain ⟨model, hmodel⟩ := ofSearch_inv h
      obtain ⟨s, hs⟩ := Search.findModel_sat hk.defect hmodel
      exact ⟨first s, second s, bne_iff_ne.mp hs⟩

end Prover

end RuleWiring
