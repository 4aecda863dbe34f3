import Mathlib
import RuleWiring.Analysis.Properties
import RuleWiring.Proofs.Outcomes

/-!
# Tables of diagrams

A truth table is a function of neighbourhoods, and their numbers are only names for them.
The table of a diagram is the function that the diagram is evaluated to; there is none if
one of the eight evaluations fails, and the error is then that of the first that does.
-/

namespace RuleWiring

/-! ## Neighbourhoods by number -/

namespace Neighborhood

/-- The sum of two neighbourhoods, bit by bit. -/
def sum (a b : Neighborhood Bool) : Neighborhood Bool :=
  ⟨a.left ^^ b.left, a.center ^^ b.center, a.right ^^ b.right⟩

theorem index_lt (n : Neighborhood Bool) : n.index < 8 := by
  rcases n with ⟨_ | _, _ | _, _ | _⟩ <;> decide

theorem ofIndex_index (n : Neighborhood Bool) : ofIndex n.index = n := by
  rcases n with ⟨_ | _, _ | _, _ | _⟩ <;> decide

theorem index_ofIndex {n : Nat} (h : n < 8) : (ofIndex n).index = n := by
  interval_cases n <;> decide

theorem ofIndex_xor (m n : Nat) : ofIndex (m ^^^ n) = (ofIndex m).sum (ofIndex n) := by
  simp only [ofIndex, sum, Nat.testBit_xor]

end Neighborhood

open Neighborhood

/-! ## Tables by number -/

namespace TruthTable

theorem testBit_foldr : ∀ (bs : List Bool) (k : Nat),
    (bs.foldr (fun (b : Bool) (n : Nat) => 2 * n + b.toNat) 0).testBit k = bs.getD k false
  | [], k => by simp
  | b :: bs, 0 => by
      rw [List.foldr_cons, Nat.testBit_zero, Nat.mul_add_mod]
      cases b <;> rfl
  | b :: bs, k + 1 => by
      have hb := b.toNat_le
      rw [List.foldr_cons, Nat.testBit_add_one, List.getD_cons_succ, ← testBit_foldr bs k]
      congr 1
      omega

/-- Bits listed from the lowest to the highest are the bits of the rule. -/
theorem output_ofBits {bs : List Bool} (h : bs.length ≤ 8) (k : Nat) :
    (ofBits bs.reverse).output k = bs.getD k false := by
  rw [ofBits, output, List.foldl_reverse, UInt8.toNat_ofNat', Nat.testBit_mod_two_pow,
    testBit_foldr]
  by_cases hk : k < 8
  · rw [decide_eq_true hk, Bool.true_and]
  · rw [decide_eq_false hk, Bool.false_and, List.getD_eq_default _ _ (by omega)]

theorem output_eq {n : Nat} (h : n < 8) (t : TruthTable) : t.output n = t.eval (ofIndex n) := by
  rw [eval, index_ofIndex h]

/-! ## The table of a diagram -/

variable {d : Diagram} {mode : EvalMode}

theorem outputs_ok : ∀ {ns : List Nat} {bs : List Bool}, outputs d mode ns = .ok bs →
    List.Forall₂ (fun n b => evaluateBits d (ofIndex n) mode = .ok b) ns bs
  | [], bs, h => by
      injection h with h
      subst h
      exact .nil
  | n :: ns, bs, h => by
      rw [outputs] at h
      split at h
      · exact absurd h (by simp)
      · rename_i b hb
        obtain ⟨rest, hrest, hbs⟩ := map_eq_ok h
        subst hbs
        exact .cons hb (outputs_ok hrest)

/-- The numbers being in order, the first failure is the lowest. -/
theorem outputs_error {e : EvalError} : ∀ (len lo : Nat),
    outputs d mode (List.range' lo len) = .error e →
    ∃ n, lo ≤ n ∧ n < lo + len ∧ evaluateBits d (ofIndex n) mode = .error e
      ∧ ∀ m, lo ≤ m → m < n → ∃ b, evaluateBits d (ofIndex m) mode = .ok b
  | 0, lo, h => absurd h (by simp [outputs])
  | len + 1, lo, h => by
      rw [List.range'_succ, outputs] at h
      split at h
      · rename_i e' he
        injection h with h
        subst h
        exact ⟨lo, Nat.le_refl _, by omega, he, fun m hlo hm => absurd hm (by omega)⟩
      · rename_i b hb
        obtain ⟨n, hlo, hn, he, hbefore⟩ := outputs_error len (lo + 1) (map_eq_error h)
        refine ⟨n, by omega, by omega, he, fun m hm hmn => ?_⟩
        by_cases hfirst : m = lo
        · exact ⟨b, hfirst ▸ hb⟩
        · exact hbefore m (by omega) hmn

/-- **A table is read off the evaluations.** -/
theorem ofDiagram_ok {t : TruthTable} (h : ofDiagram d mode = .ok t) (n : Neighborhood Bool) :
    evaluateBits d n mode = .ok (t.eval n) := by
  obtain ⟨bs, houtputs, ht⟩ := map_eq_ok h
  have hall := outputs_ok houtputs
  have hlen : bs.length = 8 := hall.length_eq.symm.trans List.length_range
  have hn : n.index < (List.range 8).length := n.index_lt
  have heval := hall.get hn (by rw [hlen]; exact n.index_lt)
  rw [List.get_eq_getElem, List.getElem_range, ofIndex_index, List.get_eq_getElem] at heval
  rw [heval, ← ht, eval, output_ofBits (Nat.le_of_eq hlen), List.getD_eq_getElem]

/-- **There is no table if an evaluation fails**, and the lowest that does decides. -/
theorem ofDiagram_error {e : EvalError} (h : ofDiagram d mode = .error e) :
    ∃ n, n < 8 ∧ evaluateBits d (ofIndex n) mode = .error e
      ∧ ∀ m, m < n → ∃ b, evaluateBits d (ofIndex m) mode = .ok b := by
  have houtputs := map_eq_error h
  rw [List.range_eq_range'] at houtputs
  obtain ⟨n, _, hn, he, hbefore⟩ := outputs_error 8 0 houtputs
  exact ⟨n, by omega, he, fun m hm => hbefore m (Nat.zero_le _) hm⟩

/-- Only one failure is the lowest. -/
theorem ofDiagram_error_of_lowest {e : EvalError} {n : Nat}
    (he : evaluateBits d (ofIndex n) mode = .error e)
    (hbefore : ∀ m, m < n → ∃ b, evaluateBits d (ofIndex m) mode = .ok b) :
    ofDiagram d mode = .error e := by
  cases htable : ofDiagram d mode with
  | ok t =>
      rw [ofDiagram_ok htable] at he
      exact absurd he (by simp)
  | error e' =>
      obtain ⟨n', _, he', hbefore'⟩ := ofDiagram_error htable
      -- whichever of the two were lower, the other would not be the lowest
      rcases Nat.lt_trichotomy n n' with hlt | heq | hgt
      · obtain ⟨b, hb⟩ := hbefore' n hlt
        rw [he] at hb
        exact absurd hb (by simp)
      · subst heq
        rw [he] at he'
        injection he' with he'
        rw [he']
      · obtain ⟨b, hb⟩ := hbefore n' hgt
        rw [he'] at hb
        exact absurd hb (by simp)

/-- A node that the mode does not allow is an obstacle at every neighbourhood. -/
theorem ofDiagram_unsupported {e : EvalError} (h : checkSupported d mode = .error e) :
    ofDiagram d mode = .error e := by
  have hall : ∀ n, evaluateBits d (ofIndex n) mode = .error e := by
    intro n
    rw [evaluateBits, evaluate, h]
    rfl
  rw [ofDiagram, List.range_eq_range', List.range'_succ, outputs, hall]
  rfl

end TruthTable

/-! ## Linear tables -/

namespace Linearity

theorem mem_pairs {p : Nat × Nat} : p ∈ pairs ↔ p.1 < 8 ∧ p.2 < 8 := by
  simp only [pairs, List.mem_flatMap, List.mem_map, List.mem_range]
  constructor
  · rintro ⟨a, ha, b, hb, rfl⟩
    exact ⟨ha, hb⟩
  · rintro ⟨ha, hb⟩
    exact ⟨p.1, ha, p.2, hb, rfl⟩

theorem respects_iff (t : TruthTable) {p : Nat × Nat} (hp : p ∈ pairs) : respects t p = true ↔
    t.eval ((ofIndex p.1).sum (ofIndex p.2)) = (t.eval (ofIndex p.1) ^^ t.eval (ofIndex p.2)) := by
  obtain ⟨h1, h2⟩ := mem_pairs.mp hp
  -- the index of the sum is in range too, so the table is asked at the sum
  have hsum : p.1 ^^^ p.2 < 2 ^ 3 := Nat.xor_lt_two_pow h1 h2
  rw [respects, decide_eq_true_iff, TruthTable.output_eq h1, TruthTable.output_eq h2,
    TruthTable.output_eq hsum, ofIndex_xor]

/-- **The check of all pairs is a check of all neighbourhoods.** -/
theorem check_linear (t : TruthTable) : (check t).linear = true ↔
    ∀ a b : Neighborhood Bool, t.eval (a.sum b) = (t.eval a ^^ t.eval b) := by
  have hnone : (check t).linear = true ↔ pairs.find? (fun p => !respects t p) = none := by
    rw [check]
    cases pairs.find? fun p => !respects t p with
    | none => simp
    | some p => simp
  rw [hnone, List.find?_eq_none]
  constructor
  · intro h a b
    have hp : (a.index, b.index) ∈ pairs := mem_pairs.mpr ⟨a.index_lt, b.index_lt⟩
    have hrespects : respects t (a.index, b.index) = true := by
      have := h _ hp
      rwa [Bool.not_eq_true, Bool.not_eq_false'] at this
    have heq := (respects_iff t hp).mp hrespects
    rwa [ofIndex_index, ofIndex_index] at heq
  · intro h p hp
    rw [(respects_iff t hp).mpr (h _ _)]
    exact Bool.false_ne_true

end Linearity

end RuleWiring
