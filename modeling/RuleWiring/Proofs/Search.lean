import Mathlib
import RuleWiring.Proofs.Terms
import RuleWiring.Prover.Search

/-!
# What a search has found out

A search tries assignments in the order of their numbers, from some number on. Whatever it
ends with, it has seen that the assignments before the end do not satisfy the term: all of
them if there is no model, those before the model if there is one, and those that the
deadline left time for otherwise.
-/

namespace RuleWiring

open TermArena

/-- The variables that an assignment covers have the bits of its number. -/
theorem TermArena.getD_assignment {n k : Nat} (h : k < n) (bits : Nat) :
    (assignment n bits).getD k false = bits.testBit k := by
  rw [assignment, List.getD_eq_getElem?_getD, List.getElem?_map, List.getElem?_range h]
  rfl

namespace Search

section Trying

variable (a : TermArena) (formula vars deadline : Nat)

/-- None of the assignments from number `lo` up to number `hi` satisfies the term. -/
def Excluded (lo hi : Nat) : Prop :=
  ∀ n, lo ≤ n → n < hi → a.eval formula (assignment vars n) = false

/-- What an outcome says of a search that begins with assignment `lo` and whose next reading
is the first of `c`. -/
def Says (lo : Nat) (c : Clock) : Search → Prop
  | .sat m => ∃ n, lo ≤ n ∧ n < Nat.pow 2 vars ∧ m = assignment vars n
      ∧ a.eval formula m = true ∧ Excluded a formula vars lo n
  | .unsat => Excluded a formula vars lo (Nat.pow 2 vars)
  | .timeout => ∃ k, lo + k < Nat.pow 2 vars ∧ deadline ≤ c.reading k
      ∧ Excluded a formula vars lo (lo + k)

end Trying

variable {a : TermArena} {formula vars deadline : Nat}

theorem excluded_self (lo : Nat) : Excluded a formula vars lo lo := by
  intro n hlo hhi
  exact absurd hhi (by omega)

theorem excluded_step {lo hi : Nat} (h : a.eval formula (assignment vars lo) = false)
    (hrest : Excluded a formula vars (lo + 1) hi) : Excluded a formula vars lo hi := by
  intro n hlo hhi
  by_cases hn : n = lo
  · rw [hn, h]
  · exact hrest n (by omega) hhi

/-- What the rest of a search says, and the assignment before it, say together. -/
theorem says_step {lo : Nat} {c : Clock} (h : a.eval formula (assignment vars lo) = false)
    {r : Search} (hrest : Says a formula vars deadline (lo + 1) c.read.2 r) :
    Says a formula vars deadline lo c r := by
  cases r with
  | sat m =>
      obtain ⟨n, hlo, hn, hm, heval, hbefore⟩ := hrest
      exact ⟨n, by omega, hn, hm, heval, excluded_step h hbefore⟩
  | unsat => exact excluded_step h hrest
  | timeout =>
      obtain ⟨k, hk, hdeadline, hbefore⟩ := hrest
      rw [Nat.add_right_comm, Nat.add_assoc] at hk hbefore
      exact ⟨k + 1, hk, hdeadline, excluded_step h hbefore⟩

theorem tryLast_says : ∀ (left : Nat) (c : Clock), left ≤ Nat.pow 2 vars →
    Says a formula vars deadline (Nat.pow 2 vars - left) c
      (tryLast a formula vars deadline left c).1
  | 0, c, _ => by
      rw [tryLast, Nat.sub_zero]
      exact excluded_self _
  | left + 1, c, hleft => by
      have hnext : Nat.pow 2 vars - (left + 1) + 1 = Nat.pow 2 vars - left := by omega
      simp only [tryLast]
      by_cases hlate : deadline ≤ c.read.1
      · -- too late: this reading is the one, and nothing has been tried
        rw [if_pos hlate]
        exact ⟨0, by omega, hlate, excluded_self _⟩
      · rw [if_neg hlate]
        cases heval : a.eval formula (assignment vars (Nat.pow 2 vars - (left + 1))) with
        | true =>
            rw [if_pos rfl]
            exact ⟨_, Nat.le_refl _, by omega, rfl, heval, excluded_self _⟩
        | false =>
            -- one more is excluded, and the rest of the search says the rest
            rw [if_neg (by simp)]
            have hrest := tryLast_says left c.read.2 (by omega)
            rw [← hnext] at hrest
            exact says_step heval hrest

/-- **A search is as good as its word.** The first reading sets the deadline. -/
theorem findModel_says (a : TermArena) (formula vars timeout : Nat) (c : Clock) :
    Says a formula vars (c.reading 0 + timeout) 0 c.read.2
      (findModel a formula vars timeout c).1 := by
  have h : Says a formula vars (c.reading 0 + timeout) (Nat.pow 2 vars - Nat.pow 2 vars)
      c.read.2 (findModel a formula vars timeout c).1 :=
    tryLast_says (Nat.pow 2 vars) c.read.2 (Nat.le_refl _)
  rwa [Nat.sub_self] at h

/-! ## Terms of known meaning -/

section Meaning

variable {timeout : Nat} {c : Clock} {f : (Nat → Bool) → Bool}

/-- A term that only depends on the variables tried is false if there is no model. -/
theorem findModel_unsat (hf : a.Denotes formula f)
    (hvars : ∀ s s', (∀ k, k < vars → s k = s' k) → f s = f s')
    (h : (findModel a formula vars timeout c).1 = .unsat) (s : Nat → Bool) : f s = false := by
  have hsays := findModel_says a formula vars timeout c
  rw [h] at hsays
  obtain ⟨n, hn, hbits⟩ := exists_number vars s
  have heval := hsays n (Nat.zero_le n) hn
  rw [eval, hf.2] at heval
  rw [← heval]
  exact hvars _ _ fun k hk => by rw [getD_assignment hk, hbits k hk]

theorem findModel_sat (hf : a.Denotes formula f) {m : List Bool}
    (h : (findModel a formula vars timeout c).1 = .sat m) : ∃ s, f s = true := by
  have hsays := findModel_says a formula vars timeout c
  rw [h] at hsays
  obtain ⟨_, _, _, _, heval, _⟩ := hsays
  rw [eval, hf.2] at heval
  exact ⟨_, heval⟩

theorem findModel_timeout (h : (findModel a formula vars timeout c).1 = .timeout) :
    ∃ k, k < Nat.pow 2 vars ∧ c.reading 0 + timeout ≤ c.reading (k + 1) := by
  have hsays := findModel_says a formula vars timeout c
  rw [h] at hsays
  obtain ⟨k, hk, hlate, _⟩ := hsays
  exact ⟨k, by omega, hlate⟩

end Meaning

end Search

end RuleWiring
