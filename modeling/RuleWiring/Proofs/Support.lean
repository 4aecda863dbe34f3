import Mathlib
import RuleWiring.Proofs.Circuit
import RuleWiring.Proofs.HashConsing

/-!
# The variables of a term

A constructor puts nothing into a term that its operands do not have: it gives back one of them, or
a part of one, or it looks for a term that has its operands among them (`Draws`). So what an
evaluation makes of some variables has no others. This matters for the circuit of a diagram, as its
arena has the variables of two neighbourhoods from the start, while its root is to be a formula over
the first of them.
-/

namespace RuleWiring

/-- The variables of a tree are among the first `n`. -/
def TermTree.Within (n : Nat) : TermTree → Prop
  | .const _ => True
  | .var k => k < n
  | .not t => t.Within n
  | .and t u | .or t u | .xor t u => t.Within n ∧ u.Within n

namespace TermArena

/-- The term at a position, written out, has its variables among the first `n`. -/
def Over (a : TermArena) (n i : Nat) : Prop := ∃ t, a.Unfolds i t ∧ t.Within n

end TermArena

/-- The same of a term that may not be in the arena yet. -/
def Term.Over (a : TermArena) (n : Nat) : Term → Prop
  | .const _ => True
  | .var k => k < n
  | .not i => a.Over n i
  | .and i j | .or i j | .xor i j => a.Over n i ∧ a.Over n j

namespace TermArena

variable {a b : TermArena} {n i j : Nat} {m : StateM TermArena Nat}

/-! ## Terms and their operands -/

theorem over_of_get? {t : Term} (h : a.get? i = some t) (ht : t.Over a n) : a.Over n i := by
  cases t with
  | const b => exact ⟨_, .const h, trivial⟩
  | var k => exact ⟨_, .var h, ht⟩
  | not j =>
      obtain ⟨u, hu, hn⟩ := ht
      exact ⟨_, .not h hu, hn⟩
  | and j k =>
      obtain ⟨⟨u, hu, hn⟩, v, hv, hn'⟩ := ht
      exact ⟨_, .and h hu hv, hn, hn'⟩
  | or j k =>
      obtain ⟨⟨u, hu, hn⟩, v, hv, hn'⟩ := ht
      exact ⟨_, .or h hu hv, hn, hn'⟩
  | xor j k =>
      obtain ⟨⟨u, hu, hn⟩, v, hv, hn'⟩ := ht
      exact ⟨_, .xor h hu hv, hn, hn'⟩

theorem Over.operands {t : Term} (ht : a.get? i = some t) (h : a.Over n i) : t.Over a n := by
  obtain ⟨u, hu, hn⟩ := h
  cases hu with
  | const h => cases ht.symm.trans h; trivial
  | var h => cases ht.symm.trans h; exact hn
  | not h hj => cases ht.symm.trans h; exact ⟨_, hj, hn⟩
  | and h hj hk => cases ht.symm.trans h; exact ⟨⟨_, hj, hn.1⟩, _, hk, hn.2⟩
  | or h hj hk => cases ht.symm.trans h; exact ⟨⟨_, hj, hn.1⟩, _, hk, hn.2⟩
  | xor h hj hk => cases ht.symm.trans h; exact ⟨⟨_, hj, hn.1⟩, _, hk, hn.2⟩

theorem Over.exists_term (h : a.Over n i) : ∃ t, a.get? i = some t := by
  obtain ⟨u, hu, _⟩ := h
  cases hu with
  | const h | var h => exact ⟨_, h⟩
  | not h _ => exact ⟨_, h⟩
  | and h _ _ | or h _ _ | xor h _ _ => exact ⟨_, h⟩

theorem Over.lt_size (h : a.Over n i) : i < a.size := get?_isSome_iff.mp h.exists_term

theorem unfolds_extends (h : Extends a b) {t : TermTree} (ht : a.Unfolds i t) : b.Unfolds i t := by
  induction ht with
  | const hget => exact .const (h.keeps _ _ hget)
  | var hget => exact .var (h.keeps _ _ hget)
  | not hget _ ih => exact .not (h.keeps _ _ hget) ih
  | and hget _ _ iht ihu => exact .and (h.keeps _ _ hget) iht ihu
  | or hget _ _ iht ihu => exact .or (h.keeps _ _ hget) iht ihu
  | xor hget _ _ iht ihu => exact .xor (h.keeps _ _ hget) iht ihu

theorem Over.extends (h : Extends a b) (hi : a.Over n i) : b.Over n i := by
  obtain ⟨t, ht, hn⟩ := hi
  exact ⟨t, unfolds_extends h ht, hn⟩

theorem term_over_extends (h : Extends a b) {t : Term} (ht : t.Over a n) :
    t.Over b n := by
  cases t with
  | const _ | var _ => exact ht
  | not i => exact Over.extends h ht
  | and i j | or i j | xor i j => exact ⟨ht.1.extends h, ht.2.extends h⟩

/-! ## Constructors -/

/-- In an arena, a constructor looks for a term over the first `n` variables or gives back one. -/
def Draws (a : TermArena) (n : Nat) (m : StateM TermArena Nat) : Prop :=
  (∃ t, m a = intern t a ∧ t.Over a n) ∨ ∃ i, m a = (i, a) ∧ a.Over n i

theorem draws_const (a : TermArena) (n : Nat) (v : Bool) : Draws a n (mkConst v) :=
  .inl ⟨.const v, rfl, trivial⟩

theorem draws_not (hi : a.Over n i) : Draws a n (mkNot i) := by
  obtain ⟨t, ht⟩ := hi.exists_term
  cases t with
  | const v => exact .inl ⟨.const (!v), by rw [mkNot, ht], trivial⟩
  | not j => exact .inr ⟨j, by rw [mkNot, ht], hi.operands ht⟩
  | var _ | and _ _ | or _ _ | xor _ _ => exact .inl ⟨.not i, by rw [mkNot, ht], hi⟩

/-- Putting two operands in order does not change which they are. -/
theorem over_sorted (hi : a.Over n i) (hj : a.Over n j) :
    a.Over n (min i j) ∧ a.Over n (max i j) := by
  rcases Nat.le_total i j with h | h
  · rw [Nat.min_eq_left h, Nat.max_eq_right h]
    exact ⟨hi, hj⟩
  · rw [Nat.min_eq_right h, Nat.max_eq_left h]
    exact ⟨hj, hi⟩

/-- Conjunction and disjunction simplify alike. -/
theorem draws_simplified (hi : a.Over n i) (hj : a.Over n j) {z : Bool} {t : Term}
    (hm : m a = if a.const? i = some z ∨ a.const? j = some z then intern (.const z) a
      else if a.const? i = some (!z) then (j, a)
      else if a.const? j = some (!z) then (i, a)
      else if i = j then (i, a) else intern t a)
    (ht : t.Over a n) : Draws a n m := by
  split at hm
  · exact .inl ⟨.const z, hm, trivial⟩
  · split at hm
    · exact .inr ⟨j, hm, hj⟩
    · split at hm
      · exact .inr ⟨i, hm, hi⟩
      · split at hm
        · exact .inr ⟨i, hm, hi⟩
        · exact .inl ⟨t, hm, ht⟩

theorem draws_and (hi : a.Over n i) (hj : a.Over n j) : Draws a n (mkAnd i j) :=
  draws_simplified (z := false) (t := .and (min i j) (max i j)) hi hj rfl (over_sorted hi hj)

theorem draws_or (hi : a.Over n i) (hj : a.Over n j) : Draws a n (mkOr i j) :=
  draws_simplified (z := true) (t := .or (min i j) (max i j)) hi hj rfl (over_sorted hi hj)

theorem draws_xor (hi : a.Over n i) (hj : a.Over n j) : Draws a n (mkXor i j) := by
  have hnot : ∀ k, mkXor i j a = mkNot k a → a.Over n k → Draws a n (mkXor i j) := by
    intro k hk hover
    rw [Draws, hk]
    exact draws_not hover
  cases hci : a.const? i with
  | some x =>
      cases hcj : a.const? j with
      | some y => exact .inl ⟨.const (x ^^ y), by rw [mkXor, hci, hcj], trivial⟩
      | none =>
          cases x with
          | false => exact .inr ⟨j, by rw [mkXor, hci, hcj], hj⟩
          | true => exact hnot j (by rw [mkXor, hci, hcj]) hj
  | none =>
      cases hcj : a.const? j with
      | some y =>
          cases y with
          | false => exact .inr ⟨i, by rw [mkXor, hci, hcj], hi⟩
          | true => exact hnot i (by rw [mkXor, hci, hcj]) hi
      | none =>
          have hm : mkXor i j a = if i = j then intern (.const false) a
              else intern (.xor (min i j) (max i j)) a := by rw [mkXor, hci, hcj]
          split at hm
          · exact .inl ⟨_, hm, trivial⟩
          · exact .inl ⟨_, hm, over_sorted hi hj⟩

/-! ## Evaluations -/

/-- Arenas grow by more terms, of which those over the first `n` variables are looked at. -/
def growthOver (n : Nat) : Growth TermArena Nat where
  Grows := Extends
  Holds a i := a.Over n i
  settled := growth.settled
  trans := extends_trans
  keeps := Over.extends

/-- **What is drawn from such terms is such a term.** -/
theorem Draws.remakes (h : Draws a n m) (hm : growth.Remakes a m) :
    (growthOver n).Remakes a m := by
  obtain ⟨i, b, hrun, hab, hi, hagain⟩ := hm
  refine ⟨i, b, hrun, hab, ?_, hagain⟩
  rcases h with ⟨t, hmake, ht⟩ | ⟨k, hold, hk⟩
  · -- whether it was there or not, the term is now where it was looked for
    have hget := get?_intern_self a t
    rw [← hmake, hrun] at hget
    exact over_of_get? hget (term_over_extends hab ht)
  · rw [hrun] at hold
    cases hold
    exact hk

/-- The terms of an arena over its first `n` variables. -/
def memoryOver (n : Nat) : Memory algebra where
  toGrowth := growthOver n
  constant v h := (draws_const _ n v).remakes (memory.constant v h)
  not h hi := (draws_not hi).remakes (memory.not h hi.lt_size)
  and h hi hj := (draws_and hi hj).remakes (memory.and h hi.lt_size hj.lt_size)
  or h hi hj := (draws_or hi hj).remakes (memory.or h hi.lt_size hj.lt_size)
  xor h hi hj := (draws_xor hi hj).remakes (memory.xor h hi.lt_size hj.lt_size)
  same h hi hj hsame := memory.same h hi.lt_size hj.lt_size hsame

/-- **An evaluation adds no variables** to those of its inputs. -/
theorem over_of_evaluateTerms {d : Diagram} {inputs : Neighborhood Nat} {mode : EvalMode}
    (ha : a.Valid) (hl : a.Over n inputs.left) (hc : a.Over n inputs.center)
    (hr : a.Over n inputs.right) (hrun : evaluateTerms d inputs mode a = (.ok i, b)) :
    b.Over n i :=
  ((memoryOver n).evaluate_repeats (extends_refl ha) ⟨hl, hc, hr⟩ i b hrun).2.1

end TermArena

/-- The root of a circuit is over the variables of the first neighbourhood. -/
theorem SymbolicCircuit.root_over {d : Diagram} {mode : EvalMode} {k : SymbolicCircuit}
    {a : TermArena} (hrun : evaluateTerms d ⟨0, 1, 2⟩ mode sixVars = (.ok k.root, a))
    (h : TermArena.Extends a k.arena) : k.arena.Over 3 k.root := by
  have hvar : ∀ i, i < 3 → sixVars.Over 3 i := by
    intro i hi
    have hget : ∀ i, i < 3 → sixVars.get? i = some (.var i) := by decide +kernel
    exact ⟨.var i, .var (hget i hi), hi⟩
  exact (TermArena.over_of_evaluateTerms sixVars_valid (hvar 0 (by decide)) (hvar 1 (by decide))
    (hvar 2 (by decide)) hrun).extends h

end RuleWiring
