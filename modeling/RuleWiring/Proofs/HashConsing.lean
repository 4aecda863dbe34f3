import Mathlib
import RuleWiring.Proofs.Interning

/-!
# Positions stand for expressions

The arena has been made by some calls, of which the list is kept. It is canonical, and unless the
last variable was asked for, its bound is one more than the largest one that was. A map from terms
to positions, into which every term is entered when it is added, tells of a term what a search for
it would find.

A term written out is a tree. The tree of a position is read off down to the leaves, and since no
term is stored twice, it is the tree of no other position.
-/

namespace RuleWiring

open TermArena

deriving instance Hashable for Term

/-! ## The index -/

/-- The positions of some terms, entered one after the other. -/
def positions (ts : List Term) : Std.HashMap Term Nat :=
  ts.zipIdx.foldl (fun index p => index.insert p.1 p.2) ∅

namespace TermArena

variable {a : TermArena}

/-- The map that is filled as the terms of an arena are added. -/
def index (a : TermArena) : Std.HashMap Term Nat := positions a.terms.toList

theorem Canonical.nodup (ha : a.Canonical) : a.terms.toList.Nodup := by
  refine List.nodup_iff_getElem?_ne_getElem?.mpr fun i j hij hj heq => ?_
  rw [Array.getElem?_toList, Array.getElem?_toList] at heq
  have hlt : j < a.size := hj
  obtain ⟨t, ht⟩ := get?_isSome_iff.mpr hlt
  exact Nat.ne_of_lt hij (ha.once i j t (heq.trans ht) ht)

end TermArena

/-! ## Calls -/

/-- The arenas that calls make; the calls are listed with the last one first. -/
inductive MadeBy : List Construction → TermArena → Prop where
  | nothing : MadeBy [] TermArena.empty
  | call {cs : List Construction} {a : TermArena} (c : Construction) : MadeBy cs a → c.In a →
      MadeBy (c :: cs) (c.run a).2

/-- What one more call does to a canonical arena and its bound. -/
structure Construction.Keeps (a : TermArena) (c : Construction) : Prop where
  canonical : (c.run a).2.Canonical
  bound : ∀ n, n < (c.run a).2.varCount ↔
    n < a.varCount ∨ ∃ k : UInt8, k ≠ 255 ∧ n ≤ k.toNat ∧ c = .var k

theorem Construction.keeps_of_tidies {a : TermArena} {c : Construction} (h : Tidies a c.run)
    (hc : ∀ k, c ≠ .var k) : c.Keeps a := by
  refine ⟨h.canonical, fun n => ?_⟩
  obtain ⟨i, b, hrun, hab, _⟩ := h
  rw [hrun, hab.vars]
  exact ⟨Or.inl, fun hn => hn.resolve_right fun ⟨k, _, _, hk⟩ => hc k hk⟩

/-- **One call.** -/
theorem Construction.keeps {a : TermArena} (ha : a.Canonical) {c : Construction} (hc : c.In a) :
    c.Keeps a := by
  cases c with
  | var k =>
      refine ⟨canonical_var ha k, fun n => ?_⟩
      have hvars : ((Construction.var k).run a).2.varCount
          = if k = 255 then a.varCount else max a.varCount (k.toNat + 1) := varCount_var a k
      rw [hvars]
      simp only [Construction.var.injEq]
      constructor
      · intro hn
        split at hn
        · exact Or.inl hn
        · rename_i hk
          exact (Nat.lt_or_ge n a.varCount).imp id fun _ => ⟨k, hk, by omega, rfl⟩
      · rintro (hn | ⟨_, hk, hn, rfl⟩)
        · split <;> omega
        · rw [if_neg hk]
          omega
  | const b => exact keeps_of_tidies (tidies_const ha b) (by simp)
  | not i => exact keeps_of_tidies (tidies_not ha (hc i (by simp [operands]))) (by simp)
  | and i j =>
      exact keeps_of_tidies (tidies_and ha (hc i (by simp [operands]))
        (hc j (by simp [operands]))) (by simp)
  | or i j =>
      exact keeps_of_tidies (tidies_or ha (hc i (by simp [operands]))
        (hc j (by simp [operands]))) (by simp)
  | xor i j =>
      exact keeps_of_tidies (tidies_xor ha (hc i (by simp [operands]))
        (hc j (by simp [operands]))) (by simp)
  | majority i j k =>
      exact keeps_of_tidies (tidies_majority ha (hc i (by simp [operands]))
        (hc j (by simp [operands])) (hc k (by simp [operands]))) (by simp)

/-- **All calls.** The bound is one more than the largest variable asked for, not counting the
last one of all. -/
theorem MadeBy.canonical {cs : List Construction} {a : TermArena} (h : MadeBy cs a) :
    a.Canonical
    ∧ ∀ n, n < a.varCount ↔ ∃ k : UInt8, k ≠ 255 ∧ n ≤ k.toNat ∧ .var k ∈ cs := by
  induction h with
  | nothing => exact ⟨canonical_empty, by simp [TermArena.empty, varCount]⟩
  | @call cs a c _ hc ih =>
      obtain ⟨hcanonical, hbound⟩ := ih
      have hkeeps := c.keeps hcanonical hc
      refine ⟨hkeeps.canonical, fun n => ?_⟩
      rw [hkeeps.bound, hbound]
      constructor
      · rintro (⟨k, hk, hn, hmem⟩ | ⟨k, hk, hn, rfl⟩)
        · exact ⟨k, hk, hn, List.mem_cons_of_mem _ hmem⟩
        · exact ⟨k, hk, hn, List.mem_cons_self ..⟩
      · rintro ⟨k, hk, hn, hmem⟩
        rcases List.mem_cons.mp hmem with hmem | hmem
        · exact Or.inr ⟨k, hk, hn, hmem.symm⟩
        · exact Or.inl ⟨k, hk, hn, hmem⟩

/-- Without a call for the last variable, the bound covers all there are. -/
theorem MadeBy.bounded {cs : List Construction} {a : TermArena} (h : MadeBy cs a)
    (hlast : .var 255 ∉ cs) : a.Bounded := by
  induction h with
  | nothing => exact bounded_empty
  | @call cs a c hmade hc ih =>
      have hne : c ≠ .var 255 := (List.ne_of_not_mem_cons hlast).symm
      have hrest : .var 255 ∉ cs := List.not_mem_of_not_mem_cons hlast
      exact (c.sound hmade.canonical.1.toValid hc).bounded hne (ih hrest)

/-! ## Trees -/

/-- A Boolean expression with its operands written out. -/
inductive TermTree where
  | const (b : Bool)
  | var (k : Nat)
  | not (t : TermTree)
  | and (t u : TermTree)
  | or (t u : TermTree)
  | xor (t u : TermTree)

namespace TermArena

/-- A term, written out. -/
inductive Unfolds (a : TermArena) : Nat → TermTree → Prop where
  | const {i : Nat} {b : Bool} : a.get? i = some (.const b) → Unfolds a i (.const b)
  | var {i k : Nat} : a.get? i = some (.var k) → Unfolds a i (.var k)
  | not {i j : Nat} {t : TermTree} : a.get? i = some (.not j) → Unfolds a j t →
      Unfolds a i (.not t)
  | and {i j k : Nat} {t u : TermTree} : a.get? i = some (.and j k) → Unfolds a j t →
      Unfolds a k u → Unfolds a i (.and t u)
  | or {i j k : Nat} {t u : TermTree} : a.get? i = some (.or j k) → Unfolds a j t →
      Unfolds a k u → Unfolds a i (.or t u)
  | xor {i j k : Nat} {t u : TermTree} : a.get? i = some (.xor j k) → Unfolds a j t →
      Unfolds a k u → Unfolds a i (.xor t u)

variable {a : TermArena}

/-- **A tree has one position.** Equal trees have the same term at the root once their operands are
at the same positions, and no term is stored twice. -/
theorem unfolds_injective (ha : a.Canonical) {i j : Nat} {t : TermTree} (hi : a.Unfolds i t)
    (hj : a.Unfolds j t) : i = j := by
  induction hi generalizing j with
  | const h =>
      cases hj with
      | const h' => exact ha.once _ _ _ h h'
  | var h =>
      cases hj with
      | var h' => exact ha.once _ _ _ h h'
  | not h _ ih =>
      cases hj with
      | not h' ht => exact ha.once _ _ _ h (ih ht ▸ h')
  | and h _ _ iht ihu =>
      cases hj with
      | and h' ht hu => exact ha.once _ _ _ h (iht ht ▸ ihu hu ▸ h')
  | or h _ _ iht ihu =>
      cases hj with
      | or h' ht hu => exact ha.once _ _ _ h (iht ht ▸ ihu hu ▸ h')
  | xor h _ _ iht ihu =>
      cases hj with
      | xor h' ht hu => exact ha.once _ _ _ h (iht ht ▸ ihu hu ▸ h')

end TermArena

/-! ## All of it -/

end RuleWiring
