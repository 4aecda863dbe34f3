import Mathlib
import RuleWiring.Proofs.Terms

/-!
# Calls of the constructors

An arena is made by calls, each of which names operands among the terms made before. Whatever
the calls have been, one more leaves the earlier terms and their values alone and returns a
term that means what the call says, even where a simplification has returned an operand or an
old term instead of a new one. What a term means is read off the terms themselves, operand by
operand, and the sweep from the oldest term to the newest finds just that.
-/

namespace RuleWiring

namespace TermArena

/-! ## The recursive meaning of a term -/

/-- The value that a term has under a list of values, found from those of its operands. -/
inductive Means (a : TermArena) (s : List Bool) : Nat → Bool → Prop where
  | const {i : Nat} {b : Bool} : a.get? i = some (.const b) → Means a s i b
  | var {i k : Nat} : a.get? i = some (.var k) → Means a s i (s.getD k false)
  | not {i j : Nat} {x : Bool} : a.get? i = some (.not j) → Means a s j x → Means a s i (!x)
  | and {i j k : Nat} {x y : Bool} : a.get? i = some (.and j k) → Means a s j x →
      Means a s k y → Means a s i (x && y)
  | or {i j k : Nat} {x y : Bool} : a.get? i = some (.or j k) → Means a s j x →
      Means a s k y → Means a s i (x || y)
  | xor {i j k : Nat} {x y : Bool} : a.get? i = some (.xor j k) → Means a s j x →
      Means a s k y → Means a s i (x ^^ y)

section Meaning

variable {a : TermArena} {s : List Bool}

/-- The equation of a term, for its value under a list. -/
theorem eval_eq (ha : a.Valid) {i : Nat} {t : Term} (h : a.get? i = some t) :
    a.eval i s = t.value (a.values fun k => s.getD k false) fun k => s.getD k false :=
  evalWith_eq h (ha.operands i t h) _

theorem eval_of_means (ha : a.Valid) {i : Nat} {v : Bool} (h : a.Means s i v) :
    a.eval i s = v := by
  induction h with
  | const h => exact eval_eq ha h
  | var h => exact eval_eq ha h
  | not h _ ih => rw [eval_eq ha h, ← ih]; rfl
  | and h _ _ ihx ihy => rw [eval_eq ha h, ← ihx, ← ihy]; rfl
  | or h _ _ ihx ihy => rw [eval_eq ha h, ← ihx, ← ihy]; rfl
  | xor h _ _ ihx ihy => rw [eval_eq ha h, ← ihx, ← ihy]; rfl

/-- Operands being older, every term has a meaning, and the sweep finds it. -/
theorem means_eval (ha : a.Valid) (i : Nat) (hi : i < a.size) : a.Means s i (a.eval i s) := by
  induction i using Nat.strongRecOn with
  | ind i ih =>
    obtain ⟨t, ht⟩ := get?_isSome_iff.mpr hi
    have hbelow := ha.operands i t ht
    rw [eval_eq ha ht]
    have hold : ∀ j, j < i → a.Means s j (a.eval j s) := fun j hj => ih j hj (by omega)
    cases t with
    | const b => exact .const ht
    | var k => exact .var ht
    | not j => exact .not ht (hold j hbelow)
    | and j k => exact .and ht (hold j hbelow.1) (hold k hbelow.2)
    | or j k => exact .or ht (hold j hbelow.1) (hold k hbelow.2)
    | xor j k => exact .xor ht (hold j hbelow.1) (hold k hbelow.2)

theorem lt_of_means {i : Nat} {v : Bool} (h : a.Means s i v) : i < a.size := by
  cases h with
  | const h | var h | not h | and h | or h | xor h => exact get?_isSome_iff.mp ⟨_, h⟩

/-- **The sweep finds the recursive meaning**, of terms that are there and of no others. -/
theorem means_iff (ha : a.Valid) {i : Nat} {v : Bool} :
    a.Means s i v ↔ i < a.size ∧ a.eval i s = v := by
  constructor
  · intro h
    exact ⟨lt_of_means h, eval_of_means ha h⟩
  · rintro ⟨hi, rfl⟩
    exact means_eval ha i hi

end Meaning

end TermArena

open TermArena

/-! ## Calls -/

/-- A call of a constructor; operands are positions of terms. -/
inductive Construction where
  | var (k : UInt8)
  | const (b : Bool)
  | not (i : Nat)
  | and (i j : Nat)
  | or (i j : Nat)
  | xor (i j : Nat)
  | majority (i j k : Nat)

namespace Construction

def operands : Construction → List Nat
  | .var _ | .const _ => []
  | .not i => [i]
  | .and i j | .or i j | .xor i j => [i, j]
  | .majority i j k => [i, j, k]

def run : Construction → StateM TermArena Nat
  | .var k => TermArena.var k
  | .const b => mkConst b
  | .not i => mkNot i
  | .and i j => mkAnd i j
  | .or i j => mkOr i j
  | .xor i j => mkXor i j
  | .majority i j k => algebra.majority i j k

/-- The value a call asks for, from those of the terms made before and of the variables. -/
def meaning (value s : Nat → Bool) : Construction → Bool
  | .var k => s k.toNat
  | .const b => b
  | .not i => !value i
  | .and i j => value i && value j
  | .or i j => value i || value j
  | .xor i j => value i ^^ value j
  | .majority i j k => 2 ≤ (value i).toNat + (value j).toNat + (value k).toNat

/-- The operands of a call are terms of the arena. -/
def In (a : TermArena) (c : Construction) : Prop := ∀ i ∈ c.operands, i < a.size

instance (a : TermArena) (c : Construction) : Decidable (c.In a) :=
  inferInstanceAs (Decidable (∀ i ∈ c.operands, i < a.size))

/-- What a call owes to the arena and to the caller. -/
structure Sound (a : TermArena) (c : Construction) : Prop extends Retains a (c.run a).2 where
  /-- The term that is returned has the value asked for. -/
  result : (c.run a).2.Denotes (c.run a).1 fun s => c.meaning (fun j => a.evalWith j s) s
  /-- Variables stay below the bound, unless the last one is asked for. -/
  bounded : c ≠ .var 255 → a.Bounded → (c.run a).2.Bounded

/-- A call that is not for a variable asks for nothing that is not there. -/
theorem sound_of_makes {a : TermArena} {c : Construction} {f : (Nat → Bool) → Bool}
    (h : Makes a c.run f) (hf : ∀ s, f s = c.meaning (fun j => a.evalWith j s) s) : c.Sound a := by
  obtain ⟨i, b, hrun, hext, hi⟩ := h
  refine ⟨?_, ?_, fun _ => ?_⟩
  all_goals rw [hrun]
  · exact hext.toRetains
  · exact ⟨hi.1, fun s => (hi.2 s).trans (hf s)⟩
  · exact hext.bounded

theorem majority_eq (x y z : Bool) :
    (((x && y) || (y && z)) || (x && z)) = decide (2 ≤ x.toNat + y.toNat + z.toNat) := by
  cases x <;> cases y <;> cases z <;> rfl

/-- **A call is sound**, whatever it simplifies. -/
theorem sound {a : TermArena} (ha : a.Valid) {c : Construction} (hc : c.In a) : c.Sound a := by
  have hself : ∀ i ∈ c.operands, a.Denotes i (a.evalWith i) := fun i hi => denotes_self (hc i hi)
  cases c with
  | var k => exact ⟨retains_var ha k, denotes_var ha k, fun hk hb => bounded_var hb fun hlast =>
      hk (congrArg Construction.var hlast)⟩
  | const b => exact sound_of_makes (mkConst_makes ha b) fun _ => rfl
  | not i =>
      exact sound_of_makes (mkNot_makes ha (hself i (by simp [operands]))) fun _ => rfl
  | and i j =>
      exact sound_of_makes (mkAnd_makes ha (hself i (by simp [operands]))
        (hself j (by simp [operands]))) fun _ => rfl
  | or i j =>
      exact sound_of_makes (mkOr_makes ha (hself i (by simp [operands]))
        (hself j (by simp [operands]))) fun _ => rfl
  | xor i j =>
      exact sound_of_makes (mkXor_makes ha (hself i (by simp [operands]))
        (hself j (by simp [operands]))) fun _ => rfl
  | majority i j k =>
      exact sound_of_makes (majority_makes ha (hself i (by simp [operands]))
        (hself j (by simp [operands])) (hself k (by simp [operands]))) fun _ => majority_eq ..

end Construction

/-! ## Every sequence of calls -/

/-- The arenas that calls make, each on terms of the arena it finds. -/
inductive Constructed : TermArena → Prop where
  | empty : Constructed TermArena.empty
  | call {a : TermArena} (c : Construction) : Constructed a → c.In a → Constructed (c.run a).2

theorem Constructed.valid {a : TermArena} (h : Constructed a) : a.Valid := by
  induction h with
  | empty => exact valid_empty
  | call c _ hc ih => exact (c.sound ih hc).valid

/-- What a call has once added to the arena stays there, and so does the last variable. -/
theorem Constructed.bounded {a : TermArena} (h : Constructed a) (hlast : .var 255 ∉ a.terms) :
    a.Bounded := by
  induction h with
  | empty => exact bounded_empty
  | @call a c hmade hc ih =>
      have hsound := c.sound hmade.valid hc
      refine hsound.bounded ?_ (ih fun hold => hlast ?_)
      · rintro rfl
        exact hlast (mem_terms_iff.mpr ⟨_, get?_intern_self _ _⟩)
      · obtain ⟨i, hi⟩ := mem_terms_iff.mp hold
        exact mem_terms_iff.mpr ⟨i, hsound.keeps i _ hi⟩

theorem Constructed.of_reachable {a : TermArena} (h : Reachable a) : Constructed a := by
  -- the operands of a binary call are terms if both are
  have hpair : ∀ {a : TermArena} {i j : Nat}, i < a.size → j < a.size → ∀ k ∈ [i, j], k < a.size :=
    fun hi hj => List.forall_mem_cons.mpr ⟨hi, List.forall_mem_singleton.mpr hj⟩
  induction h with
  | empty => exact .empty
  | var k _ ih => exact .call (.var k) ih (List.forall_mem_nil _)
  | const b _ ih => exact .call (.const b) ih (List.forall_mem_nil _)
  | not _ hi ih => exact .call (.not _) ih (List.forall_mem_singleton.mpr hi)
  | and _ hi hj ih => exact .call (.and _ _) ih (hpair hi hj)
  | or _ hi hj ih => exact .call (.or _ _) ih (hpair hi hj)
  | xor _ hi hj ih => exact .call (.xor _ _) ih (hpair hi hj)

/--
**Constructors are sound and never disturb earlier terms.**

The arena comes from any sequence of calls, and one more call is made. Every term that was
there stays where it was, with its value under every list of values. The position returned is
that of a term with the value the call asks for. And the value that the sweep finds for a term
is the recursive meaning of the term.
-/
theorem construction_exact {a : TermArena} (ha : Constructed a) {c : Construction} (hc : c.In a) :
    (∀ j, j < a.size →
      (c.run a).2.get? j = a.get? j ∧ ∀ s, (c.run a).2.eval j s = a.eval j s)
    ∧ (c.run a).1 < (c.run a).2.size
    ∧ (∀ s : List Bool, (c.run a).2.eval (c.run a).1 s
        = c.meaning (fun j => a.eval j s) fun k => s.getD k false)
    ∧ ∀ s i v, a.Means s i v ↔ i < a.size ∧ a.eval i s = v := by
  have hsound := c.sound ha.valid hc
  refine ⟨fun j hj => ⟨get?_retains hsound.toRetains hj, fun s => ?_⟩, hsound.result.1,
    fun s => ?_, ?_⟩
  · exact evalWith_retains hsound.toRetains _ j hj
  · exact hsound.result.2 _
  · exact fun s i v => means_iff ha.valid

/-- Two variables and the negation of the first. -/
def TermArena.opposed : TermArena :=
  ((Construction.not 0).run ((Construction.var 1).run ((Construction.var 0).run .empty).2).2).2

/-- The vote of two variables and the negation of the first is a new term, as valuable as the
second variable. -/
theorem construction_exact_majority : Constructed opposed
    ∧ (Construction.majority 0 1 2).In opposed
    ∧ ((Construction.majority 0 1 2).run opposed).2.get? 2 = some (.not 0)
    ∧ ∀ s : List Bool, ((Construction.majority 0 1 2).run opposed).2.eval
        ((Construction.majority 0 1 2).run opposed).1 s = s.getD 1 false := by
  have hmade : Constructed opposed :=
    .call (.not 0) (.call (.var 1) (.call (.var 0) .empty (by decide)) (by decide +kernel))
      (by decide +kernel)
  have hin : (Construction.majority 0 1 2).In opposed := by decide +kernel
  have hvar0 : opposed.get? 0 = some (.var 0) := by decide +kernel
  have hvar1 : opposed.get? 1 = some (.var 1) := by decide +kernel
  have hnot : opposed.get? 2 = some (.not 0) := by decide +kernel
  obtain ⟨hkept, _, hresult, hmeans⟩ := construction_exact hmade hin
  refine ⟨hmade, hin, (hkept 2 (by decide +kernel)).1.trans hnot, fun s => ?_⟩
  have hfirst : opposed.eval 0 s = s.getD 0 false := ((hmeans s 0 _).mp (.var hvar0)).2
  have hsecond : opposed.eval 1 s = s.getD 1 false := ((hmeans s 1 _).mp (.var hvar1)).2
  have hthird : opposed.eval 2 s = !s.getD 0 false :=
    ((hmeans s 2 _).mp (.not hnot (.var hvar0))).2
  rw [hresult s, Construction.meaning, hfirst, hsecond, hthird]
  cases s.getD 0 false <;> cases s.getD 1 false <;> rfl

end RuleWiring
