import Mathlib
import RuleWiring.Proofs.Constructions
import RuleWiring.Proofs.Remade

/-!
# Terms are stored once

An arena looks for a term before it adds it, so it holds no term twice. The constructors only look
for terms that cannot be simplified any more: whatever they do with their operands, they give back a
term that is there, or look for one that is `Simplified`. That is all an arena needs to stay
`Canonical`.
-/

namespace RuleWiring

/-- No operand is a constant, no negation stands under a negation, and two operands are in
ascending order. -/
def Term.Simplified (a : TermArena) : Term → Prop
  | .const _ | .var _ => True
  | .not i => a.const? i = none ∧ ∀ j, a.get? i ≠ some (.not j)
  | .and i j | .or i j | .xor i j => a.const? i = none ∧ a.const? j = none ∧ i < j

namespace TermArena

/-- What the terms of an arena owe to each other. -/
structure Canonical (a : TermArena) : Prop extends Valid a where
  /-- No term is stored twice. -/
  once : ∀ i j t, a.get? i = some t → a.get? j = some t → i = j
  /-- No term can be simplified. -/
  simplified : ∀ i t, a.get? i = some t → t.Simplified a

theorem canonical_empty : Canonical empty :=
  ⟨valid_empty, by simp [empty, get?], by simp [empty, get?]⟩

/-- Terms at the operands stay, so what is simplified stays so. -/
theorem simplified_retains {a b : TermArena} (h : Retains a b) {t : Term} (ht : t.Below a.size)
    (hs : t.Simplified a) : t.Simplified b := by
  cases t with
  | const _ | var _ => trivial
  | not i => exact ⟨(const?_retains h ht).trans hs.1, fun j => get?_retains h ht ▸ hs.2 j⟩
  | and i j | or i j | xor i j =>
      exact ⟨(const?_retains h ht.1).trans hs.1, (const?_retains h ht.2).trans hs.2.1, hs.2.2⟩

/-! ## What keeps an arena canonical -/

/-- Run in arena `a`, a constructor extends it to a canonical one and gives back a term of that. -/
def Tidies (a : TermArena) (m : StateM TermArena Nat) : Prop :=
  ∃ i b, m a = (i, b) ∧ Extends a b ∧ b.Canonical ∧ i < b.size

section Constructors

variable {a : TermArena} {i j : Nat} {m : StateM TermArena Nat}

theorem Tidies.canonical (h : Tidies a m) : (m a).2.Canonical := by
  obtain ⟨i, b, hrun, _, hb, _⟩ := h
  rwa [hrun]

theorem tidies_old (ha : a.Canonical) (hm : m a = (i, a)) (hi : i < a.size) : Tidies a m :=
  ⟨i, a, hm, extends_refl ha.toValid, ha, hi⟩

theorem tidies_congr {m' : StateM TermArena Nat} (h : m a = m' a) (hm : Tidies a m') :
    Tidies a m := by
  obtain ⟨i, b, hrun, hrest⟩ := hm
  exact ⟨i, b, h.trans hrun, hrest⟩

/-- One constructor after the other. -/
theorem tidies_bind {k : Nat → StateM TermArena Nat} (hm : Tidies a m)
    (hk : ∀ i b, Extends a b → b.Canonical → i < b.size → Tidies b (k i)) :
    Tidies a (m >>= k) := by
  obtain ⟨i, b, hrun, hab, hb, hi⟩ := hm
  obtain ⟨j, c, hrun', hbc, hc, hj⟩ := hk i b hab hb hi
  refine ⟨j, c, ?_, extends_trans hab hbc, hc, hj⟩
  show (let p := m a; k p.1 p.2) = _
  rw [hrun, hrun']

/-- A simplified term that is not there may be added behind all others. -/
theorem canonical_push (ha : a.Canonical) {t : Term} (ht : t.Below a.size) (hs : t.Simplified a)
    (habsent : ∀ k, a.get? k ≠ some t) (hret : Retains a ⟨a.terms.push t, a.counter⟩) :
    Canonical ⟨a.terms.push t, a.counter⟩ := by
  refine ⟨hret.valid, fun k l u hk hl => ?_, fun k u hk => ?_⟩
  · -- of two places for one term, both are the new one or neither is
    rcases (get?_push _).mp hk with ⟨hknew, rfl⟩ | hkold
    · rcases (get?_push _).mp hl with ⟨hlnew, _⟩ | hlold
      · exact hknew.trans hlnew.symm
      · exact absurd hlold (habsent l)
    · rcases (get?_push _).mp hl with ⟨_, rfl⟩ | hlold
      · exact absurd hkold (habsent k)
      · exact ha.once k l u hkold hlold
  · rcases (get?_push _).mp hk with ⟨_, rfl⟩ | hkold
    · exact simplified_retains hret ht hs
    · have hbelow := (ha.operands k u hkold).mono (Nat.le_of_lt (get?_isSome_iff.mp ⟨u, hkold⟩))
      exact simplified_retains hret hbelow (ha.simplified k u hkold)

/-- **What is looked for is simplified**, so it may be added if it is not found. -/
theorem canonical_intern (ha : a.Canonical) {t : Term} (ht : t.Below a.size)
    (hs : t.Simplified a) : (intern t a).2.Canonical := by
  have hret := retains_intern ha.toValid ht
  cases hfind : a.find? t with
  | some k =>
      rw [intern, hfind]
      exact ha
  | none =>
      rw [intern, hfind] at hret ⊢
      exact canonical_push ha ht hs (find?_eq_none_iff.mp hfind) hret

theorem tidies_intern (ha : a.Canonical) {t : Term} (ht : t.Below a.size)
    (hv : t.VarBelow a.varCount) (hs : t.Simplified a) : Tidies a (intern t) := by
  obtain ⟨i, b, hrun, hext, hi⟩ := intern_makes ha.toValid ht hv fun _ => rfl
  have hcanonical := canonical_intern ha ht hs
  rw [hrun] at hcanonical
  exact ⟨i, b, hrun, hext, hcanonical, hi.1⟩

/-! ## What the constructors look for -/

theorem tidies_const (ha : a.Canonical) (b : Bool) : Tidies a (mkConst b) :=
  tidies_intern (t := .const b) ha trivial trivial trivial

theorem const?_eq_none {t : Term} (ht : a.get? i = some t) (h : ∀ b, t ≠ .const b) :
    a.const? i = none := by
  unfold const?
  split
  · rename_i b hb
    rw [ht] at hb
    exact absurd (Option.some.inj hb) (h b)
  · rfl

theorem tidies_not (ha : a.Canonical) (hi : i < a.size) : Tidies a (mkNot i) := by
  obtain ⟨t, ht⟩ := get?_isSome_iff.mpr hi
  cases t with
  | const b => exact tidies_congr (by rw [mkNot, ht]; rfl) (tidies_const ha (!b))
  | not j =>
      -- the operand is older than the negation it stands under
      have hj : j < i := ha.operands i _ ht
      exact tidies_old ha (by rw [mkNot, ht]) (Nat.lt_trans hj hi)
  | var _ | and _ _ | or _ _ | xor _ _ =>
      refine tidies_congr (by rw [mkNot, ht]) (tidies_intern (t := .not i) ha hi trivial ?_)
      exact ⟨const?_eq_none ht (by simp), fun j hj => by simp [ht] at hj⟩

/-- A new binary term, whose operands are different and are put in order. -/
theorem tidies_ordered (ha : a.Canonical) (hi : i < a.size) (hj : j < a.size) (hij : i ≠ j)
    (hci : a.const? i = none) (hcj : a.const? j = none) {make : Nat → Nat → Term}
    (hbelow : ∀ x y, x < a.size → y < a.size → (make x y).Below a.size)
    (hvar : ∀ x y, (make x y).VarBelow a.varCount)
    (hsimplified : ∀ x y, a.const? x = none → a.const? y = none → x < y →
      (make x y).Simplified a) : Tidies a (intern (make (min i j) (max i j))) := by
  rcases Nat.lt_or_gt_of_ne hij with h | h
  · rw [Nat.min_eq_left (Nat.le_of_lt h), Nat.max_eq_right (Nat.le_of_lt h)]
    exact tidies_intern ha (hbelow i j hi hj) (hvar i j) (hsimplified i j hci hcj h)
  · rw [Nat.min_eq_right (Nat.le_of_lt h), Nat.max_eq_left (Nat.le_of_lt h)]
    exact tidies_intern ha (hbelow j i hj hi) (hvar j i) (hsimplified j i hcj hci h)

/-- Conjunction and disjunction simplify alike: where no constant is left on either side, both have
been looked at. -/
theorem tidies_simplified (ha : a.Canonical) (hi : i < a.size) (hj : j < a.size) {z : Bool}
    {make : Nat → Nat → Term}
    (hm : m a = if a.const? i = some z ∨ a.const? j = some z then intern (.const z) a
      else if a.const? i = some (!z) then (j, a)
      else if a.const? j = some (!z) then (i, a)
      else if i = j then (i, a) else intern (make (min i j) (max i j)) a)
    (hbelow : ∀ x y, x < a.size → y < a.size → (make x y).Below a.size)
    (hvar : ∀ x y, (make x y).VarBelow a.varCount)
    (hsimplified : ∀ x y, a.const? x = none → a.const? y = none → x < y →
      (make x y).Simplified a) : Tidies a m := by
  by_cases hz : a.const? i = some z ∨ a.const? j = some z
  · exact tidies_congr (hm.trans (if_pos hz)) (tidies_const ha z)
  rw [if_neg hz] at hm
  by_cases hci : a.const? i = some (!z)
  · exact tidies_old ha (hm.trans (if_pos hci)) hj
  rw [if_neg hci] at hm
  by_cases hcj : a.const? j = some (!z)
  · exact tidies_old ha (hm.trans (if_pos hcj)) hi
  rw [if_neg hcj] at hm
  by_cases hij : i = j
  · exact tidies_old ha (hm.trans (if_pos hij)) hi
  have hnone : ∀ o : Option Bool, o ≠ some z → o ≠ some (!z) → o = none := by
    intro o
    cases o with
    | none => exact fun _ _ => rfl
    | some b => cases b <;> cases z <;> simp
  obtain ⟨hzi, hzj⟩ := not_or.mp hz
  exact tidies_congr (hm.trans (if_neg hij)) (tidies_ordered ha hi hj hij (hnone _ hzi hci)
    (hnone _ hzj hcj) hbelow hvar hsimplified)

theorem tidies_and (ha : a.Canonical) (hi : i < a.size) (hj : j < a.size) : Tidies a (mkAnd i j) :=
  tidies_simplified (z := false) ha hi hj rfl (fun _ _ hx hy => ⟨hx, hy⟩) (fun _ _ => trivial)
    fun _ _ hx hy hxy => ⟨hx, hy, hxy⟩

theorem tidies_or (ha : a.Canonical) (hi : i < a.size) (hj : j < a.size) : Tidies a (mkOr i j) :=
  tidies_simplified (z := true) ha hi hj rfl (fun _ _ hx hy => ⟨hx, hy⟩) (fun _ _ => trivial)
    fun _ _ hx hy hxy => ⟨hx, hy, hxy⟩

theorem tidies_xor (ha : a.Canonical) (hi : i < a.size) (hj : j < a.size) :
    Tidies a (mkXor i j) := by
  cases hci : a.const? i with
  | some x =>
      cases hcj : a.const? j with
      | some y => exact tidies_congr (by rw [mkXor, hci, hcj]; rfl) (tidies_const ha (x ^^ y))
      | none =>
          cases x with
          | false => exact tidies_old ha (by rw [mkXor, hci, hcj]) hj
          | true => exact tidies_congr (by rw [mkXor, hci, hcj]) (tidies_not ha hj)
  | none =>
      cases hcj : a.const? j with
      | some y =>
          cases y with
          | false => exact tidies_old ha (by rw [mkXor, hci, hcj]) hi
          | true => exact tidies_congr (by rw [mkXor, hci, hcj]) (tidies_not ha hi)
      | none =>
          have hm : mkXor i j a = if i = j then intern (.const false) a
              else intern (.xor (min i j) (max i j)) a := by rw [mkXor, hci, hcj]
          by_cases hij : i = j
          · exact tidies_congr (hm.trans (if_pos hij)) (tidies_const ha false)
          · exact tidies_congr (hm.trans (if_neg hij)) (tidies_ordered ha hi hj hij hci hcj
              (fun _ _ hx hy => ⟨hx, hy⟩) (fun _ _ => trivial)
              fun _ _ hx hy hxy => ⟨hx, hy, hxy⟩)

theorem tidies_majority (ha : a.Canonical) {k : Nat} (hi : i < a.size) (hj : j < a.size)
    (hk : k < a.size) : Tidies a (algebra.majority i j k) := by
  refine tidies_bind (tidies_and ha hi hj) fun x b hb hcb hx => ?_
  refine tidies_bind (tidies_and hcb (lt_of_extends hb hj) (lt_of_extends hb hk))
    fun y c hc hcc hy => ?_
  have hac := extends_trans hb hc
  refine tidies_bind (tidies_and hcc (lt_of_extends hac hi) (lt_of_extends hac hk))
    fun z d hd hcd hz => ?_
  refine tidies_bind (tidies_or hcd (lt_of_extends (extends_trans hc hd) hx) (lt_of_extends hd hy))
    fun w e he hce hw => ?_
  exact tidies_or hce hw (lt_of_extends he hz)

/-- The counter is no matter of the terms. -/
theorem canonical_var (ha : a.Canonical) (k : UInt8) : (TermArena.var k a).2.Canonical :=
  canonical_intern ⟨valid_covering ha.toValid k, ha.once, ha.simplified⟩ trivial trivial

end Constructors

end TermArena

end RuleWiring
