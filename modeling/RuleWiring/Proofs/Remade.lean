import Mathlib
import RuleWiring.Proofs.Repeated

/-!
# Terms are made once

What a constructor of terms does is decided by the terms at its operands: it gives back a term
that is there, or it looks for one and adds it if it is missing. Neither the terms at the operands
nor the place at which a term is found first ever change. So a constructor that is applied to the
same operands once more gives back the same term and leaves the arena as it is.
-/

namespace RuleWiring

namespace TermArena

variable {a c : TermArena} {i j : Nat}

/-! ## What does not change -/

/-- Terms are found the same once and for all. -/
theorem same_extends (h : Extends a c) (hi : i < a.size) (hj : j < a.size) :
    c.same i j = a.same i j := by
  have hvalues : ∀ n : Nat, ((c.values n.testBit).getD i false == (c.values n.testBit).getD j false)
      = ((a.values n.testBit).getD i false == (a.values n.testBit).getD j false) := fun n =>
    congrArg₂ (· == ·) (evalWith_retains h.toRetains n.testBit i hi)
      (evalWith_retains h.toRetains n.testBit j hj)
  simp only [same, equivalent?, h.vars, hvalues]

/-- A term is found at the first position that holds it. -/
theorem find?_eq_some_iff {t : Term} :
    a.find? t = some i ↔ a.get? i = some t ∧ ∀ k, k < i → a.get? k ≠ some t := by
  rw [find?, Array.findIdx?_eq_some_iff_getElem]
  constructor
  · rintro ⟨hi, ht, hfirst⟩
    refine ⟨?_, fun k hk hget => ?_⟩
    · rw [get?, Array.getElem?_eq_getElem hi, of_decide_eq_true ht]
    · obtain ⟨hlt, heq⟩ := Array.getElem?_eq_some_iff.mp hget
      exact hfirst k hk (decide_eq_true heq)
  · rintro ⟨hget, hfirst⟩
    obtain ⟨hi, ht⟩ := Array.getElem?_eq_some_iff.mp hget
    refine ⟨hi, decide_eq_true ht, fun k hk heq => hfirst k hk ?_⟩
    rw [get?, Array.getElem?_eq_getElem (Nat.lt_trans hk hi), of_decide_eq_true heq]

theorem find?_eq_none_iff {t : Term} : a.find? t = none ↔ ∀ k, a.get? k ≠ some t := by
  rw [find?, Array.findIdx?_eq_none_iff]
  constructor
  · intro h k hk
    exact of_decide_eq_false (h t (Array.mem_of_getElem? hk)) rfl
  · intro h u hu
    obtain ⟨k, hk⟩ := Array.mem_iff_getElem?.mp hu
    exact decide_eq_false fun heq => h k (heq ▸ hk)

theorem find?_extends (h : Extends a c) {t : Term} (hfind : a.find? t = some i) :
    c.find? t = some i := by
  obtain ⟨hget, hfirst⟩ := find?_eq_some_iff.mp hfind
  have hi := get?_isSome_iff.mp ⟨t, hget⟩
  refine find?_eq_some_iff.mpr ⟨h.keeps i t hget, fun k hk => ?_⟩
  rw [get?_retains h.toRetains (Nat.lt_trans hk hi)]
  exact hfirst k hk

/-- Where a term has been put, it is found. -/
theorem find?_intern (a : TermArena) (t : Term) :
    (intern t a).2.find? t = some (intern t a).1 := by
  unfold intern
  cases hfind : a.find? t with
  | some i => exact hfind
  | none =>
      have hold := find?_eq_none_iff.mp hfind
      refine find?_eq_some_iff.mpr ⟨(get?_push _).mpr (.inl ⟨rfl, rfl⟩), fun k hk hget => ?_⟩
      rcases (get?_push _).mp hget with ⟨hsize, _⟩ | hget
      · exact absurd hsize (Nat.ne_of_lt hk)
      · exact hold k hget

/-! ## What a constructor comes down to -/

/-- In an arena and all that extend it, a constructor looks for the same term or gives back the
same one. -/
def Settles (a : TermArena) (m : StateM TermArena Nat) : Prop :=
  (∃ t, ∀ c, Extends a c → m c = intern t c) ∨ ∃ i, ∀ c, Extends a c → m c = (i, c)

theorem settles_not (hi : i < a.size) : Settles a (mkNot i) := by
  obtain ⟨t, ht⟩ := get?_isSome_iff.mpr hi
  have hget : ∀ c, Extends a c → c.get? i = some t := fun c hc => hc.keeps i t ht
  cases t with
  | const b => exact .inl ⟨.const (!b), fun c hc => by rw [mkNot, hget c hc]⟩
  | not j => exact .inr ⟨j, fun c hc => by rw [mkNot, hget c hc]⟩
  | var _ | and _ _ | or _ _ | xor _ _ => exact .inl ⟨.not i, fun c hc => by rw [mkNot, hget c hc]⟩

/-- Conjunction and disjunction simplify alike. -/
theorem settles_simplified (hi : i < a.size) (hj : j < a.size) {z : Bool} {t : Term}
    {m : StateM TermArena Nat}
    (hm : ∀ c, m c = if c.const? i = some z ∨ c.const? j = some z then intern (.const z) c
      else if c.const? i = some (!z) then (j, c)
      else if c.const? j = some (!z) then (i, c)
      else if i = j then (i, c) else intern t c) : Settles a m := by
  have hsame : ∀ c, Extends a c → m c
      = if a.const? i = some z ∨ a.const? j = some z then intern (.const z) c
        else if a.const? i = some (!z) then (j, c)
        else if a.const? j = some (!z) then (i, c)
        else if i = j then (i, c) else intern t c := fun c hc => by
    rw [hm, const?_retains hc.toRetains hi, const?_retains hc.toRetains hj]
  by_cases hz : a.const? i = some z ∨ a.const? j = some z
  · exact .inl ⟨_, fun c hc => by rw [hsame c hc, if_pos hz]⟩
  by_cases hci : a.const? i = some (!z)
  · exact .inr ⟨_, fun c hc => by rw [hsame c hc, if_neg hz, if_pos hci]⟩
  by_cases hcj : a.const? j = some (!z)
  · exact .inr ⟨_, fun c hc => by rw [hsame c hc, if_neg hz, if_neg hci, if_pos hcj]⟩
  by_cases hij : i = j
  · exact .inr ⟨_, fun c hc => by rw [hsame c hc, if_neg hz, if_neg hci, if_neg hcj, if_pos hij]⟩
  · exact .inl ⟨_, fun c hc => by rw [hsame c hc, if_neg hz, if_neg hci, if_neg hcj, if_neg hij]⟩

theorem settles_and (hi : i < a.size) (hj : j < a.size) : Settles a (mkAnd i j) :=
  settles_simplified (z := false) hi hj fun _ => rfl

theorem settles_or (hi : i < a.size) (hj : j < a.size) : Settles a (mkOr i j) :=
  settles_simplified (z := true) hi hj fun _ => rfl

theorem settles_congr {m m' : StateM TermArena Nat} (h : ∀ c, Extends a c → m c = m' c)
    (hm : Settles a m') : Settles a m := by
  rcases hm with ⟨t, ht⟩ | ⟨i, hi⟩
  · exact .inl ⟨t, fun c hc => (h c hc).trans (ht c hc)⟩
  · exact .inr ⟨i, fun c hc => (h c hc).trans (hi c hc)⟩

theorem settles_xor (hi : i < a.size) (hj : j < a.size) :
    Settles a (mkXor i j) := by
  have hci : ∀ c, Extends a c → c.const? i = a.const? i :=
    fun c hc => const?_retains hc.toRetains hi
  have hcj : ∀ c, Extends a c → c.const? j = a.const? j :=
    fun c hc => const?_retains hc.toRetains hj
  cases hx : a.const? i with
  | some x =>
      cases hy : a.const? j with
      | some y =>
          exact .inl ⟨.const (x ^^ y), fun c hc => by rw [mkXor, hci c hc, hcj c hc, hx, hy]⟩
      | none =>
          cases x with
          | false => exact .inr ⟨j, fun c hc => by rw [mkXor, hci c hc, hcj c hc, hx, hy]⟩
          | true =>
              refine settles_congr (fun c hc => ?_) (settles_not hj)
              rw [mkXor, hci c hc, hcj c hc, hx, hy]
  | none =>
      cases hy : a.const? j with
      | some y =>
          cases y with
          | false => exact .inr ⟨i, fun c hc => by rw [mkXor, hci c hc, hcj c hc, hx, hy]⟩
          | true =>
              refine settles_congr (fun c hc => ?_) (settles_not hi)
              rw [mkXor, hci c hc, hcj c hc, hx, hy]
      | none =>
          have hboth : ∀ c, Extends a c → mkXor i j c
              = if i = j then intern (.const false) c
                else intern (.xor (min i j) (max i j)) c := fun c hc => by
            rw [mkXor, hci c hc, hcj c hc, hx, hy]
          by_cases hij : i = j
          · exact .inl ⟨_, fun c hc => by rw [hboth c hc, if_pos hij]⟩
          · exact .inl ⟨_, fun c hc => by rw [hboth c hc, if_neg hij]⟩

/-! ## The memory of terms -/

/-- Arenas grow by more terms. -/
def growth : Growth TermArena Nat where
  Grows := Extends
  Holds a i := i < a.size
  settled h := extends_refl h.valid
  trans := extends_trans
  keeps h hi := lt_of_extends h hi

/-- **What is made once is made again.** -/
theorem remakes_of_settles (ha : a.Valid) {m : StateM TermArena Nat} {f : (Nat → Bool) → Bool}
    (hm : Makes a m f) (h : Settles a m) : growth.Remakes a m := by
  obtain ⟨i, b, hrun, hab, hi⟩ := hm
  refine ⟨i, b, hrun, hab, hi.1, fun c hbc => ?_⟩
  have hac : Extends a c := extends_trans hab hbc
  rcases h with ⟨t, ht⟩ | ⟨k, hk⟩
  · -- the term is in `b` from now on, and in `c` it is found where it was found in `b`
    have hfind := find?_intern a t
    rw [← ht a (extends_refl ha), hrun] at hfind
    rw [ht c hac, intern, find?_extends hbc hfind]
  · have hold := hk a (extends_refl ha)
    rw [hrun] at hold
    cases hold
    exact hk c hac

/-- The terms of an arena. -/
def memory : Memory algebra where
  toGrowth := growth
  constant b h := remakes_of_settles h.valid (mkConst_makes h.valid b) (.inl ⟨_, fun _ _ => rfl⟩)
  not h hi := remakes_of_settles h.valid (mkNot_makes h.valid (denotes_self hi)) (settles_not hi)
  and h hi hj := remakes_of_settles h.valid
    (mkAnd_makes h.valid (denotes_self hi) (denotes_self hj)) (settles_and hi hj)
  or h hi hj := remakes_of_settles h.valid
    (mkOr_makes h.valid (denotes_self hi) (denotes_self hj)) (settles_or hi hj)
  xor h hi hj := remakes_of_settles h.valid
    (mkXor_makes h.valid (denotes_self hi) (denotes_self hj)) (settles_xor hi hj)
  same h hi hj hsame := (same_extends h hi hj).trans hsame

end TermArena

/-- Bits are not stored. -/
def bitMemory : Memory bits where
  Grows _ _ := True
  Holds _ _ := True
  settled _ := trivial
  trans _ _ := trivial
  keeps _ _ := trivial
  constant _ _ := ⟨_, _, rfl, trivial, trivial, fun _ _ => rfl⟩
  not _ _ := ⟨_, _, rfl, trivial, trivial, fun _ _ => rfl⟩
  and _ _ _ := ⟨_, _, rfl, trivial, trivial, fun _ _ => rfl⟩
  or _ _ _ := ⟨_, _, rfl, trivial, trivial, fun _ _ => rfl⟩
  xor _ _ _ := ⟨_, _, rfl, trivial, trivial, fun _ _ => rfl⟩
  same _ _ _ h := h

end RuleWiring
