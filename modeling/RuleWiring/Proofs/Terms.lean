import Mathlib
import RuleWiring.Term.Arena

/-!
# What terms mean

A term of an arena stands for a Boolean function of the variables. Operands are older than
the terms they belong to, so the values can be found in one sweep, and everything that adds
terms keeps this. If besides the variables are below the bound of the arena, then finitely many
assignments decide whether two terms agree. This is kept by all calls but one for the last
variable of all, for which the counter has no room.

The constructors simplify, and may give back a term that has been there before. What they
promise is therefore not what they store, but what the term they return stands for, and that
no earlier term changes: `Makes`.
-/

namespace RuleWiring

/-- Every operand stands before position `n`. -/
def Term.Below (n : Nat) : Term → Prop
  | .const _ | .var _ => True
  | .not a => a < n
  | .and a b | .or a b | .xor a b => a < n ∧ b < n

/-- Every variable is one of the first `v`. -/
def Term.VarBelow (v : Nat) : Term → Prop
  | .var k => k < v
  | _ => True

theorem Term.Below.mono {m n : Nat} {t : Term} (h : t.Below m) (hmn : m ≤ n) : t.Below n := by
  cases t with
  | const b => trivial
  | var k => trivial
  | not a => exact Nat.lt_of_lt_of_le h hmn
  | and a b => exact ⟨Nat.lt_of_lt_of_le h.1 hmn, Nat.lt_of_lt_of_le h.2 hmn⟩
  | or a b => exact ⟨Nat.lt_of_lt_of_le h.1 hmn, Nat.lt_of_lt_of_le h.2 hmn⟩
  | xor a b => exact ⟨Nat.lt_of_lt_of_le h.1 hmn, Nat.lt_of_lt_of_le h.2 hmn⟩

/-- A term's value depends on those of its operands. -/
theorem Term.value_congr {n : Nat} {t : Term} (h : t.Below n) {vs ws : Array Bool}
    {s : Nat → Bool} (hget : ∀ i, i < n → vs.getD i false = ws.getD i false) :
    t.value vs s = t.value ws s := by
  cases t with
  | const b => rfl
  | var k => rfl
  | not a => rw [Term.value, Term.value, hget a h]
  | and a b => rw [Term.value, Term.value, hget a h.1, hget b h.2]
  | or a b => rw [Term.value, Term.value, hget a h.1, hget b h.2]
  | xor a b => rw [Term.value, Term.value, hget a h.1, hget b h.2]

theorem getD_push_of_lt {vs : Array Bool} {i : Nat} (h : i < vs.size) (w : Bool) :
    (vs.push w).getD i false = vs.getD i false := by
  have h' : i < (vs.push w).size := by rw [Array.size_push]; omega
  rw [← Array.getElem_eq_getD false (h := h'), Array.getElem_push_lt h, Array.getElem_eq_getD false]

/-- The values of the first `n` variables can be spelled by a number. -/
theorem exists_number (n : Nat) (s : Nat → Bool) :
    ∃ m, m < Nat.pow 2 n ∧ ∀ k, k < n → m.testBit k = s k := by
  refine ⟨Nat.ofBits fun k : Fin n => s k, Nat.ofBits_lt_two_pow _, fun k hk => ?_⟩
  rw [Nat.testBit_ofBits_lt _ k hk]

namespace TermArena

/-! ## One sweep evaluates all -/

/-- The values of some terms, each found from those before it. -/
def sweepValues (ts : List Term) (s : Nat → Bool) : Array Bool :=
  ts.foldl (fun vs t => vs.push (t.value vs s)) #[]

theorem values_eq (a : TermArena) (s : Nat → Bool) : a.values s = sweepValues a.terms.toList s := by
  rw [values, sweepValues, Array.foldl_toList]

theorem sweepValues_snoc (ts : List Term) (t : Term) (s : Nat → Bool) :
    sweepValues (ts ++ [t]) s = (sweepValues ts s).push (t.value (sweepValues ts s) s) := by
  rw [sweepValues, List.foldl_append]
  rfl

theorem size_sweepValues (ts : List Term) (s : Nat → Bool) :
    (sweepValues ts s).size = ts.length := by
  induction ts using List.reverseRecOn with
  | nil => rfl
  | append_singleton ts t ih => rw [sweepValues_snoc, Array.size_push, ih, List.length_append]; rfl

/-- The value found for a term is the one it has under the values found for all terms. -/
theorem sweepValues_getD (s : Nat → Bool) (ts : List Term) {i : Nat} {t : Term}
    (h : ts[i]? = some t) (ht : t.Below i) :
    (sweepValues ts s).getD i false = t.value (sweepValues ts s) s := by
  induction ts using List.reverseRecOn with
  | nil => exact absurd h (by simp)
  | append_singleton ts u ih =>
      have hsize := size_sweepValues ts s
      -- what is pushed last is no operand of a term that stands before it, or of itself
      have hold : ∀ i, i < ts.length → (sweepValues (ts ++ [u]) s).getD i false
          = (sweepValues ts s).getD i false := by
        intro i hi
        rw [sweepValues_snoc]
        exact getD_push_of_lt (hsize ▸ hi) _
      rcases Nat.lt_trichotomy i ts.length with hi | hi | hi
      · -- an older term: neither it nor its operands have changed
        rw [List.getElem?_append_left hi] at h
        rw [hold i hi, ih h]
        exact (Term.value_congr (ht.mono (Nat.le_of_lt hi)) hold).symm
      · -- the new term: its operands are all older
        subst hi
        rw [List.getElem?_concat_length] at h
        cases h
        rw [Term.value_congr ht hold, sweepValues_snoc, ← hsize]
        simp [Array.getD]
      · rw [List.getElem?_eq_none (by rw [List.length_append]; exact hi)] at h
        exact absurd h (by simp)

/-- **The equation of a term.** Its value follows from those of its operands. -/
theorem evalWith_eq {a : TermArena} {i : Nat} {t : Term} (h : a.get? i = some t)
    (ht : t.Below i) (s : Nat → Bool) : a.evalWith i s = t.value (a.values s) s := by
  rw [evalWith, values_eq]
  refine sweepValues_getD s _ ?_ ht
  rwa [get?, ← Array.getElem?_toList] at h

/-! ## Arenas -/

/-- What holds of every arena that was made by the constructors. -/
structure Valid (a : TermArena) : Prop where
  /-- Operands are older than the terms they belong to. -/
  operands : ∀ i t, a.get? i = some t → t.Below i

theorem valid_empty : Valid empty := ⟨by simp [empty, get?]⟩

/-- Variables are below the bound. -/
def Bounded (a : TermArena) : Prop := ∀ i t, a.get? i = some t → t.VarBelow a.varCount

theorem bounded_empty : Bounded empty := by simp [Bounded, empty, get?]

theorem get?_isSome_iff {a : TermArena} {i : Nat} : (∃ t, a.get? i = some t) ↔ i < a.size := by
  rw [get?, size]
  constructor
  · rintro ⟨t, h⟩
    exact (Array.getElem?_eq_some_iff.mp h).1
  · intro h
    exact ⟨a.terms[i], Array.getElem?_eq_getElem h⟩

theorem mem_terms_iff {a : TermArena} {t : Term} : t ∈ a.terms ↔ ∃ i, a.get? i = some t :=
  Array.mem_iff_getElem?

/-- The term at a position stands for a function of the variables. -/
def Denotes (a : TermArena) (i : Nat) (f : (Nat → Bool) → Bool) : Prop :=
  i < a.size ∧ ∀ s, a.evalWith i s = f s

theorem denotes_self {a : TermArena} {i : Nat} (h : i < a.size) :
    a.Denotes i (a.evalWith i) := ⟨h, fun _ => rfl⟩

theorem denotes_of_get? {a : TermArena} (ha : a.Valid) {i : Nat} {t : Term}
    (h : a.get? i = some t) : a.Denotes i (fun s => t.value (a.values s) s) :=
  ⟨get?_isSome_iff.mp ⟨t, h⟩, evalWith_eq h (ha.operands i t h)⟩

/-- A valid arena that holds every term of another one where it was. -/
structure Retains (a b : TermArena) : Prop where
  valid : b.Valid
  keeps : ∀ i t, a.get? i = some t → b.get? i = some t

/-- Besides, the bound is as it was, and nothing new is beyond it. -/
structure Extends (a b : TermArena) : Prop extends Retains a b where
  vars : b.varCount = a.varCount
  bounded : a.Bounded → b.Bounded

theorem retains_trans {a b c : TermArena} (h1 : Retains a b) (h2 : Retains b c) : Retains a c :=
  ⟨h2.valid, fun i t h => h2.keeps i t (h1.keeps i t h)⟩

theorem extends_refl {a : TermArena} (ha : a.Valid) : Extends a a :=
  ⟨⟨ha, fun _ _ h => h⟩, rfl, id⟩

theorem extends_trans {a b c : TermArena} (h1 : Extends a b) (h2 : Extends b c) : Extends a c :=
  ⟨retains_trans h1.toRetains h2.toRetains, h2.vars.trans h1.vars, h2.bounded ∘ h1.bounded⟩

theorem get?_retains {a b : TermArena} (h : Retains a b) {i : Nat} (hi : i < a.size) :
    b.get? i = a.get? i := by
  obtain ⟨t, ht⟩ := get?_isSome_iff.mpr hi
  rw [ht, h.keeps i t ht]

theorem const?_retains {a b : TermArena} (h : Retains a b) {i : Nat} (hi : i < a.size) :
    b.const? i = a.const? i := by
  rw [const?, const?, get?_retains h hi]

theorem lt_of_extends {a b : TermArena} (h : Extends a b) {i : Nat} (hi : i < a.size) :
    i < b.size := by
  obtain ⟨t, ht⟩ := get?_isSome_iff.mpr hi
  exact get?_isSome_iff.mp ⟨t, h.keeps i t ht⟩

/-- **Earlier terms keep their values**: an operand's value is kept, so the term's is. -/
theorem evalWith_retains {a b : TermArena} (h : Retains a b) (s : Nat → Bool) (i : Nat)
    (hi : i < a.size) : b.evalWith i s = a.evalWith i s := by
  induction i using Nat.strongRecOn with
  | ind i ih =>
    obtain ⟨t, ht⟩ := get?_isSome_iff.mpr hi
    -- both arenas give the term its equation, and the operands have smaller positions
    have hbelow := h.valid.operands i t (h.keeps i t ht)
    rw [evalWith_eq ht hbelow, evalWith_eq (h.keeps i t ht) hbelow]
    exact Term.value_congr hbelow fun j hj => ih j hj (Nat.lt_trans hj hi)

theorem denotes_extends {a b : TermArena} (h : Extends a b) {i : Nat} {f : (Nat → Bool) → Bool}
    (hi : a.Denotes i f) : b.Denotes i f :=
  ⟨lt_of_extends h hi.1, fun s => (evalWith_retains h.toRetains s i hi.1).trans (hi.2 s)⟩

/-! ## Making terms -/

/-- Run in an arena, a constructor extends it and returns a term that stands for `f`. -/
def Makes (a : TermArena) (m : StateM TermArena Nat) (f : (Nat → Bool) → Bool) : Prop :=
  ∃ i b, m a = (i, b) ∧ Extends a b ∧ b.Denotes i f

/-- A constructor may give back a term that is there already. -/
theorem makes_old {a : TermArena} (ha : a.Valid) {m : StateM TermArena Nat} {i : Nat}
    {f : (Nat → Bool) → Bool} (hm : m a = (i, a)) (hi : i < a.size)
    (hf : ∀ s, a.evalWith i s = f s) : Makes a m f :=
  ⟨i, a, hm, extends_refl ha, hi, hf⟩

theorem makes_congr {a : TermArena} {m : StateM TermArena Nat} {f g : (Nat → Bool) → Bool}
    (h : Makes a m f) (hfg : ∀ s, f s = g s) : Makes a m g := by
  rwa [← funext hfg]

/-- One constructor after the other. -/
theorem makes_bind {a : TermArena} {m : StateM TermArena Nat} {k : Nat → StateM TermArena Nat}
    {f g : (Nat → Bool) → Bool} (hm : Makes a m f)
    (hk : ∀ i b, Extends a b → b.Denotes i f → Makes b (k i) g) : Makes a (m >>= k) g := by
  obtain ⟨i, b, hrun, hab, hi⟩ := hm
  obtain ⟨j, c, hrun', hbc, hj⟩ := hk i b hab hi
  refine ⟨j, c, ?_, extends_trans hab hbc, hj⟩
  show (m >>= k) a = (j, c)
  rw [← hrun']
  show (let p := m a; k p.1 p.2) = _
  rw [hrun]

theorem get?_push {a : TermArena} {t u : Term} {i : Nat} (n : UInt8) :
    (TermArena.mk (a.terms.push t) n).get? i = some u ↔
      (i = a.size ∧ t = u) ∨ a.get? i = some u := by
  rw [get?, get?, size, Array.getElem?_push]
  split
  · rename_i h
    subst h
    simp
  · rename_i h
    simp [h]

section Intern

variable {a : TermArena} {t : Term}

/-- A term is there already, or it is added behind all others. -/
theorem intern_cases (a : TermArena) (t : Term) :
    (∃ i, intern t a = (i, a) ∧ a.get? i = some t)
      ∨ intern t a = (a.size, { a with terms := a.terms.push t }) := by
  cases hfind : a.find? t with
  | some i =>
      obtain ⟨h, hp, _⟩ := Array.findIdx?_eq_some_iff_getElem.mp hfind
      refine Or.inl ⟨i, by rw [intern, hfind], ?_⟩
      rw [get?, Array.getElem?_eq_getElem h, of_decide_eq_true hp]
  | none => exact Or.inr (by rw [intern, hfind])

/-- Behind the terms that were there may stand the one that was looked for. -/
theorem get?_intern {i : Nat} {u : Term} (h : (intern t a).2.get? i = some u) :
    (i = a.size ∧ t = u) ∨ a.get? i = some u := by
  rcases intern_cases a t with ⟨j, hrun, _⟩ | hrun
  · rw [hrun] at h
    exact Or.inr h
  · rw [hrun] at h
    exact (get?_push _).mp h

theorem get?_intern_self (a : TermArena) (t : Term) :
    (intern t a).2.get? (intern t a).1 = some t := by
  rcases intern_cases a t with ⟨i, hrun, hi⟩ | hrun
  · rw [hrun]
    exact hi
  · rw [hrun]
    exact (get?_push _).mpr (Or.inl ⟨rfl, rfl⟩)

theorem varCount_intern (a : TermArena) (t : Term) : (intern t a).2.varCount = a.varCount := by
  rcases intern_cases a t with ⟨i, hrun, _⟩ | hrun
  · rw [hrun]
  · rw [hrun]
    rfl

theorem retains_intern (ha : a.Valid) (ht : t.Below a.size) : Retains a (intern t a).2 := by
  refine ⟨⟨fun i u h => ?_⟩, fun i u h => ?_⟩
  · rcases get?_intern h with ⟨rfl, rfl⟩ | h
    · exact ht
    · exact ha.operands i u h
  · rcases intern_cases a t with ⟨_, hrun, _⟩ | hrun
    · rw [hrun]
      exact h
    · rw [hrun]
      exact (get?_push _).mpr (Or.inr h)

/-- Wherever a term is found, its equation says what it stands for. -/
theorem denotes_intern (ha : a.Valid) (ht : t.Below a.size) :
    (intern t a).2.Denotes (intern t a).1 fun s => t.value (a.values s) s := by
  have hret := retains_intern ha ht
  have hden := denotes_of_get? hret.valid (get?_intern_self a t)
  refine ⟨hden.1, fun s => (hden.2 s).trans (Term.value_congr ht fun i hi => ?_)⟩
  exact evalWith_retains hret s i hi

theorem bounded_intern (ha : a.Bounded) (hv : t.VarBelow a.varCount) :
    (intern t a).2.Bounded := by
  intro i u h
  rw [varCount_intern]
  rcases get?_intern h with ⟨_, rfl⟩ | h
  · exact hv
  · exact ha i u h

theorem intern_makes (ha : a.Valid) (ht : t.Below a.size) (hv : t.VarBelow a.varCount)
    {f : (Nat → Bool) → Bool} (hf : ∀ s, t.value (a.values s) s = f s) :
    Makes a (intern t) f := by
  have hext : Extends a (intern t a).2 :=
    ⟨retains_intern ha ht, varCount_intern a t, fun hb => bounded_intern hb hv⟩
  have hden := denotes_intern ha ht
  exact ⟨_, _, rfl, hext, hden.1, fun s => (hden.2 s).trans (hf s)⟩

end Intern

/-! ## What each constructor makes -/

section Constructors

variable {a : TermArena} {i j : Nat} {f g : (Nat → Bool) → Bool}

theorem mkConst_makes (ha : a.Valid) (b : Bool) : Makes a (mkConst b) (fun _ => b) :=
  intern_makes (t := .const b) ha trivial trivial fun _ => rfl

/-- A term that is a constant stands for it. -/
theorem denotes_const (hi : a.Denotes i f) {b : Bool} (h : a.const? i = some b) (s : Nat → Bool) :
    f s = b := by
  unfold const? at h
  split at h
  · rename_i c hget
    injection h with h
    rw [← hi.2 s, evalWith_eq hget trivial, Term.value, h]
  · exact absurd h (by simp)

theorem mkNot_makes (ha : a.Valid) (hi : a.Denotes i f) : Makes a (mkNot i) (fun s => !f s) := by
  have hfresh : Makes a (intern (.not i)) (fun s => !f s) :=
    intern_makes (t := .not i) ha hi.1 trivial fun s => congrArg not (hi.2 s)
  obtain ⟨t, ht⟩ := get?_isSome_iff.mpr hi.1
  cases t with
  | const b =>
      have hb : ∀ s, f s = b := denotes_const hi (by rw [const?, ht])
      have hconst : Makes a (intern (.const (!b))) (fun s => !f s) :=
        intern_makes (t := .const (!b)) ha trivial trivial fun s => by rw [hb s]; rfl
      rwa [Makes, show mkNot i a = intern (.const (!b)) a by rw [mkNot, ht]]
  | not k =>
      -- the operand of the negation is older, so it is there
      have hk : k < i := ha.operands i _ ht
      refine makes_old ha (show mkNot i a = (k, a) by rw [mkNot, ht])
        (Nat.lt_trans hk hi.1) fun s => ?_
      rw [← hi.2 s, evalWith_eq ht hk, Term.value, Bool.not_not]
      rfl
  | var _ | and _ _ | or _ _ | xor _ _ =>
      rwa [Makes, show mkNot i a = intern (.not i) a by rw [mkNot, ht]]

/-- A new binary term, whose operands are put in order; the operation does not mind. -/
theorem intern_ordered_makes (ha : a.Valid) (hi : a.Denotes i f) (hj : a.Denotes j g)
    {make : Nat → Nat → Term} {op : Bool → Bool → Bool} (hcomm : ∀ x y, op x y = op y x)
    (hbelow : ∀ x y, x < a.size → y < a.size → (make x y).Below a.size)
    (hvar : ∀ x y, (make x y).VarBelow a.varCount)
    (hvalue : ∀ x y s, (make x y).value (a.values s) s = op (a.evalWith x s) (a.evalWith y s)) :
    Makes a (intern (make (min i j) (max i j))) (fun s => op (f s) (g s)) := by
  rcases Nat.le_total i j with h | h
  · rw [Nat.min_eq_left h, Nat.max_eq_right h]
    refine intern_makes ha (hbelow i j hi.1 hj.1) (hvar i j) fun s => ?_
    rw [hvalue, hi.2, hj.2]
  · rw [Nat.min_eq_right h, Nat.max_eq_left h]
    refine intern_makes ha (hbelow j i hj.1 hi.1) (hvar j i) fun s => ?_
    rw [hvalue, hi.2, hj.2, hcomm]

/--
Conjunction and disjunction simplify alike. One constant, `z`, decides the outcome on
whichever side it stands; the other one leaves the other side as it is.
-/
theorem simplified_makes (ha : a.Valid) (hi : a.Denotes i f) (hj : a.Denotes j g) {z : Bool}
    {make : Nat → Nat → Term} {op : Bool → Bool → Bool} {m : StateM TermArena Nat}
    (hm : m a = if a.const? i = some z ∨ a.const? j = some z then intern (.const z) a
      else if a.const? i = some (!z) then (j, a)
      else if a.const? j = some (!z) then (i, a)
      else if i = j then (i, a) else intern (make (min i j) (max i j)) a)
    (hdecides : ∀ x, op z x = z) (hneutral : ∀ x, op (!z) x = x) (hself : ∀ x, op x x = x)
    (hcomm : ∀ x y, op x y = op y x)
    (hbelow : ∀ x y, x < a.size → y < a.size → (make x y).Below a.size)
    (hvar : ∀ x y, (make x y).VarBelow a.varCount)
    (hvalue : ∀ x y s, (make x y).value (a.values s) s = op (a.evalWith x s) (a.evalWith y s)) :
    Makes a m (fun s => op (f s) (g s)) := by
  by_cases hz : a.const? i = some z ∨ a.const? j = some z
  · -- the deciding constant stands on one of the sides
    rw [if_pos hz] at hm
    rw [Makes, hm]
    refine intern_makes (t := .const z) ha trivial trivial fun s => ?_
    rcases hz with h | h
    · rw [denotes_const hi h s, hdecides]; rfl
    · rw [denotes_const hj h s, hcomm, hdecides]; rfl
  rw [if_neg hz] at hm
  -- the other constant stands on the left, or on the right
  by_cases hci : a.const? i = some (!z)
  · rw [if_pos hci] at hm
    refine makes_old ha hm hj.1 fun s => ?_
    rw [denotes_const hi hci s, hj.2, hneutral]
  rw [if_neg hci] at hm
  by_cases hcj : a.const? j = some (!z)
  · rw [if_pos hcj] at hm
    refine makes_old ha hm hi.1 fun s => ?_
    rw [denotes_const hj hcj s, hi.2, hcomm, hneutral]
  rw [if_neg hcj] at hm
  -- no constant is left; two equal sides make nothing new
  by_cases hij : i = j
  · rw [if_pos hij] at hm
    subst hij
    refine makes_old ha hm hi.1 fun s => ?_
    rw [← hi.2, ← hj.2, hself]
  · rw [if_neg hij] at hm
    rw [Makes, hm]
    exact intern_ordered_makes ha hi hj hcomm hbelow hvar hvalue

theorem mkAnd_makes (ha : a.Valid) (hi : a.Denotes i f) (hj : a.Denotes j g) :
    Makes a (mkAnd i j) (fun s => f s && g s) :=
  simplified_makes (z := false) ha hi hj rfl Bool.false_and Bool.true_and Bool.and_self
    Bool.and_comm (fun _ _ hx hy => ⟨hx, hy⟩) (fun _ _ => trivial) (fun _ _ _ => rfl)

theorem mkOr_makes (ha : a.Valid) (hi : a.Denotes i f) (hj : a.Denotes j g) :
    Makes a (mkOr i j) (fun s => f s || g s) :=
  simplified_makes (z := true) ha hi hj rfl Bool.true_or Bool.false_or Bool.or_self
    Bool.or_comm (fun _ _ hx hy => ⟨hx, hy⟩) (fun _ _ => trivial) (fun _ _ _ => rfl)

theorem mkXor_makes (ha : a.Valid) (hi : a.Denotes i f) (hj : a.Denotes j g) :
    Makes a (mkXor i j) (fun s => f s ^^ g s) := by
  cases hci : a.const? i with
  | some x =>
      have hx := denotes_const hi hci
      cases hcj : a.const? j with
      | some y =>
          rw [Makes, show mkXor i j a = intern (.const (x ^^ y)) a by rw [mkXor, hci, hcj]]
          refine intern_makes (t := .const (x ^^ y)) ha trivial trivial fun s => ?_
          rw [hx s, denotes_const hj hcj s]
          rfl
      | none =>
          cases x with
          | false =>
              refine makes_old ha (by rw [mkXor, hci, hcj]) hj.1 fun s => ?_
              rw [hx s, hj.2, Bool.false_xor]
          | true =>
              -- adding one negates
              rw [Makes, show mkXor i j a = mkNot j a by rw [mkXor, hci, hcj]]
              exact makes_congr (mkNot_makes ha hj) fun s => by rw [hx s, Bool.true_xor]
  | none =>
      cases hcj : a.const? j with
      | some y =>
          have hy := denotes_const hj hcj
          cases y with
          | false =>
              refine makes_old ha (by rw [mkXor, hci, hcj]) hi.1 fun s => ?_
              rw [hy s, hi.2, Bool.xor_false]
          | true =>
              rw [Makes, show mkXor i j a = mkNot i a by rw [mkXor, hci, hcj]]
              exact makes_congr (mkNot_makes ha hi) fun s => by rw [hy s, Bool.xor_true]
      | none =>
          by_cases hij : i = j
          · subst hij
            rw [Makes, show mkXor i i a = intern (.const false) a by
              rw [mkXor, hci]; exact if_pos rfl]
            refine intern_makes (t := .const false) ha trivial trivial fun s => ?_
            rw [← hi.2, ← hj.2, Bool.xor_self]
            rfl
          · rw [Makes, show mkXor i j a = intern (.xor (min i j) (max i j)) a by
              rw [mkXor, hci, hcj]; exact if_neg hij]
            exact intern_ordered_makes ha hi hj Bool.xor_comm (fun _ _ hx hy => ⟨hx, hy⟩)
              (fun _ _ => trivial) (fun _ _ _ => rfl)

theorem majority_makes (ha : a.Valid) {k : Nat} {h : (Nat → Bool) → Bool} (hi : a.Denotes i f)
    (hj : a.Denotes j g) (hk : a.Denotes k h) : Makes a (algebra.majority i j k)
      (fun s => ((f s && g s) || (g s && h s)) || (f s && h s)) := by
  refine makes_bind (mkAnd_makes ha hi hj) fun x b hb hx => ?_
  refine makes_bind (mkAnd_makes hb.valid (denotes_extends hb hj) (denotes_extends hb hk))
    fun y c hc hy => ?_
  have hac := extends_trans hb hc
  refine makes_bind (mkAnd_makes hc.valid (denotes_extends hac hi) (denotes_extends hac hk))
    fun z d hd hz => ?_
  refine makes_bind (mkOr_makes hd.valid (denotes_extends (extends_trans hc hd) hx)
    (denotes_extends hd hy)) fun w e he hw => ?_
  exact mkOr_makes he.valid hw (denotes_extends he hz)

end Constructors

/-! ## Variables -/

section Variables

variable {a : TermArena}

/-- A byte that is full wraps, so the last variable leaves the bound where it is. -/
theorem varCount_covering (a : TermArena) (k : UInt8) : (a.covering k).varCount
    = if k = 255 then a.varCount else max a.varCount (k.toNat + 1) := by
  show (max a.counter (k + 1)).toNat = _
  rw [UInt8.toNat_max]
  by_cases hk : k = 255
  · rw [if_pos hk, hk]
    exact Nat.max_eq_left (Nat.zero_le _)
  · have hne : k.toNat ≠ 255 := fun h => hk (UInt8.toNat_inj.mp h)
    have hlt : k.toNat + 1 < 256 := by
      have := k.toNat_lt
      omega
    rw [if_neg hk, UInt8.toNat_add]
    exact congrArg (max a.varCount) (Nat.mod_eq_of_lt hlt)

theorem varCount_var (a : TermArena) (k : UInt8) : (var k a).2.varCount
    = if k = 255 then a.varCount else max a.varCount (k.toNat + 1) :=
  (varCount_intern _ _).trans (varCount_covering a k)

/-- The counter is no matter of the terms. -/
theorem valid_covering (ha : a.Valid) (k : UInt8) : (a.covering k).Valid := ⟨ha.operands⟩

theorem retains_var (ha : a.Valid) (k : UInt8) : Retains a (var k a).2 :=
  retains_trans ⟨valid_covering ha k, fun _ _ h => h⟩
    (retains_intern (valid_covering ha k) trivial)

theorem denotes_var (ha : a.Valid) (k : UInt8) :
    (var k a).2.Denotes (var k a).1 fun s => s k.toNat :=
  denotes_intern (valid_covering ha k) trivial

/-- A variable that is not the last one is below the bound once the counter covers it. -/
theorem bounded_var (ha : a.Bounded) {k : UInt8} (hk : k ≠ 255) : (var k a).2.Bounded := by
  have hcount : (a.covering k).varCount = max a.varCount (k.toNat + 1) :=
    (varCount_covering a k).trans (if_neg hk)
  refine bounded_intern (fun i t h => ?_) ?_
  · have hold := ha i t h
    rw [hcount]
    cases t with
    | var l => exact Nat.lt_of_lt_of_le hold (Nat.le_max_left ..)
    | const _ | not _ | and _ _ | or _ _ | xor _ _ => trivial
  · rw [hcount]
    exact Nat.lt_of_lt_of_le (Nat.lt_succ_self _) (Nat.le_max_right ..)

end Variables

/-! ## Every arena that can be made -/

/-- The arenas made by the constructors, each applied to terms of the arena. -/
inductive Reachable : TermArena → Prop where
  | empty : Reachable empty
  | var {a : TermArena} (k : UInt8) : Reachable a → Reachable (TermArena.var k a).2
  | const {a : TermArena} (b : Bool) : Reachable a → Reachable (mkConst b a).2
  | not {a : TermArena} {i : Nat} : Reachable a → i < a.size → Reachable (mkNot i a).2
  | and {a : TermArena} {i j : Nat} : Reachable a → i < a.size → j < a.size →
      Reachable (mkAnd i j a).2
  | or {a : TermArena} {i j : Nat} : Reachable a → i < a.size → j < a.size →
      Reachable (mkOr i j a).2
  | xor {a : TermArena} {i j : Nat} : Reachable a → i < a.size → j < a.size →
      Reachable (mkXor i j a).2

theorem makes_valid {a : TermArena} {m : StateM TermArena Nat} {f : (Nat → Bool) → Bool}
    (h : Makes a m f) : (m a).2.Valid := by
  obtain ⟨i, b, hrun, hb, _⟩ := h
  rw [hrun]
  exact hb.valid

theorem valid_reachable {a : TermArena} (h : Reachable a) : a.Valid := by
  induction h with
  | empty => exact valid_empty
  | var k _ ih => exact (retains_var ih k).valid
  | const b _ ih => exact makes_valid (mkConst_makes ih b)
  | not _ hi ih => exact makes_valid (mkNot_makes ih (denotes_self hi))
  | and _ hi hj ih => exact makes_valid (mkAnd_makes ih (denotes_self hi) (denotes_self hj))
  | or _ hi hj ih => exact makes_valid (mkOr_makes ih (denotes_self hi) (denotes_self hj))
  | xor _ hi hj ih => exact makes_valid (mkXor_makes ih (denotes_self hi) (denotes_self hj))

/-! ## Terms that agree -/

/-- Only the variables below the bound matter. -/
theorem values_congr {a : TermArena} (ha : a.Bounded) {s s' : Nat → Bool}
    (h : ∀ k, k < a.varCount → s k = s' k) : a.values s = a.values s' := by
  have hterms : ∀ t ∈ a.terms.toList, t.VarBelow a.varCount := by
    intro t ht
    obtain ⟨i, hi⟩ := List.mem_iff_getElem?.mp ht
    rw [Array.getElem?_toList] at hi
    exact ha i t hi
  -- the two sweeps take the same steps, because a variable is only read below the bound
  rw [values_eq, values_eq, sweepValues, sweepValues]
  refine List.foldl_ext _ _ _ fun vs t ht => ?_
  have hvar := hterms t ht
  cases t with
  | var k => rw [Term.value, Term.value, h k hvar]
  | const b => rfl
  | not x => rfl
  | and x y => rfl
  | or x y => rfl
  | xor x y => rfl

/-- Terms are only found the same if they stand for the same function. -/
theorem same_sound {a : TermArena} (ha : a.Bounded) {i j : Nat} (h : a.same i j = true)
    (s : Nat → Bool) : a.evalWith i s = a.evalWith j s := by
  by_cases hij : i = j
  · rw [hij]
  · rw [same, equivalent?, if_neg hij] at h
    split at h
    · exact absurd h (by simp [hij])
    · simp only [hij, decide_false, Bool.false_or, Option.some.injEq, decide_eq_true_eq] at h
      -- among the assignments tried is one that cannot be told from `s`
      obtain ⟨m, hm, hs⟩ := exists_number a.varCount s
      have hagree := List.all_eq_true.mp h m (List.mem_range.mpr hm)
      rw [evalWith, evalWith, ← values_congr ha hs]
      exact eq_of_beq hagree

/-- Terms not found the same differ somewhere, if there are few enough variables. -/
theorem same_complete {a : TermArena} (hv : a.varCount ≤ maxDecidedVars) {i j : Nat}
    (h : a.same i j = false) : ∃ s, a.evalWith i s ≠ a.evalWith j s := by
  by_contra hall
  have hagree : ∀ s, a.evalWith i s = a.evalWith j s := fun s => by
    by_contra hne
    exact hall ⟨s, hne⟩
  have hrange : ((List.range (Nat.pow 2 a.varCount)).all fun n =>
      (a.values n.testBit).getD i false == (a.values n.testBit).getD j false) = true :=
    List.all_eq_true.mpr fun n _ => beq_iff_eq.mpr (hagree n.testBit)
  have hequiv : a.equivalent? i j = some true := by
    rw [equivalent?, if_neg (Nat.not_lt.mpr hv)]
    split
    · rfl
    · rw [← hrange]
  rw [same, hequiv] at h
  exact absurd h (by simp)

end TermArena

end RuleWiring
