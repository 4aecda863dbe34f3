import Mathlib
import RuleWiring.Proofs.Constructions
import RuleWiring.Proofs.Search

/-!
# A search trial by trial

The loop of a search has one buffer for all assignments. In every turn it compares the counter with
the number of assignments, reads the clock, writes the bits of the counter over what the buffer
held, and evaluates the term. The counter is a word of 32 bits, which is wide enough for up to 31
variables.

What is known in the middle of a search is `Reached`: the buffer has its length, the assignments
tested are those below the counter, none of them satisfies the term, and no reading was late. A turn
leads from one counter to the next or ends the loop, and there are only so many counters, so that
every search ends, whatever the clock shows. Assignments and the numbers they spell determine each
other, which is why the first model found is the least one and none is left out.
-/

namespace RuleWiring

/-! ## Assignments and numbers -/

namespace TermArena

/-- The number that an assignment spells, the value of the first variable being the lowest bit. -/
def number : List Bool → Nat
  | [] => 0
  | b :: m => Nat.bit b (number m)

theorem testBit_number (m : List Bool) (k : Nat) : (number m).testBit k = m.getD k false := by
  induction m generalizing k with
  | nil => exact Nat.zero_testBit k
  | cons b m ih =>
      cases k with
      | zero => exact Nat.testBit_bit_zero b _
      | succ k => exact (Nat.testBit_bit_succ k b _).trans (ih k)

theorem number_lt (m : List Bool) : number m < Nat.pow 2 m.length := by
  refine Nat.lt_pow_two_of_testBit _ fun k hk => ?_
  rw [testBit_number, List.getD_eq_default _ _ hk]

@[simp] theorem length_assignment (n bits : Nat) : (assignment n bits).length = n := by
  rw [assignment, List.length_map, List.length_range]

/-- **An assignment is the one that its number spells.** -/
theorem assignment_number (m : List Bool) : assignment m.length (number m) = m := by
  refine List.ext_getElem (length_assignment ..) fun k hk hk' => ?_
  rw [← List.getD_eq_getElem _ false hk, getD_assignment hk', testBit_number,
    List.getD_eq_getElem _ false hk']

theorem number_assignment {n bits : Nat} (h : bits < Nat.pow 2 n) :
    number (assignment n bits) = bits := by
  refine Nat.eq_of_testBit_eq fun k => ?_
  rw [testBit_number]
  -- the bits beyond the variables are zero, because the number is below the bound
  by_cases hk : k < n
  · rw [getD_assignment hk]
  · have hn : n ≤ k := Nat.le_of_not_lt hk
    rw [List.getD_eq_default _ _ (by rwa [length_assignment])]
    exact (Nat.testBit_lt_two_pow (h.trans_le (Nat.pow_le_pow_right (by decide) hn))).symm

end TermArena

/-- The clock after some readings. -/
def Clock.later (c : Clock) (n : Nat) : Clock := ⟨fun k => c.reading (n + k)⟩

theorem Clock.read_later (c : Clock) (n : Nat) :
    (c.later n).read = (c.reading n, c.later (n + 1)) := by
  have hnext : (fun k => c.reading (n + (k + 1))) = fun k => c.reading (n + 1 + k) :=
    funext fun k => congrArg c.reading (by omega)
  exact congrArg (fun later => (c.reading n, Clock.mk later)) hnext

namespace Search

open TermArena

/-! ## The loop -/

/-- The bits of a counter, written one by one over what a buffer held. -/
def overwrite (counter : UInt32) (buffer : List Bool) : List Bool :=
  (List.range buffer.length).foldl
    (fun b k => b.set k (counter >>> UInt32.ofNat k &&& 1 = 1)) buffer

/-- The loop of a search. -/
structure Loop where
  counter : UInt32
  buffer : List Bool
  clock : Clock
  /-- The assignments that have been tested, the last one first. -/
  tested : List (List Bool)

/-- A loop that goes on, or the outcome with the loop as it was left. -/
inductive Stage where
  | going (l : Loop)
  | ended (r : Search) (l : Loop)

section Turns

variable (a : TermArena) (formula vars deadline : Nat)

/-- One turn of the loop. -/
def Loop.turn (l : Loop) : Stage :=
  if 1 <<< UInt32.ofNat vars ≤ l.counter then .ended .unsat l
  else
    let (now, clock) := l.clock.read
    if deadline ≤ now then .ended .timeout { l with clock := clock }
    else
      let buffer := overwrite l.counter l.buffer
      let l : Loop := ⟨l.counter + 1, buffer, clock, buffer :: l.tested⟩
      if a.eval formula buffer then .ended (.sat buffer) l else .going l

/-- What has ended stays as it is. -/
def Stage.next : Stage → Stage
  | .going l => l.turn a formula vars deadline
  | .ended r l => .ended r l

/-- A search that is about to begin, with a buffer of values that are all false. -/
def Loop.start (c : Clock) : Loop := ⟨0, List.replicate vars false, c, []⟩

/-- What a search knows when it ends, from the assignments that were tested and from the readings
of the clock `c`, which are those behind the first one. -/
structure Concludes (c : Clock) (r : Search) (tested : List (List Bool)) : Prop where
  /-- The assignments were tested one after the other, none of them twice … -/
  inOrder : tested = (List.range tested.length).map (assignment vars)
  /-- … each in time … -/
  inTime : ∀ k, k < tested.length → c.reading k < deadline
  /-- … and only the last one can have satisfied the term. -/
  failed : ∀ m ∈ tested, r ≠ .sat m → a.eval formula m = false
  sat : ∀ m, r = .sat m → m.length = vars ∧ a.eval formula m = true
    ∧ ∀ m' : List Bool, m'.length = vars → number m' < number m → a.eval formula m' = false
  unsat : r = .unsat → ∀ m : List Bool, m.length = vars → a.eval formula m = false
  /-- The search was given up at a late reading, with an assignment left to test and none that
  satisfies the term among those tested. -/
  timeout : r = .timeout → tested.length < Nat.pow 2 vars ∧ deadline ≤ c.reading tested.length
    ∧ ∀ m ∈ tested, a.eval formula m = false

/-- What is known when the counter has come to `n`. -/
structure Reached (c : Clock) (n : Nat) (l : Loop) : Prop where
  counter : l.counter.toNat = n
  buffer : l.buffer.length = vars
  clock : l.clock = c.later n
  tested : l.tested.reverse = (List.range n).map (assignment vars)
  inTime : ∀ k, k < n → c.reading k < deadline
  excluded : Excluded a formula vars 0 n

end Turns

variable {a : TermArena} {formula vars deadline : Nat} {c : Clock} {n : Nat} {l : Loop}

/-! ## One turn -/

/-- The places of a list written one after the other. -/
theorem foldl_set_range (f : Nat → Bool) (l : List Bool) : ∀ n, n ≤ l.length →
    (List.range n).foldl (fun b k => b.set k (f k)) l = (List.range n).map f ++ l.drop n
  | 0, _ => by simp
  | n + 1, hn => by
      have hdrop : l.drop n = l[n] :: l.drop (n + 1) := List.drop_eq_getElem_cons hn
      rw [List.range_succ, List.foldl_append, foldl_set_range f l n (by omega), List.map_append,
        List.foldl_cons, List.foldl_nil, List.set_append_right _ _ (by simp), List.length_map,
        List.length_range, Nat.sub_self, hdrop, List.set_cons_zero, List.append_assoc]
      rfl

/-- **Whatever the buffer held, it now is the assignment of the counter.** -/
theorem overwrite_eq (hv : vars < 32) {counter : UInt32} {buffer : List Bool}
    (hbuffer : buffer.length = vars) :
    overwrite counter buffer = assignment vars counter.toNat := by
  rw [overwrite, foldl_set_range _ _ _ (Nat.le_refl _), List.drop_length, List.append_nil, hbuffer,
    assignment]
  refine List.map_congr_left fun k hk => ?_
  have hk : k < vars := List.mem_range.mp hk
  have hword : (counter >>> UInt32.ofNat k &&& 1).toNat = counter.toNat / 2 ^ k % 2 := by
    rw [UInt32.toNat_and, UInt32.toNat_shiftRight, UInt32.toNat_ofNat', UInt32.toNat_one,
      Nat.and_one_is_mod, Nat.shiftRight_eq_div_pow]
    congr 3
    omega
  rw [Nat.testBit_eq_decide_div_mod_eq, ← hword]
  exact decide_eq_decide.mpr UInt32.toNat_inj.symm

theorem toNat_limit (hv : vars < 32) : (1 <<< UInt32.ofNat vars : UInt32).toNat = 2 ^ vars := by
  have hpow : 2 ^ vars < 2 ^ 32 := Nat.pow_lt_pow_right (by decide) hv
  have hmod : vars % 2 ^ 32 % 32 = vars := by omega
  rw [UInt32.toNat_shiftLeft, UInt32.toNat_ofNat', UInt32.toNat_one, hmod, Nat.shiftLeft_eq,
    Nat.one_mul, Nat.mod_eq_of_lt hpow]

theorem limit_le_iff (hv : vars < 32) (h : Reached a formula vars deadline c n l) :
    1 <<< UInt32.ofNat vars ≤ l.counter ↔ Nat.pow 2 vars ≤ n := by
  rw [UInt32.le_iff_toNat_le, toNat_limit hv, h.counter]
  rfl

/-- The next counter is reached when an assignment has failed in time. -/
theorem Reached.next (h : Reached a formula vars deadline c n l) (hv : vars < 32)
    (hn : n < Nat.pow 2 vars) (htime : c.reading n < deadline)
    (hfail : a.eval formula (assignment vars n) = false) :
    Reached a formula vars deadline c (n + 1)
      ⟨l.counter + 1, assignment vars n, c.later (n + 1), assignment vars n :: l.tested⟩ where
  counter := by
    have hpow : 2 ^ vars < 2 ^ 32 := Nat.pow_lt_pow_right (by decide) hv
    have hn : n < 2 ^ vars := hn
    rw [UInt32.toNat_add, h.counter, UInt32.toNat_one, Nat.mod_eq_of_lt (by omega)]
  buffer := length_assignment ..
  clock := rfl
  tested := by
    rw [List.reverse_cons, h.tested, List.range_succ, List.map_append]
    rfl
  inTime k hk := by
    rcases Nat.lt_succ_iff_lt_or_eq.mp hk with hk | rfl
    · exact h.inTime k hk
    · exact htime
  excluded k _ hk := by
    rcases Nat.lt_succ_iff_lt_or_eq.mp hk with hk | rfl
    · exact h.excluded k (Nat.zero_le k) hk
    · exact hfail

/-- **One turn.** -/
theorem Reached.turn_eq (h : Reached a formula vars deadline c n l) (hv : vars < 32)
    (hn : n < Nat.pow 2 vars) :
    l.turn a formula vars deadline =
      if deadline ≤ c.reading n then .ended .timeout { l with clock := c.later (n + 1) }
      else
        let l : Loop :=
          ⟨l.counter + 1, assignment vars n, c.later (n + 1), assignment vars n :: l.tested⟩
        if a.eval formula (assignment vars n) then .ended (.sat (assignment vars n)) l
        else .going l := by
  rw [Loop.turn, if_neg (by rw [limit_le_iff hv h]; omega), h.clock, c.read_later,
    overwrite_eq hv h.buffer, h.counter]

/-! ## The end of a search -/

/-- The assignments tested so far have all failed. -/
theorem Reached.failed (h : Reached a formula vars deadline c n l) :
    ∀ m ∈ l.tested.reverse, a.eval formula m = false := by
  intro m hm
  rw [h.tested] at hm
  obtain ⟨k, hk, rfl⟩ := List.mem_map.mp hm
  exact h.excluded k (Nat.zero_le k) (List.mem_range.mp hk)

/-- So have all with a number below the counter. -/
theorem Reached.eval_eq_false (h : Reached a formula vars deadline c n l) {m : List Bool}
    (hm : m.length = vars) (hlt : number m < n) : a.eval formula m = false := by
  rw [← assignment_number m, hm]
  exact h.excluded _ (Nat.zero_le _) hlt

theorem Reached.length_tested (h : Reached a formula vars deadline c n l) :
    l.tested.reverse.length = n := by
  rw [h.tested, List.length_map, List.length_range]

theorem Reached.concludes_unsat (h : Reached a formula vars deadline c (Nat.pow 2 vars) l) :
    Concludes a formula vars deadline c .unsat l.tested.reverse where
  inOrder := by rw [h.length_tested, h.tested]
  inTime k hk := h.inTime k (h.length_tested ▸ hk)
  failed m hm _ := h.failed m hm
  sat _ hr := absurd hr (by simp)
  unsat _ m hm := h.eval_eq_false hm (hm ▸ number_lt m)
  timeout hr := absurd hr (by simp)

theorem Reached.concludes_timeout (h : Reached a formula vars deadline c n l)
    (hn : n < Nat.pow 2 vars) (hlate : deadline ≤ c.reading n) :
    Concludes a formula vars deadline c .timeout l.tested.reverse where
  inOrder := by rw [h.length_tested, h.tested]
  inTime k hk := h.inTime k (h.length_tested ▸ hk)
  failed m hm _ := h.failed m hm
  sat _ hr := absurd hr (by simp)
  unsat hr := absurd hr (by simp)
  timeout _ := by
    rw [h.length_tested]
    exact ⟨hn, hlate, h.failed⟩

theorem Reached.concludes_sat (h : Reached a formula vars deadline c n l)
    (hn : n < Nat.pow 2 vars) (htime : c.reading n < deadline)
    (hsat : a.eval formula (assignment vars n) = true) :
    Concludes a formula vars deadline c (.sat (assignment vars n))
      (assignment vars n :: l.tested).reverse := by
  have hlength : (assignment vars n :: l.tested).reverse.length = n + 1 := by
    rw [List.reverse_cons, List.length_append, h.length_tested, List.length_singleton]
  refine ⟨?_, fun k hk => ?_, fun m hm hne => ?_, fun m hr => ?_, fun hr => ?_, fun hr => ?_⟩
  · rw [hlength, List.reverse_cons, h.tested, List.range_succ, List.map_append]
    rfl
  · rcases Nat.lt_succ_iff_lt_or_eq.mp (hlength ▸ hk) with hk | rfl
    · exact h.inTime k hk
    · exact htime
  · rw [List.reverse_cons, List.mem_append, List.mem_singleton] at hm
    rcases hm with hm | rfl
    · exact h.failed m hm
    · exact absurd rfl hne
  · cases hr
    refine ⟨length_assignment .., hsat, fun m' hm' hlt => ?_⟩
    rw [number_assignment hn] at hlt
    exact h.eval_eq_false hm' hlt
  · exact absurd hr (by simp)
  · exact absurd hr (by simp)

/-! ## The whole search -/

theorem iterate_ended (r : Search) (l : Loop) (n : Nat) :
    (Stage.next a formula vars deadline)^[n] (.ended r l) = .ended r l :=
  Function.iterate_fixed rfl n

/-- **The loop ends**, with the outcome that the search in numbers has, after as many readings. The
induction is on the number of assignments that are left. -/
theorem Reached.ends (hv : vars < 32) : ∀ (left : Nat) {n : Nat} {l : Loop},
    Reached a formula vars deadline c n l → n + left = Nat.pow 2 vars →
    ∃ r l', (Stage.next a formula vars deadline)^[left + 1] (.going l) = .ended r l'
      ∧ tryLast a formula vars deadline left (c.later n) = (r, l'.clock)
      ∧ Concludes a formula vars deadline c r l'.tested.reverse
  | 0, n, l, h, hn => by
      -- nothing is left to test, and the counter has come to the limit
      have hn : n = Nat.pow 2 vars := hn
      subst hn
      have hturn : l.turn a formula vars deadline = .ended .unsat l := by
        rw [Loop.turn, if_pos ((limit_le_iff hv h).mpr (Nat.le_refl _))]
      exact ⟨.unsat, l, hturn, by rw [tryLast, h.clock], h.concludes_unsat⟩
  | left + 1, n, l, h, hn => by
      have hlt : n < Nat.pow 2 vars := by omega
      have hnumber : Nat.pow 2 vars - (left + 1) = n := by omega
      rw [Function.iterate_succ_apply, Stage.next, h.turn_eq hv hlt]
      simp only [tryLast, c.read_later, hnumber]
      by_cases hlate : deadline ≤ c.reading n
      · rw [if_pos hlate, if_pos hlate, iterate_ended]
        exact ⟨_, _, rfl, rfl, h.concludes_timeout hlt hlate⟩
      · have htime : c.reading n < deadline := Nat.lt_of_not_le hlate
        rw [if_neg hlate, if_neg hlate]
        cases heval : a.eval formula (assignment vars n) with
        | true =>
            rw [if_pos rfl, if_pos rfl, iterate_ended]
            exact ⟨_, _, rfl, rfl, h.concludes_sat hlt htime heval⟩
        | false =>
            rw [if_neg (by simp), if_neg (by simp)]
            exact Reached.ends hv left (h.next hv hlt htime heval) (by omega)

end Search

end RuleWiring
