import Mathlib
import RuleWiring.Proofs.Calls

/-!
# Calls side by side

Calls that share the tables of a batch may run at the same time. Each of them does one thing after
the other: it finds its pattern, looks things up, and makes its result when it has all it needs.
In which order the calls take their turns is left to a schedule, of which nothing is assumed. A
lookup reads its table if nobody has read it before; this happens at once, so that no other call
sees half of it.

What a call will come to is settled from the start (`Call.Sound`), and a turn of any call leaves
this so, because whatever it reads was going to be read like that anyway. The code that a
resolution writes back goes to the call's own copy of the pattern. So the schedule has no part in
the results, and neither has the clock, apart from the times and proofs it cuts short.
-/

namespace RuleWiring

theorem forall₂_set {α γ : Type} {R : α → γ → Prop} {l : List α} {l' : List γ} {y y' : γ}
    (h : List.Forall₂ R l l') {i : Nat} (hy : l'[i]? = some y) (hR : ∀ x, R x y → R x y') :
    List.Forall₂ R l (l'.set i y') := by
  induction h generalizing i with
  | nil => exact absurd hy (by simp)
  | @cons a b l l' hab hrest ih =>
      cases i with
      | zero =>
          cases hy
          exact .cons (hR a hab) hrest
      | succ i => exact .cons hab (ih hy)

/-! ## Calls and turns -/

/-- How far a call has come. -/
inductive Progress where
  | waiting
  | looking (p : Pattern) (rest : Access (Resolution × Pattern))
  | ended (result : Except BatchError Compiled)

/-- The call for an id, with the readings that the clock will have for it. -/
structure Call where
  id : String
  clock : Clock
  progress : Progress := .waiting

/-- Calls that share a batch and its tables. -/
structure Pool where
  batch : Batch
  cache : TableCache
  calls : List Call

/-- One turn of a call. A call that has ended does nothing. -/
def Call.step (b : Batch) (c : Call) (cache : TableCache) : Call × TableCache :=
  match c.progress with
  | .waiting =>
      match b.library.get? c.id with
      | none => ({ c with progress := .ended (.error (.unknownPattern c.id)) }, cache)
      | some p => ({ c with progress := .looking p (Resolution.accesses p) }, cache)
  | .looking p (.done found) => ({ c with progress := .ended (b.finish p found c.clock) }, cache)
  | .looking p rest =>
      let (rest, cache) := rest.step cache
      ({ c with progress := .looking p rest }, cache)
  | .ended _ => (c, cache)

/-- The result of a call that has ended, with its id. -/
def Call.result? (c : Call) : Option (String × Except BatchError Compiled) :=
  match c.progress with
  | .ended x => some (c.id, x)
  | _ => none

namespace Pool

/-- Nobody has had a turn. -/
def start (b : Batch) (cache : TableCache) (requests : List (String × Clock)) : Pool :=
  ⟨b, cache, requests.map fun r => { id := r.1, clock := r.2 }⟩

/-- The turn of the call at a position. -/
def step (w : Pool) (i : Nat) : Pool :=
  match w.calls[i]? with
  | none => w
  | some c =>
      let (c, cache) := c.step w.batch w.cache
      { w with cache := cache, calls := w.calls.set i c }

/-- One turn after the other. -/
def run (w : Pool) (schedule : List Nat) : Pool := schedule.foldl step w

/-- The results of the calls that have ended, in the order of the calls. -/
def results (w : Pool) : BatchResults := w.calls.filterMap Call.result?

end Pool

/-! ## One turn -/

namespace Call

variable {ps bs : TableSource} {b : Batch} {cache : TableCache} {c : Call}

/-- What the call has done so far leads to its outcome. -/
def Sound (ps bs : TableSource) (b : Batch) (c : Call) : Prop :=
  match c.progress with
  | .waiting => True
  | .looking p rest => b.library.get? c.id = some p
      ∧ rest.answer ps bs = (Resolution.accesses p).answer ps bs
  | .ended r => r = b.outcome ps bs c.id c.clock

/-- The call has ended after at most so many turns: one to find its pattern, one for each lookup,
and one to make its result. -/
def Within (n : Nat) (c : Call) : Prop :=
  match c.progress with
  | .waiting => 5 ≤ n
  | .looking _ rest => 0 < n ∧ rest.Within (n - 1)
  | .ended _ => True

/-- **One turn keeps a call on its way.** -/
theorem step_sound (h : cache.ReadFrom ps bs) (hc : c.Sound ps bs b) :
    (c.step b cache).1.Sound ps bs b ∧ (c.step b cache).2.ReadFrom ps bs
      ∧ (c.step b cache).1.id = c.id ∧ (c.step b cache).1.clock = c.clock := by
  obtain ⟨id, clock, progress⟩ := c
  unfold step
  cases progress with
  | waiting =>
      dsimp only
      cases hp : b.library.get? id with
      | none => exact ⟨by simp [Sound, Batch.outcome, hp], h, rfl, rfl⟩
      | some p => exact ⟨⟨hp, rfl⟩, h, rfl, rfl⟩
  | looking p rest =>
      obtain ⟨hp, hanswer⟩ := hc
      have hlookup := Access.step_answer h rest
      cases rest with
      | done found =>
          -- nothing is left to look up, so what was found is the answer of the sources
          refine ⟨?_, h, rfl, rfl⟩
          show b.finish p found clock = b.outcome ps bs id clock
          rw [Batch.outcome, show b.library.get? id = some p from hp]
          exact congrArg (b.finish p · clock) hanswer
      | params code k => exact ⟨⟨hp, hlookup.1.trans hanswer⟩, hlookup.2, rfl, rfl⟩
      | bridge key k => exact ⟨⟨hp, hlookup.1.trans hanswer⟩, hlookup.2, rfl, rfl⟩
  | ended r => exact ⟨hc, h, rfl, rfl⟩

theorem step_within {n : Nat} (h : c.Within n) : (c.step b cache).1.Within (n - 1) := by
  obtain ⟨id, clock, progress⟩ := c
  unfold step
  cases progress with
  | waiting =>
      have hn : 5 ≤ n := h
      dsimp only
      cases b.library.get? id with
      | none => trivial
      | some p =>
          exact ⟨by omega, Access.within_mono (Resolution.within_accesses p) (by omega)⟩
  | looking p rest =>
      obtain ⟨hn, hrest⟩ := h
      cases rest with
      | done found => trivial
      | params code k | bridge key k =>
          obtain ⟨m, rfl⟩ : ∃ m, n = m + 2 := by
            rcases n with _ | _ | m
            · omega
            · exact False.elim hrest
            · exact ⟨m, rfl⟩
          exact ⟨Nat.succ_pos m, Access.within_step hrest cache⟩
  | ended r => trivial

end Call

/-! ## All turns -/

namespace Pool

variable {ps bs : TableSource} {b : Batch} {requests : List (String × Clock)} {w : Pool}

/-- The calls are those that were asked for, each on the way to its outcome, and the tables are
those of the sources. -/
structure Sound (ps bs : TableSource) (b : Batch) (requests : List (String × Clock))
    (w : Pool) : Prop where
  batch : w.batch = b
  cache : w.cache.ReadFrom ps bs
  calls : List.Forall₂ (fun r c => c.id = r.1 ∧ c.clock = r.2 ∧ c.Sound ps bs b) requests w.calls

theorem start_sound {cache : TableCache} (h : cache.ReadFrom ps bs) (b : Batch)
    (requests : List (String × Clock)) : (start b cache requests).Sound ps bs b requests := by
  refine ⟨rfl, h, ?_⟩
  rw [start, List.forall₂_map_right_iff]
  exact List.forall₂_same.mpr fun r _ => ⟨rfl, rfl, trivial⟩

/-- **One turn.** -/
theorem step_sound (h : w.Sound ps bs b requests) (i : Nat) :
    (w.step i).Sound ps bs b requests := by
  unfold step
  cases hc : w.calls[i]? with
  | none => exact h
  | some c =>
      obtain ⟨r, _, hsound⟩ := exists_of_forall₂ h.calls.flip c (List.mem_of_getElem? hc)
      have hnext := Call.step_sound h.cache hsound.2.2
      rw [h.batch]
      refine ⟨rfl, hnext.2.1, forall₂_set h.calls hc fun r hr => ?_⟩
      exact ⟨hnext.2.2.1.trans hr.1, hnext.2.2.2.trans hr.2.1, hnext.1⟩

/-- **All turns.** -/
theorem run_sound (schedule : List Nat) : ∀ {w : Pool}, w.Sound ps bs b requests →
    (w.run schedule).Sound ps bs b requests := by
  induction schedule with
  | nil => exact fun h => h
  | cons i schedule ih => exact fun h => ih (step_sound h i)

theorem step_calls (w : Pool) (j : Nat) {i : Nat} {c : Call} (hc : w.calls[i]? = some c) :
    (w.step j).calls[i]? = some (if j = i then (c.step w.batch w.cache).1 else c) := by
  unfold step
  by_cases hji : j = i
  · subst hji
    have hj : j < w.calls.length := (List.getElem?_eq_some_iff.mp hc).1
    rw [hc, if_pos rfl]
    exact List.getElem?_set_self hj
  · rw [if_neg hji]
    cases w.calls[j]? with
    | none => exact hc
    | some c' => exact (List.getElem?_set_ne hji).trans hc

/-- Every turn brings a call closer to its end. -/
theorem run_within (i : Nat) : ∀ (schedule : List Nat) {w : Pool} {n : Nat} {c : Call},
    w.calls[i]? = some c → c.Within n →
    ∃ c', (w.run schedule).calls[i]? = some c' ∧ c'.Within (n - schedule.count i)
  | [], _, _, c, hc, hn => ⟨c, hc, hn⟩
  | j :: schedule, w, n, c, hc, hn => by
      have hnext := step_calls w j hc
      by_cases hji : j = i
      · rw [if_pos hji] at hnext
        obtain ⟨c', hc', hn'⟩ := run_within i schedule hnext (Call.step_within hn)
        refine ⟨c', hc', ?_⟩
        rwa [hji, List.count_cons_self, Nat.add_comm, ← Nat.sub_sub]
      · rw [if_neg hji] at hnext
        obtain ⟨c', hc', hn'⟩ := run_within i schedule hnext hn
        refine ⟨c', hc', ?_⟩
        rwa [List.count_cons_of_ne hji]

/-- Nobody needs more than five turns. -/
theorem ended_of_count {cache : TableCache} {schedule : List Nat} {i : Nat}
    {r : String × Clock} (hr : requests[i]? = some r) (hcount : 5 ≤ schedule.count i) :
    ∃ c x, ((start b cache requests).run schedule).calls[i]? = some c ∧ c.progress = .ended x := by
  have hstart : (start b cache requests).calls[i]? = some { id := r.1, clock := r.2 } := by
    rw [start, List.getElem?_map, hr]
    rfl
  have hfive : Call.Within 5 { id := r.1, clock := r.2 } := Nat.le_refl 5
  obtain ⟨⟨id, clock, progress⟩, hc, hwithin⟩ := run_within i schedule hstart hfive
  -- a call that has not ended has a turn left, and there is none
  rw [Nat.sub_eq_zero_of_le hcount] at hwithin
  cases progress with
  | waiting => exact absurd hwithin (by simp [Call.Within])
  | looking p rest => exact absurd hwithin.1 (Nat.lt_irrefl 0)
  | ended x => exact ⟨_, x, hc, rfl⟩

/-- One result for each request, once all calls have ended. -/
theorem results_of_ended {R : String × Clock → String × Except BatchError Compiled → Prop}
    {calls : List Call}
    (h : List.Forall₂ (fun r c => ∃ e, c.result? = some e ∧ R r e) requests calls) :
    List.Forall₂ R requests (calls.filterMap Call.result?) := by
  induction h with
  | nil => exact .nil
  | cons hc _ ih =>
      obtain ⟨e, he, hR⟩ := hc
      rw [List.filterMap_cons_some he]
      exact .cons hR ih

/--
**The schedule has no part in the results.**

The library, the sources of the tables, the compiler and the analyser are arbitrary, and so are the
requests, the order in which their calls take turns, and what the clock shows to each of them. Of
the tables any may have been read before. The library stays as it is, and the tables those of
the sources. A call that ends has the result that it would have had alone with tables that nobody
had read. A call ends after at most five turns, so that a schedule that gives as many to every call
has one result for each request, in the order of the requests. Neither does it matter if the whole
library is compiled one id after the other: every pattern has one result, and none of them fails.
-/
theorem run_answers (b : Batch) {cache : TableCache} (h : cache.ReadFrom ps bs)
    (requests : List (String × Clock)) (schedule : List Nat) :
    let w := (start b cache requests).run schedule
    w.batch.library = b.library ∧ w.cache.ReadFrom ps bs
      ∧ List.Forall₂ (fun r c => c.id = r.1 ∧ ∀ x, c.progress = .ended x →
          b.Answers ps bs r.1 r.2 x) requests w.calls
      ∧ (∀ i r, requests[i]? = some r → 5 ≤ schedule.count i →
          ∃ c x, w.calls[i]? = some c ∧ c.progress = .ended x)
      ∧ ((∀ i < requests.length, 5 ≤ schedule.count i) →
          List.Forall₂ (fun r e => e.1 = r.1 ∧ b.Answers ps bs r.1 r.2 e.2) requests w.results)
      ∧ ∀ c, List.Forall₂ (fun id e => e.1 = id ∧ (∃ y, e.2 = .ok y)
          ∧ ∃ c, b.Answers ps bs id c e.2) b.library.ids (b.compileAll ⟨cache, c⟩).1 := by
  intro w
  have hs : w.Sound ps bs b requests := run_sound schedule (start_sound h b requests)
  have hcalls : List.Forall₂ (fun r c => c.id = r.1 ∧ ∀ x, c.progress = .ended x →
      b.Answers ps bs r.1 r.2 x) requests w.calls := by
    refine hs.calls.imp fun r c ⟨hid, hclock, hc⟩ => ⟨hid, fun x hx => ?_⟩
    rw [Call.Sound, hx] at hc
    rw [show x = b.outcome ps bs r.1 r.2 by rw [← hid, ← hclock]; exact hc]
    exact b.answers_outcome ps bs r.1 r.2
  refine ⟨by rw [hs.batch], hs.cache, hcalls, fun i r => ended_of_count, fun hturns => ?_,
    fun c => ?_⟩
  · have hended : ∀ c ∈ w.calls, ∃ x, c.progress = .ended x := by
      intro c hc
      obtain ⟨i, hi, hci⟩ := List.mem_iff_getElem.mp hc
      have hir : i < requests.length := hcalls.length_eq ▸ hi
      obtain ⟨c', x, hc', hx⟩ : ∃ c x, w.calls[i]? = some c ∧ c.progress = .ended x :=
        ended_of_count (List.getElem?_eq_getElem hir) (hturns i hir)
      have hsame : some c = some c' := by
        rw [← hc', ← hci]
        exact (List.getElem?_eq_getElem hi).symm
      exact ⟨x, Option.some.inj hsame ▸ hx⟩
    refine results_of_ended ?_
    refine ((List.forall₂_and_left _ _).mpr ⟨hended, hcalls.flip⟩).flip.imp fun r c hrc => ?_
    obtain ⟨⟨x, hx⟩, hid, hanswers⟩ := hrc
    exact ⟨(c.id, x), by rw [Call.result?, hx], hid, hanswers x hx⟩
  · refine ((List.forall₂_and_left _ _).mpr
      ⟨fun _ h => h, b.compileEach_answers b.library.ids h⟩).imp ?_
    rintro id e ⟨hmem, hid, c, hanswers⟩
    exact ⟨hid, hanswers.ok hmem, c, hanswers⟩

/-- A pattern that has its code from the bridge table only. -/
def bridged : Batch where
  library := ⟨[{ id := "p" }]⟩
  analyzer := some ⟨.lifted, .null⟩

def bridgedRecords : TableSource := .text "01101010\t2\t-\t-\treverse\t-"

def bridgedCodes : TableSource := .text "p\t-\t01101010"

/-- Two calls for one pattern that take turns, when the bridge table has been read before. -/
theorem run_answers_bridged :
    let cache := (TableCache.ofSources bridgedRecords bridgedCodes).loadBridge
    let w := (start bridged cache [("p", .still), ("p", .still)]).run [0, 1, 1, 0, 0, 1, 0, 1, 1, 0]
    cache.ReadFrom bridgedRecords bridgedCodes ∧ w.results.length = 2
      ∧ ∀ e ∈ w.results, ∃ y, e.2 = .ok y ∧ y.resolution.provenance = .fallbackTable := by
  intro cache w
  have hcache : cache.ReadFrom bridgedRecords bridgedCodes :=
    (TableCache.ReadFrom.fresh _ _).loadBridge
  obtain ⟨_, _, _, _, hresults, _⟩ := run_answers bridged hcache [("p", .still), ("p", .still)]
    [0, 1, 1, 0, 0, 1, 0, 1, 1, 0]
  have hall := hresults (by decide)
  have halone :
      ((bridged.compileOne "p" ⟨.ofSources bridgedRecords bridgedCodes, .still⟩).1.toOption.map
        (·.resolution.provenance)) = some .fallbackTable := by
    decide +kernel
  refine ⟨hcache, hall.length_eq.symm, fun e he => ?_⟩
  obtain ⟨r, hr, _, hanswers⟩ := exists_of_forall₂ hall.flip e he
  have hid : r = ("p", .still) := by simpa using hr
  obtain ⟨y, hy⟩ := hanswers.ok (by rw [hid]; decide)
  refine ⟨y, hy, ?_⟩
  have hsame := hanswers.alone
  rw [hid, hy] at hsame
  rw [← hsame] at halone
  exact Option.some.inj halone

end Pool

end RuleWiring
