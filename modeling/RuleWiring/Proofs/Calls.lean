import Mathlib
import RuleWiring.Batch.Basic
import RuleWiring.Proofs.Analysis
import RuleWiring.Proofs.Scheme

/-!
# What a call depends on

A call compiles the pattern of an id. On its way it looks things up in the two tables and reads
the clock. A table is the same whenever it is read, so it does not matter which have been read
before. The clock tells how long an analysis took, and may end a search before it has an answer;
nothing else of the result depends on it.

A lookup is the only thing that a call has to do with other calls. A call is therefore taken apart
into its lookups (`Access`), which is what calls that run side by side interleave.
-/

namespace RuleWiring

/-! ## Tables that may have been read -/

namespace TableCache

variable {ps bs : TableSource} {c : TableCache}

/-- A cache of two sources, with any of their tables read or not. -/
structure ReadFrom (ps bs : TableSource) (c : TableCache) : Prop where
  paramsSource : c.paramsSource = ps
  bridgeSource : c.bridgeSource = bs
  params : ∀ t, c.params = some t → t = (ofSources ps bs).paramsTable
  bridge : ∀ t, c.bridge = some t → t = (ofSources ps bs).bridgeTable

namespace ReadFrom

theorem fresh (ps bs : TableSource) : (ofSources ps bs).ReadFrom ps bs :=
  ⟨rfl, rfl, by simp [ofSources], by simp [ofSources]⟩

/-- The table that is or will be used is the one of the source. -/
theorem paramsTable (h : c.ReadFrom ps bs) : c.paramsTable = (ofSources ps bs).paramsTable := by
  cases hread : c.params with
  | some t => rw [TableCache.paramsTable, hread, Option.getD_some, h.params t hread]
  | none =>
      rw [TableCache.paramsTable, hread, h.paramsSource]
      rfl

theorem bridgeTable (h : c.ReadFrom ps bs) : c.bridgeTable = (ofSources ps bs).bridgeTable := by
  cases hread : c.bridge with
  | some t => rw [TableCache.bridgeTable, hread, Option.getD_some, h.bridge t hread]
  | none =>
      rw [TableCache.bridgeTable, hread, h.bridgeSource]
      rfl

theorem loadParams (h : c.ReadFrom ps bs) : c.loadParams.ReadFrom ps bs where
  paramsSource := h.paramsSource
  bridgeSource := h.bridgeSource
  params _ ht := (Option.some.inj ht).symm.trans h.paramsTable
  bridge := h.bridge

theorem loadBridge (h : c.ReadFrom ps bs) : c.loadBridge.ReadFrom ps bs where
  paramsSource := h.paramsSource
  bridgeSource := h.bridgeSource
  params := h.params
  bridge _ ht := (Option.some.inj ht).symm.trans h.bridgeTable

end ReadFrom

end TableCache

/-! ## Lookups one by one -/

/-- A computation by lookups: it has its result, or it looks something up and goes on with what
it finds. -/
inductive Access (α : Type) where
  | done (x : α)
  | params (code : Exocode) (k : Option ParameterRecord → Access α)
  | bridge (id : String) (k : Option Exocode → Access α)

namespace Access

variable {α : Type} {ps bs : TableSource} {c : TableCache}

/-- The next lookup, in the cache as it is then. -/
def step : Access α → TableCache → Access α × TableCache
  | done x, c => (done x, c)
  | params code k, c =>
      let (found, c) := TableCache.lookupParams code c
      (k found, c)
  | bridge id k, c =>
      let (found, c) := TableCache.lookupBridge id c
      (k found, c)

/-- All lookups without a pause. -/
def run : Access α → StateM TableCache α
  | done x => pure x
  | params code k => do
      let found ← TableCache.lookupParams code
      run (k found)
  | bridge id k => do
      let found ← TableCache.lookupBridge id
      run (k found)

/-- The result if the tables of two sources are used. -/
def answer (ps bs : TableSource) : Access α → α
  | done x => x
  | params code k => answer ps bs (k ((TableCache.ofSources ps bs).paramsTable.get? code))
  | bridge id k => answer ps bs (k ((TableCache.ofSources ps bs).bridgeTable.get? id))

/-- At most so many lookups are left. -/
def Within : Nat → Access α → Prop
  | _, done _ => True
  | 0, _ => False
  | n + 1, params _ k => ∀ found, Within n (k found)
  | n + 1, bridge _ k => ∀ found, Within n (k found)

/-- **A lookup settles nothing** that was not settled before. -/
theorem step_answer (h : c.ReadFrom ps bs) (a : Access α) :
    (a.step c).1.answer ps bs = a.answer ps bs ∧ (a.step c).2.ReadFrom ps bs := by
  cases a with
  | done x => exact ⟨rfl, h⟩
  | params code k =>
      refine ⟨?_, h.loadParams⟩
      rw [answer, ← h.paramsTable]
      rfl
  | bridge id k =>
      refine ⟨?_, h.loadBridge⟩
      rw [answer, ← h.bridgeTable]
      rfl

theorem run_answer (a : Access α) : ∀ {c : TableCache}, c.ReadFrom ps bs →
    (a.run c).1 = a.answer ps bs ∧ (a.run c).2.ReadFrom ps bs := by
  induction a with
  | done x => exact fun h => ⟨rfl, h⟩
  | params code k ih =>
      intro c h
      rw [answer, ← h.paramsTable]
      exact ih _ h.loadParams
  | bridge id k ih =>
      intro c h
      rw [answer, ← h.bridgeTable]
      exact ih _ h.loadBridge

theorem within_mono {n m : Nat} {a : Access α} (h : a.Within n) (hnm : n ≤ m) : a.Within m := by
  induction a generalizing n m with
  | done x => cases m <;> trivial
  | params code k ih | bridge key k ih =>
      cases n with
      | zero => exact False.elim h
      | succ n =>
          cases m with
          | zero => omega
          | succ m => exact fun found => ih found (h found) (Nat.le_of_succ_le_succ hnm)

theorem within_step {n : Nat} {a : Access α} (h : a.Within (n + 1)) (c : TableCache) :
    (a.step c).1.Within n := by
  cases a with
  | done x => cases n <;> trivial
  | params code k => exact h _
  | bridge id k => exact h _

end Access

namespace Resolution

variable {ps bs : TableSource}

/-- The lookups by the id of a pattern, when its own code has led to nothing. -/
def bridgeAccesses (p : Pattern) : Access (Resolution × Pattern) :=
  .bridge p.id fun
    | none => .done (⟨.defaults, .default, p.code⟩, p)
    | some code =>
        let q := { p with code := p.code.or (some code) }
        .params code fun
          | some r => .done (⟨r, .fallbackTable, some code⟩, q)
          | none => .done (⟨.defaults, .default, q.code⟩, q)

/-- The lookups of a resolution. -/
def accesses (p : Pattern) : Access (Resolution × Pattern) :=
  match own? p with
  | some o => .done (⟨o.complete, .inline, p.code⟩, p)
  | none =>
      match p.code with
      | none => bridgeAccesses p
      | some code => .params code fun
          | some r => .done (⟨r, .table, p.code⟩, p)
          | none => bridgeAccesses p

/-- The lookups by id are those of the fallback, whatever makes the result of what it finds. -/
theorem run_bridgeAccesses (p : Pattern)
    (k : Pattern × Option (Exocode × ParameterRecord) → StateM TableCache (Resolution × Pattern))
    (hfound : ∀ q code r, k (q, some (code, r)) = pure (⟨r, .fallbackTable, some code⟩, q))
    (hnone : ∀ q, k (q, none) = pure (⟨.defaults, .default, q.code⟩, q)) :
    (bridgeAccesses p).run = fallback p >>= k := by
  unfold bridgeAccesses fallback
  rw [Access.run, bind_assoc]
  congr 1
  funext found
  cases found with
  | none => exact (hnone p).symm
  | some code =>
      simp only [Access.run, bind_assoc, pure_bind]
      congr 1
      funext found
      cases found with
      | none => exact (hnone { p with code := p.code.or (some code) }).symm
      | some r => exact (hfound { p with code := p.code.or (some code) } code r).symm

/-- **Done without a pause, the lookups are the resolution.** -/
theorem run_accesses (p : Pattern) : (accesses p).run = resolve p := by
  unfold accesses resolve
  cases own? p with
  | some o => rfl
  | none =>
      dsimp only
      unfold table?
      cases p.code with
      | none =>
          simp only [pure_bind]
          exact run_bridgeAccesses p _ (fun _ _ _ => rfl) fun _ => rfl
      | some code =>
          dsimp only
          rw [Access.run]
          congr 1
          funext found
          cases found with
          | some r => rfl
          | none => exact run_bridgeAccesses p _ (fun _ _ _ => rfl) fun _ => rfl

theorem within_accesses (p : Pattern) : (accesses p).Within 3 := by
  have hbridge : ∀ {n : Nat}, (bridgeAccesses p).Within (n + 2) := by
    intro n found
    cases found with
    | none => trivial
    | some code =>
        intro found
        cases found <;> cases n <;> trivial
  unfold accesses
  split
  · trivial
  · split
    · exact hbridge
    · intro found
      cases found with
      | some r => trivial
      | none => exact hbridge

end Resolution

/-! ## Analyses of one diagram -/

/-- Two analyses that differ at most in the time they took and, where a search has a deadline, in
whether a proof came to its end. -/
structure Analysis.Agrees (z : Analyzer) (r r' : Analysis) : Prop where
  findings : r = { r' with verification := r.verification, timeMs := r.timeMs }
  verification : r.verification = r'.verification
    ∨ z.prover ≠ .null ∧ r.verification ≠ .refuted ∧ r'.verification ≠ .refuted

/-- Two answers of an analyser: analyses that agree, or the same error. -/
inductive Analyzer.Agree (z : Analyzer) :
    Except EvalError Analysis → Except EvalError Analysis → Prop where
  | ok {r r' : Analysis} (h : r.Agrees z r') : Agree z (.ok r) (.ok r')
  | error (e : EvalError) : Agree z (.error e) (.error e)

/-- **Whatever the clocks show**, an analyser gives answers that agree. -/
theorem Analyzer.analyze_agree (z : Analyzer) (d : Diagram) (c c' : Clock) :
    z.Agree (z.analyze d c).1 (z.analyze d c').1 := by
  cases hr : (z.analyze d c).1 with
  | error e =>
      rw [analyze_error_iff.mpr (analyze_error_iff.mp hr)]
      exact .error e
  | ok r =>
      cases hr' : (z.analyze d c').1 with
      | error e =>
          rw [analyze_error_iff.mpr (analyze_error_iff.mp hr')] at hr
          cases hr
      | ok r' =>
          obtain ⟨t, elapsed, ht, rfl⟩ := analyze_ok hr
          obtain ⟨t', elapsed', ht', rfl⟩ := analyze_ok hr'
          have htable : t = t' := Except.ok.inj (ht.symm.trans ht')
          subst htable
          obtain ⟨k, hk, _⟩ := exists_circuit ht
          refine .ok ⟨?_, ?_⟩
          · -- neither prover warns, and the formula is that of the one circuit
            rw [report, report, confirm_warning ht, confirm_warning ht, confirm_eq hk,
              confirm_eq hk]
          · have hnot := confirm_not_refuted (c := c.read.2) ht
            have hnot' := confirm_not_refuted (c := c'.read.2) ht
            cases hp : z.prover with
            | null =>
                refine .inl ?_
                rw [report, report, confirm_eq hk, confirm_eq hk, hp]
                rfl
            | exhaustive timeout => exact .inr ⟨by simp, hnot, hnot'⟩

/-! ## One call -/

/-- Two results of one pattern that differ at most in their analyses, and those agree. -/
structure Compiled.Agrees (b : Batch) (x y : Compiled) : Prop where
  diagram : x.diagram = y.diagram
  resolution : x.resolution = y.resolution
  analysis : Option.Rel (fun r r' => ∃ z, b.analyzer = some z ∧ z.Agree r r') x.analysis y.analysis

namespace Batch

variable {b : Batch} {ps bs : TableSource}

/-- Results that agree, or the same error. -/
inductive Agree (b : Batch) : Except BatchError Compiled → Except BatchError Compiled → Prop where
  | ok {x y : Compiled} (h : x.Agrees b y) : Agree b (.ok x) (.ok y)
  | error (e : BatchError) : Agree b (.error e) (.error e)

/-- What follows when a pattern has been resolved. -/
def finish (b : Batch) (p : Pattern) (found : Resolution × Pattern) (clock : Clock) :
    Except BatchError Compiled :=
  match compile b.options found.2 found.1 with
  | .error e => .error (.structural p.id e)
  | .ok d => .ok ⟨d, found.1, b.analyzer.map fun z => (z.analyze d clock).1⟩

theorem finish_ok (b : Batch) (p : Pattern) (found : Resolution × Pattern) (clock : Clock) :
    ∃ x, b.finish p found clock = .ok x := by
  obtain ⟨d, hd, _⟩ := compile_drawn b.options found.2 found.1
  rw [finish, hd]
  exact ⟨_, rfl⟩

theorem finish_agree (b : Batch) (p : Pattern) (found : Resolution × Pattern) (c c' : Clock) :
    b.Agree (b.finish p found c) (b.finish p found c') := by
  unfold finish
  cases compile b.options found.2 found.1 with
  | error e => exact .error _
  | ok d =>
      refine .ok ⟨rfl, rfl, ?_⟩
      cases hz : b.analyzer with
      | none => exact .none
      | some z => exact .some ⟨z, rfl, z.analyze_agree d c c'⟩

/-- The result of a call, by the tables of two sources. -/
def outcome (b : Batch) (ps bs : TableSource) (id : String) (clock : Clock) :
    Except BatchError Compiled :=
  match b.library.get? id with
  | none => .error (.unknownPattern id)
  | some p => b.finish p ((Resolution.accesses p).answer ps bs) clock

theorem outcome_agree (b : Batch) (ps bs : TableSource) (id : String) (c c' : Clock) :
    b.Agree (b.outcome ps bs id c) (b.outcome ps bs id c') := by
  unfold outcome
  split
  · exact .error _
  · exact b.finish_agree _ _ c c'

/-- Nothing in the library fails to compile. -/
theorem outcome_ok {id : String} (h : id ∈ b.library.ids) (ps bs : TableSource) (clock : Clock) :
    ∃ x, b.outcome ps bs id clock = .ok x := by
  obtain ⟨p, hp, hid⟩ := List.mem_map.mp h
  have hfound : (b.library.get? id).isSome := by
    rw [Library.get?, List.find?_isSome]
    exact ⟨p, hp, by simpa using hid⟩
  obtain ⟨q, hq⟩ := Option.isSome_iff_exists.mp hfound
  rw [outcome, hq]
  exact b.finish_ok q _ clock

theorem report_spec (b : Batch) (d : Diagram) (s : BatchState) :
    (b.report d s).1 = b.analyzer.map (fun z => (z.analyze d s.clock).1)
      ∧ (b.report d s).2.cache = s.cache := by
  unfold report
  cases b.analyzer with
  | none => exact ⟨rfl, rfl⟩
  | some z =>
      dsimp only
      rw [stateM_bind, analyze, Option.map_some]
      cases z.analyze d s.clock
      exact ⟨rfl, rfl⟩

theorem compilePattern_spec (b : Batch) (p : Pattern) {s : BatchState}
    (h : s.cache.ReadFrom ps bs) :
    (b.compilePattern p s).1 = b.finish p ((Resolution.accesses p).answer ps bs) s.clock
      ∧ (b.compilePattern p s).2.cache.ReadFrom ps bs := by
  have hlookups := (Resolution.accesses p).run_answer h
  rw [Resolution.run_accesses] at hlookups
  obtain ⟨hfound, hcache⟩ := hlookups
  rw [← hfound]
  generalize hrun : Resolution.resolve p s.cache = answer at hcache ⊢
  obtain ⟨⟨r, q⟩, cache⟩ := answer
  have hresolve : Batch.resolve p s = ((r, q), { s with cache := cache }) := by
    show ((Resolution.resolve p s.cache).1,
      { s with cache := (Resolution.resolve p s.cache).2 }) = _
    rw [hrun]
  rw [compilePattern, stateM_bind, hresolve, finish]
  dsimp only
  cases compile b.options q r with
  | error e => exact ⟨rfl, hcache⟩
  | ok d =>
      obtain ⟨hanalysis, hkept⟩ := b.report_spec d { s with cache := cache }
      dsimp only
      rw [stateM_bind, hanalysis]
      refine ⟨rfl, ?_⟩
      show TableCache.ReadFrom ps bs (b.report d { s with cache := cache }).2.cache
      rw [hkept]
      exact hcache

/-- **One call**: its result does not depend on what has been read, and neither do later ones. -/
theorem compileOne_spec (b : Batch) (id : String) {s : BatchState} (h : s.cache.ReadFrom ps bs) :
    (b.compileOne id s).1 = b.outcome ps bs id s.clock
      ∧ (b.compileOne id s).2.cache.ReadFrom ps bs := by
  rw [compileOne, outcome]
  cases b.library.get? id with
  | none => exact ⟨rfl, h⟩
  | some p => exact b.compilePattern_spec p h

/-- The answer to a call, whatever was read before and whatever runs beside it: the result of the
same call made alone with tables that nobody has read. With the clock of the call it is the very
result, and with any other clock one that agrees. Within the library nothing fails. -/
structure Answers (b : Batch) (ps bs : TableSource) (id : String) (c : Clock)
    (x : Except BatchError Compiled) : Prop where
  alone : x = (b.compileOne id ⟨.ofSources ps bs, c⟩).1
  agree : ∀ c', b.Agree x (b.compileOne id ⟨.ofSources ps bs, c'⟩).1
  ok : id ∈ b.library.ids → ∃ y, x = .ok y

theorem answers_outcome (b : Batch) (ps bs : TableSource) (id : String) (c : Clock) :
    b.Answers ps bs id c (b.outcome ps bs id c) := by
  have halone : ∀ c', (b.compileOne id ⟨.ofSources ps bs, c'⟩).1 = b.outcome ps bs id c' :=
    fun c' => (b.compileOne_spec id (.fresh ps bs)).1
  refine ⟨(halone c).symm, fun c' => ?_, fun hid => outcome_ok hid ps bs c⟩
  rw [halone]
  exact b.outcome_agree ps bs id c c'

/-- **One call after the other.** -/
theorem compileEach_answers (b : Batch) : ∀ (ids : List String) {s : BatchState},
    s.cache.ReadFrom ps bs →
    List.Forall₂ (fun id entry => entry.1 = id ∧ ∃ c, b.Answers ps bs id c entry.2) ids
      (b.compileEach ids s).1
  | [], _, _ => .nil
  | id :: ids, s, h => by
      obtain ⟨hresult, hcache⟩ := b.compileOne_spec id h
      have hrest := b.compileEach_answers ids hcache
      rw [compileEach, stateM_bind, stateM_bind]
      exact .cons ⟨rfl, s.clock, hresult ▸ b.answers_outcome ps bs id s.clock⟩ hrest

end Batch

end RuleWiring
