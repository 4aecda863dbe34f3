import Mathlib
import RuleWiring.Proofs.Calls

/-!
# Where the parameters of a pattern come from

A resolution takes one of five courses: the pattern decides itself, or its code does, or its id
does, or the bridge table does not know the id, or the parameter table does not know the code that
the bridge table has for it. `Course` lists them, with the pattern and the cache that are left
behind, and everything else is read off that list.
-/

namespace RuleWiring

/-! ## Who has something to say -/

namespace Pattern

/-- The pattern sets parameters itself. A block without any does not count. -/
def Sets (p : Pattern) (o : ParameterOverrides) : Prop := p.inline = some o ∧ o ≠ {}

/-- The table has a record for the code that the pattern came with. -/
def Listed (p : Pattern) (t : ParameterTable) (r : ParameterRecord) : Prop :=
  ∃ code, p.code = some code ∧ t.get? code = some r

/-- The table has a record for the code that the bridge table has for the pattern's id. -/
def Bridged (p : Pattern) (t : ParameterTable) (b : BridgeTable) (r : ParameterRecord) : Prop :=
  ∃ code, b.get? p.id = some code ∧ t.get? code = some r

/-- Neither the pattern nor its code decides, so it is the id's turn. -/
structure Unsettled (p : Pattern) (t : ParameterTable) : Prop where
  sets : ∀ o, ¬ p.Sets o
  listed : ∀ r, ¬ p.Listed t r

variable {p : Pattern} {t : ParameterTable} {b : BridgeTable}

theorem Sets.unique {o o' : ParameterOverrides} (h : p.Sets o) (h' : p.Sets o') : o = o' :=
  Option.some.inj (h.1.symm.trans h'.1)

theorem Listed.unique {r r' : ParameterRecord} (h : p.Listed t r) (h' : p.Listed t r') :
    r = r' := by
  obtain ⟨code, hcode, hr⟩ := h
  obtain ⟨code', hcode', hr'⟩ := h'
  rw [hcode] at hcode'
  injection hcode' with he
  subst he
  exact Option.some.inj (hr.symm.trans hr')

theorem Bridged.get? {r : ParameterRecord} {code : Exocode} (h : p.Bridged t b r)
    (hcode : b.get? p.id = some code) : t.get? code = some r := by
  obtain ⟨code', hcode', hr⟩ := h
  rw [hcode] at hcode'
  injection hcode' with he
  rwa [he]

end Pattern

/-! ## What has been read -/

namespace TableCache

variable (c : TableCache)

@[simp] theorem params_loadParams : c.loadParams.params = some c.paramsTable := rfl

@[simp] theorem bridge_loadParams : c.loadParams.bridge = c.bridge := rfl

@[simp] theorem params_loadBridge : c.loadBridge.params = c.params := rfl

@[simp] theorem bridge_loadBridge : c.loadBridge.bridge = some c.bridgeTable := rfl

@[simp] theorem paramsTable_loadBridge : c.loadBridge.paramsTable = c.paramsTable := rfl

end TableCache

/-! ## The lookups in turn -/

namespace Access

variable {α : Type} (c : TableCache)

theorem run_params (code : Exocode) (k : Option ParameterRecord → Access α) :
    (params code k).run c = (k (c.paramsTable.get? code)).run c.loadParams := rfl

theorem run_bridge (id : String) (k : Option Exocode → Access α) :
    (bridge id k).run c = (k (c.bridgeTable.get? id)).run c.loadBridge := rfl

end Access

/-! ## The five courses -/

namespace Resolution

theorem own?_eq_some_iff {p : Pattern} {o : ParameterOverrides} :
    own? p = some o ↔ p.Sets o := by
  have hempty : o.isEmpty = true ↔ o = {} := by
    cases o
    simp [ParameterOverrides.isEmpty, and_assoc]
  rw [own?, Option.filter_eq_some_iff, Bool.not_eq_true', ← Bool.not_eq_true, hempty, Pattern.Sets]

/-- The pattern and the cache before a resolution; the resolution, the pattern and the cache after
it. -/
inductive Course (c : TableCache) (p : Pattern) : Resolution → Pattern → TableCache → Prop where
  | inline {o : ParameterOverrides} (hset : p.Sets o) :
      Course c p ⟨o.complete, .inline, p.code⟩ p c
  | table {r : ParameterRecord} (hset : ∀ o, ¬ p.Sets o) (hlisted : p.Listed c.paramsTable r) :
      Course c p ⟨r, .table, p.code⟩ p c.loadParams
  | fallbackTable {code : Exocode} {r : ParameterRecord} (h : p.Unsettled c.paramsTable)
      (hcode : c.bridgeTable.get? p.id = some code) (hr : c.paramsTable.get? code = some r) :
      Course c p ⟨r, .fallbackTable, some code⟩ { p with code := p.code.or (some code) }
        c.loadBridge.loadParams
  | missing {code : Exocode} (h : p.Unsettled c.paramsTable)
      (hcode : c.bridgeTable.get? p.id = some code) (hr : c.paramsTable.get? code = none) :
      Course c p ⟨.defaults, .default, p.code.or (some code)⟩
        { p with code := p.code.or (some code) } c.loadBridge.loadParams
  | unknown (h : p.Unsettled c.paramsTable) (hcode : c.bridgeTable.get? p.id = none) :
      Course c p ⟨.defaults, .default, p.code⟩ p
        (if p.code.isSome then c.loadParams else c).loadBridge

theorem course_bridgeAccesses {c before : TableCache} {p : Pattern}
    (h : p.Unsettled c.paramsTable) (hbefore : before = if p.code.isSome then c.loadParams else c) :
    Course c p ((bridgeAccesses p).run before).1.1 ((bridgeAccesses p).run before).1.2
      ((bridgeAccesses p).run before).2 := by
  have hparams : before.paramsTable = c.paramsTable := by
    rw [hbefore]
    split <;> rfl
  have hbridge : before.bridgeTable = c.bridgeTable := by
    rw [hbefore]
    split <;> rfl
  -- the parameter table is read in the end, whether or not it was before
  have hread : before.loadBridge.loadParams = c.loadBridge.loadParams := by
    rw [hbefore]
    split <;> rfl
  rw [bridgeAccesses, Access.run_bridge, hbridge]
  cases hcode : c.bridgeTable.get? p.id with
  | none =>
      rw [hbefore]
      exact .unknown h hcode
  | some code =>
      dsimp only
      rw [Access.run_params, TableCache.paramsTable_loadBridge, hparams, hread]
      cases hr : c.paramsTable.get? code with
      | none => exact .missing h hcode hr
      | some r => exact .fallbackTable h hcode hr

/-- **A resolution takes one of the courses**, whatever has been read before. -/
theorem course (c : TableCache) (p : Pattern) :
    Course c p (resolve p c).1.1 (resolve p c).1.2 (resolve p c).2 := by
  rw [← run_accesses, accesses]
  cases hown : own? p with
  | some o => exact .inline (own?_eq_some_iff.mp hown)
  | none =>
      have hset : ∀ o, ¬ p.Sets o := fun o ho => by
        rw [own?_eq_some_iff.mpr ho] at hown
        cases hown
      dsimp only
      cases hcode : p.code with
      | none =>
          -- nothing is listed for a code that is missing
          refine course_bridgeAccesses ⟨hset, fun r ⟨code, hsome, _⟩ => ?_⟩ (by rw [hcode]; rfl)
          rw [hcode] at hsome
          cases hsome
      | some code =>
          dsimp only
          rw [Access.run_params]
          cases hr : c.paramsTable.get? code with
          | some r =>
              rw [← hcode]
              exact .table hset ⟨code, hcode, hr⟩
          | none =>
              -- the code is there, but the table does not know it
              refine course_bridgeAccesses ⟨hset, fun r ⟨code', hsome, hr'⟩ => ?_⟩
                (by rw [hcode]; rfl)
              rw [hcode] at hsome
              injection hsome with he
              rw [← he, hr] at hr'
              cases hr'

/-! ## Read off the list -/

/-- These are the parameters, and that is where they are said to come from. -/
def Says (x : Resolution) (v : Provenance) (r : ParameterRecord) : Prop :=
  x.provenance = v ∧ x.params = r

namespace Course

variable {c c' : TableCache} {p q : Pattern} {x : Resolution}

theorem inline_iff (h : Course c p x q c') (r : ParameterRecord) :
    x.Says .inline r ↔ ∃ o, p.Sets o ∧ r = o.complete := by
  constructor
  · rintro ⟨hv, rfl⟩
    cases h with
    | inline hset => exact ⟨_, hset, rfl⟩
    | table | fallbackTable | missing | unknown => cases hv
  · rintro ⟨o, ho, rfl⟩
    cases h with
    | inline hset => exact ⟨rfl, by rw [hset.unique ho]⟩
    | table hset _ => exact absurd ho (hset o)
    | fallbackTable h _ _ | missing h _ _ | unknown h _ => exact absurd ho (h.sets o)

theorem table_iff (h : Course c p x q c') (r : ParameterRecord) :
    x.Says .table r ↔ (∀ o, ¬ p.Sets o) ∧ p.Listed c.paramsTable r := by
  constructor
  · rintro ⟨hv, rfl⟩
    cases h with
    | table hset hlisted => exact ⟨hset, hlisted⟩
    | inline | fallbackTable | missing | unknown => cases hv
  · rintro ⟨hset, hr⟩
    cases h with
    | inline ho => exact absurd ho (hset _)
    | table _ hlisted => exact ⟨rfl, hlisted.unique hr⟩
    | fallbackTable h _ _ | missing h _ _ | unknown h _ => exact absurd hr (h.listed r)

theorem fallbackTable_iff (h : Course c p x q c') (r : ParameterRecord) :
    x.Says .fallbackTable r
      ↔ p.Unsettled c.paramsTable ∧ p.Bridged c.paramsTable c.bridgeTable r := by
  constructor
  · rintro ⟨hv, rfl⟩
    cases h with
    | fallbackTable h hcode hr => exact ⟨h, _, hcode, hr⟩
    | inline | table | missing | unknown => cases hv
  · rintro ⟨hu, hbridged⟩
    cases h with
    | inline ho => exact absurd ho (hu.sets _)
    | table _ hlisted => exact absurd hlisted (hu.listed _)
    | fallbackTable _ hcode hr =>
        rw [hbridged.get? hcode] at hr
        exact ⟨rfl, (Option.some.inj hr).symm⟩
    | missing _ hcode hr =>
        rw [hbridged.get? hcode] at hr
        cases hr
    | unknown _ hcode =>
        obtain ⟨code, hsome, _⟩ := hbridged
        rw [hcode] at hsome
        cases hsome

theorem default_iff (h : Course c p x q c') (r : ParameterRecord) :
    x.Says .default r ↔ p.Unsettled c.paramsTable
      ∧ (∀ r', ¬ p.Bridged c.paramsTable c.bridgeTable r') ∧ r = .defaults := by
  constructor
  · rintro ⟨hv, rfl⟩
    cases h with
    | inline | table | fallbackTable => cases hv
    | missing h hcode hr =>
        refine ⟨h, fun r' hbridged => ?_, rfl⟩
        rw [hbridged.get? hcode] at hr
        cases hr
    | unknown h hcode =>
        refine ⟨h, fun r' ⟨code, hsome, _⟩ => ?_, rfl⟩
        rw [hcode] at hsome
        cases hsome
  · rintro ⟨hu, hbridged, rfl⟩
    cases h with
    | inline ho => exact absurd ho (hu.sets _)
    | table _ hlisted => exact absurd hlisted (hu.listed _)
    | fallbackTable _ hcode hr => exact absurd ⟨_, hcode, hr⟩ (hbridged _)
    | missing | unknown => exact ⟨rfl, rfl⟩

theorem pattern_eq (h : Course c p x q c') : q = { p with code := q.code } := by
  cases h <;> rfl

theorem keeps_code (h : Course c p x q c') {code : Exocode} (hcode : p.code = some code) :
    q.code = some code := by
  cases h with
  | inline | table | unknown => exact hcode
  | fallbackTable | missing => simp [hcode]

theorem new_code_iff (h : Course c p x q c') (hnone : p.code = none) (code : Exocode) :
    q.code = some code ↔ p.Unsettled c.paramsTable ∧ c.bridgeTable.get? p.id = some code := by
  cases h with
  | inline ho =>
      rw [hnone]
      exact ⟨nofun, fun h => absurd ho (h.1.sets _)⟩
  | table _ hlisted =>
      rw [hnone]
      exact ⟨nofun, fun h => absurd hlisted (h.1.listed _)⟩
  | fallbackTable hu hcode _ | missing hu hcode _ =>
      rw [hcode, hnone]
      exact ⟨fun h => ⟨hu, h⟩, fun h => h.2⟩
  | unknown _ hcode =>
      rw [hcode, hnone]
      exact ⟨nofun, fun h => absurd h.2 (by simp)⟩

theorem bridge_iff (h : Course c p x q c') :
    c'.bridge.isSome ↔ c.bridge.isSome ∨ p.Unsettled c.paramsTable := by
  cases h with
  | inline ho =>
      have hu : ¬ p.Unsettled c.paramsTable := fun h => h.sets _ ho
      simp [hu]
  | table _ hlisted =>
      have hu : ¬ p.Unsettled c.paramsTable := fun h => h.listed _ hlisted
      simp [hu]
  | fallbackTable hu _ _ | missing hu _ _ | unknown hu _ => simp [hu]

theorem params_iff (h : Course c p x q c') : c'.params.isSome ↔ c.params.isSome
    ∨ (∀ o, ¬ p.Sets o) ∧ (p.code.isSome ∨ (c.bridgeTable.get? p.id).isSome) := by
  cases h with
  | inline ho =>
      have hset : ¬ ∀ o, ¬ p.Sets o := fun h => h _ ho
      simp [hset]
  | table hset hlisted =>
      obtain ⟨code, hcode, _⟩ := hlisted
      simp [hset, hcode]
  | fallbackTable hu hcode _ | missing hu hcode _ => simp [hu.sets, hcode]
  | unknown hu hcode =>
      -- here the table has been read only for a code of the pattern's own
      cases hown : p.code <;> simp [hu.sets, hcode]

theorem cache_of_sets (h : Course c p x q c') {o : ParameterOverrides} (ho : p.Sets o) :
    c' = c := by
  cases h with
  | inline => rfl
  | table hset _ => exact absurd ho (hset o)
  | fallbackTable hu _ _ | missing hu _ _ | unknown hu _ => exact absurd ho (hu.sets o)

theorem bridge_of_table (h : Course c p x q c') (hv : x.provenance = .table) :
    c'.bridge = c.bridge := by
  cases h with
  | table => rfl
  | inline | fallbackTable | missing | unknown => cases hv

theorem tables_eq (h : Course c p x q c') :
    c'.paramsTable = c.paramsTable ∧ c'.bridgeTable = c.bridgeTable := by
  cases h with
  | inline | table | fallbackTable | missing => exact ⟨rfl, rfl⟩
  | unknown => cases p.code <;> exact ⟨rfl, rfl⟩

end Course

/-! ## All of it -/

/-- What a resolution answers, and what it leaves behind. -/
structure Truthful (c : TableCache) (p : Pattern) (x : Resolution) (q : Pattern)
    (c' : TableCache) : Prop where
  /-- The pattern comes first, if it sets anything, … -/
  inline : ∀ r, x.Says .inline r ↔ ∃ o, p.Sets o ∧ r = o.complete
  /-- … then its code, … -/
  table : ∀ r, x.Says .table r ↔ (∀ o, ¬ p.Sets o) ∧ p.Listed c.paramsTable r
  /-- … then its id, … -/
  fallbackTable : ∀ r, x.Says .fallbackTable r
    ↔ p.Unsettled c.paramsTable ∧ p.Bridged c.paramsTable c.bridgeTable r
  /-- … and what is left are the defaults. -/
  default : ∀ r, x.Says .default r ↔ p.Unsettled c.paramsTable
    ∧ (∀ r', ¬ p.Bridged c.paramsTable c.bridgeTable r') ∧ r = .defaults
  /-- Of the pattern nothing but the code changes, … -/
  pattern : q = { p with code := q.code }
  /-- … and not a code that is there. -/
  keeps : ∀ code, p.code = some code → q.code = some code
  /-- A missing code is filled in when it is the id's turn, by what the bridge table has. -/
  gains : p.code = none → ∀ code, q.code = some code
    ↔ p.Unsettled c.paramsTable ∧ c.bridgeTable.get? p.id = some code
  /-- A pattern that sets parameters needs no table, … -/
  untouched : ∀ o, p.Sets o → c' = c
  /-- … and where its code decides, the bridge table is left alone. -/
  unbridged : x.provenance = .table → c'.bridge = c.bridge
  /-- When the bridge table has been read. -/
  bridge : c'.bridge.isSome ↔ c.bridge.isSome ∨ p.Unsettled c.paramsTable
  /-- When the parameter table has been read. -/
  params : c'.params.isSome ↔ c.params.isSome
    ∨ (∀ o, ¬ p.Sets o) ∧ (p.code.isSome ∨ (c.bridgeTable.get? p.id).isSome)
  /-- Whatever has been read, the tables are what they were. -/
  tables : c'.paramsTable = c.paramsTable ∧ c'.bridgeTable = c.bridgeTable

/--
**A resolution tells the truth and reads no more than it needs.**

The cache is arbitrary: its sources may be texts, files or nothing, and any of its tables may have
been read.
-/
theorem resolve_truthful (c : TableCache) (p : Pattern) :
    Truthful c p (resolve p c).1.1 (resolve p c).1.2 (resolve p c).2 := by
  have h := course c p
  generalize resolve p c = after at h ⊢
  obtain ⟨⟨x, q⟩, c'⟩ := after
  exact
    { inline := h.inline_iff
      table := h.table_iff
      fallbackTable := h.fallbackTable_iff
      default := h.default_iff
      pattern := h.pattern_eq
      keeps := fun _ => h.keeps_code
      gains := h.new_code_iff
      untouched := fun _ => h.cache_of_sets
      unbridged := h.bridge_of_table
      bridge := h.bridge_iff
      params := h.params_iff
      tables := h.tables_eq }

end Resolution

end RuleWiring
