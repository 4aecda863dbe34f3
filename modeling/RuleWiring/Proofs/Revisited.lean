import Mathlib
import RuleWiring.Proofs.Provenance
import RuleWiring.Proofs.Sessions

/-!
# Patterns resolved again

A resolution may give its pattern a code, and then the next one takes another course: the record
that was found through the bridge table is now found by the pattern's own code. That is all that
changes. A pattern that has been resolved once is at rest: however often it is resolved after
that, the resolution is the same, and the pattern keeps its code.
-/

namespace RuleWiring

/-! ## The course of a resolution is its only one -/

namespace TableCache

variable (c : TableCache) (b : Bool)

/-- Whether the parameter table has been read does not change it, … -/
@[simp] theorem paramsTable_ite_loadParams :
    (if b then c.loadParams else c).paramsTable = c.paramsTable := by
  cases b <;> rfl

/-- … nor the bridge table. -/
@[simp] theorem bridgeTable_ite_loadParams :
    (if b then c.loadParams else c).bridgeTable = c.bridgeTable := by
  cases b <;> rfl

end TableCache

namespace Resolution

variable {c c' : TableCache} {p q : Pattern} {x : Resolution}

theorem own?_eq_none (h : ∀ o, ¬ p.Sets o) : own? p = none :=
  Option.eq_none_iff_forall_ne_some.mpr fun o ho => h o (own?_eq_some_iff.mp ho)

/-- The lookups of a pattern whose own code has led to nothing. -/
theorem resolve_unsettled (h : p.Unsettled c.paramsTable) :
    resolve p c = (bridgeAccesses p).run (if p.code.isSome then c.loadParams else c) := by
  rw [← run_accesses, accesses, own?_eq_none h.sets]
  dsimp only
  cases hcode : p.code with
  | none => rfl
  | some code =>
      have hmiss : c.paramsTable.get? code = none :=
        Option.eq_none_iff_forall_ne_some.mpr fun r hr => h.listed r ⟨code, hcode, hr⟩
      dsimp only
      rw [Access.run_params, hmiss]
      rfl

theorem Course.resolve_eq (h : Course c p x q c') : (resolve p c).1 = (x, q) := by
  cases h with
  | inline hset =>
      rw [← run_accesses, accesses, own?_eq_some_iff.mpr hset]
      rfl
  | table hset hlisted =>
      obtain ⟨code, hcode, hr⟩ := hlisted
      rw [← run_accesses, accesses, own?_eq_none hset, hcode]
      dsimp only
      rw [Access.run_params, hr]
      rfl
  | fallbackTable h hcode hr | missing h hcode hr =>
      rw [resolve_unsettled h, bridgeAccesses, Access.run_bridge,
        TableCache.bridgeTable_ite_loadParams, hcode]
      dsimp only
      rw [Access.run_params, TableCache.paramsTable_loadBridge,
        TableCache.paramsTable_ite_loadParams, hr]
      rfl
  | unknown h hcode =>
      rw [resolve_unsettled h, bridgeAccesses, Access.run_bridge,
        TableCache.bridgeTable_ite_loadParams, hcode]
      rfl

end Resolution

/-! ## Rest -/

/-- The pattern comes with neither parameters nor a code, and the one that the bridge table has for
its id is one that the parameter table knows. -/
structure Pattern.Adopts (p : Pattern) (t : ParameterTable) (b : BridgeTable) : Prop where
  sets : ∀ o, ¬ p.Sets o
  code : p.code = none
  bridged : ∃ r, p.Bridged t b r

/-- A pattern that has been given a code keeps it. -/
theorem Pattern.with_code_eq {p : Pattern} {own code : Exocode} (h : p.code = some own) :
    { p with code := p.code.or (some code) } = p := by
  rw [h, Option.some_or, ← h]

/-- The parameter table does not know the code that the pattern is given. -/
theorem Pattern.Unsettled.missing {p : Pattern} {t : ParameterTable} {code : Exocode}
    (h : p.Unsettled t) (hr : t.get? code = none) :
    Unsettled { p with code := p.code.or (some code) } t := by
  refine ⟨h.sets, fun r ⟨known, hknown, hrecord⟩ => ?_⟩
  dsimp only at hknown
  cases hown : p.code with
  | some own =>
      rw [hown, Option.some_or] at hknown
      exact h.listed r ⟨known, hown.trans hknown, hrecord⟩
  | none =>
      rw [hown, Option.none_or] at hknown
      injection hknown with hknown
      rw [← hknown, hr] at hrecord
      cases hrecord

namespace Resolution

variable {t : ParameterTable} {b : BridgeTable} {c c' : TableCache} {p q : Pattern}
  {x y : Resolution}

/-- In every cache with these tables the pattern is resolved so, and stays as it is. -/
def Rests (t : ParameterTable) (b : BridgeTable) (q : Pattern) (y : Resolution) : Prop :=
  ∀ d : TableCache, d.paramsTable = t → d.bridgeTable = b → (resolve q d).1 = (y, q)

/-- What later resolutions of a pattern have in common with the first. -/
structure Steady (t : ParameterTable) (b : BridgeTable) (p : Pattern) (x y : Resolution) :
    Prop where
  params : y.params = x.params
  code : y.code = x.code
  provenance : y.provenance = x.provenance
    ∨ x.provenance = .fallbackTable ∧ y.provenance = .table
  changes : y.provenance ≠ x.provenance ↔ p.Adopts t b

theorem Steady.refl (h : ¬ p.Adopts t b) (x : Resolution) : Steady t b p x x where
  params := rfl
  code := rfl
  provenance := .inl rfl
  changes := iff_of_false (fun hne => hne rfl) h

/-- **One resolution brings a pattern to rest.** -/
theorem Course.rests (h : Course c p x q c') :
    ∃ y, Rests c.paramsTable c.bridgeTable q y
      ∧ Steady c.paramsTable c.bridgeTable p x y := by
  cases h with
  | inline hset =>
      refine ⟨_, fun d _ _ => (Course.inline (c := d) hset).resolve_eq, .refl (fun h => ?_) _⟩
      exact h.sets _ hset
  | table hset hlisted =>
      refine ⟨_, fun d ht _ => (Course.table (c := d) hset (ht ▸ hlisted)).resolve_eq,
        .refl (fun h => ?_) _⟩
      obtain ⟨code, hcode, _⟩ := hlisted
      rw [h.code] at hcode
      cases hcode
  | @fallbackTable code r h hcode hr =>
      cases hown : p.code with
      | some own =>
          -- the code that the table does not know stays in the way
          rw [← hown, Pattern.with_code_eq hown]
          refine ⟨⟨r, .fallbackTable, some code⟩, fun d ht hb => ?_, .refl (fun h => ?_) _⟩
          · have hagain :=
              (Course.fallbackTable (c := d) (ht ▸ h) (hb ▸ hcode) (ht ▸ hr)).resolve_eq
            rwa [Pattern.with_code_eq hown] at hagain
          · rw [h.code] at hown
            cases hown
      | none =>
          -- this time the record is found by the code that the pattern was given
          refine ⟨⟨r, .table, some code⟩, fun d ht hb => ?_, rfl, rfl, .inr ⟨rfl, rfl⟩, ?_⟩
          · exact (Course.table (c := d) (p := { p with code := some code }) h.sets
              ⟨code, rfl, ht ▸ hr⟩).resolve_eq
          · exact iff_of_true (by simp) ⟨h.sets, hown, r, code, hcode, hr⟩
  | @missing code h hcode hr =>
      refine ⟨_, fun d ht hb => ?_, .refl (fun hadopts => ?_) _⟩
      · have hagain := (Course.missing (c := d) (p := { p with code := p.code.or (some code) })
          (ht ▸ h.missing hr) (hb ▸ hcode) (ht ▸ hr)).resolve_eq
        simpa only [Option.or_assoc, Option.or_self] using hagain
      · obtain ⟨r, hbridged⟩ := hadopts.bridged
        rw [hbridged.get? hcode] at hr
        cases hr
  | unknown h hcode =>
      refine ⟨_, fun d ht hb => (Course.unknown (c := d) (ht ▸ h) (hb ▸ hcode)).resolve_eq,
        .refl (fun hadopts => ?_) _⟩
      obtain ⟨r, code, hsome, _⟩ := hadopts.bridged
      rw [hcode] at hsome
      cases hsome

end Resolution

/-! ## Requests for one pattern -/

namespace Request

variable {ι : Type} [DecidableEq ι] {t : ParameterTable} {b : BridgeTable} {i : ι}

theorem serveAll_resolve (rest : List (Request ι)) (patterns : ι → Pattern) {c c' : TableCache}
    {x : Resolution} {q : Pattern} (h : Resolution.resolve (patterns i) c = ((x, q), c')) :
    (serveAll (.resolve i :: rest) patterns c).1
      = (.resolution x :: (serveAll rest (Function.update patterns i q) c').1.1,
        (serveAll rest (Function.update patterns i q) c').1.2) := by
  show (let after := Resolution.resolve (patterns i) c
    let last := serveAll rest (Function.update patterns i after.1.2) after.2
    (Reply.resolution after.1.1 :: last.1.1, last.1.2)) = _
  rw [h]

/-- A pattern at rest is resolved the same way as often as it is asked for. -/
theorem serveAll_rests {patterns : ι → Pattern} {y : Resolution}
    (h : Resolution.Rests t b (patterns i) y) : ∀ (n : Nat) (c : TableCache), c.paramsTable = t →
      c.bridgeTable = b → (serveAll (List.replicate n (.resolve i)) patterns c).1
        = (List.replicate n (.resolution y), patterns)
  | 0, _, _, _ => rfl
  | n + 1, c, ht, hb => by
      have hcourse := Resolution.course c (patterns i)
      have hfirst := h c ht hb
      generalize hrun : Resolution.resolve (patterns i) c = after at hcourse hfirst
      obtain ⟨first, c'⟩ := after
      dsimp only at hfirst
      subst hfirst
      obtain ⟨ht', hb'⟩ := hcourse.tables_eq
      have hrest := serveAll_rests h n c' (ht'.trans ht) (hb'.trans hb)
      rw [List.replicate_succ, serveAll_resolve _ _ hrun, Function.update_eq_self, hrest]
      rfl

/--
**A pattern is resolved the same way from the second time on.**

Patterns and cache are arbitrary. One pattern is asked for again and again, and is left each time
with the code that the resolution gave it.
-/
theorem serveAll_steady (c : TableCache) (patterns : ι → Pattern) (i : ι) :
    ∃ x y q, Resolution.Steady c.paramsTable c.bridgeTable (patterns i) x y
      ∧ ∀ n, (serveAll (List.replicate (n + 1) (.resolve i)) patterns c).1
        = (.resolution x :: List.replicate n (.resolution y), Function.update patterns i q) := by
  have hcourse := Resolution.course c (patterns i)
  generalize hrun : Resolution.resolve (patterns i) c = after at hcourse
  obtain ⟨⟨x, q⟩, c'⟩ := after
  obtain ⟨y, hrests, hsteady⟩ := hcourse.rests
  obtain ⟨ht, hb⟩ := hcourse.tables_eq
  have hq : Resolution.Rests c.paramsTable c.bridgeTable (Function.update patterns i q i) y := by
    rwa [Function.update_self]
  refine ⟨x, y, q, hsteady, fun n => ?_⟩
  rw [List.replicate_succ, serveAll_resolve _ _ hrun, serveAll_rests hq n c' ht hb]

end Request

end RuleWiring
