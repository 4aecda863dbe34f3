import Mathlib
import RuleWiring.Proofs.Blocks
import RuleWiring.Proofs.Provenance
import RuleWiring.Proofs.Snapshot

/-!
# Reals that texts can bring in

The reals of a pattern's parameters come from its own block, from a row of the parameter table or
from the defaults. Whatever numerals the texts have, `nan` and `inf` and numbers of any size among
them, all these reals are finite and lie between zero and one. A resolution takes its record from
one of these places and writes no more than a code onto the pattern, so no number of them brings in
other reals.
-/

namespace RuleWiring

/-! ## Finite numbers from zero to one -/

/-- A proportion: zero, one, or a finite number between them. Zero may have either sign. -/
structure Binary64.Proportion (x : Binary64) : Prop where
  nonneg : zero.le x = true
  le_one : x.le one = true
  finite : x.isFinite = true
  isNumber : x.isNaN = false

/-- A number that is not below zero and not above one is finite, as its word is not above that of
one. -/
theorem Binary64.InUnit.proportion {x : Binary64} (h : x.InUnit) : x.Proportion := by
  obtain ⟨hnan, hzero, hone⟩ := h
  have hkeys : zero.isNaN = false ∧ one.isNaN = false ∧ zero.key = 0
      ∧ one.key = 1023 * 2 ^ 52 ∧ infiniteWord = 2047 * 2 ^ 52 := by decide +kernel
  obtain ⟨hzeroNaN, honeNaN, hzeroKey, honeKey, hinfinite⟩ := hkeys
  have hlow : 0 ≤ x.key := by simpa [lt, hnan, hzeroNaN, hzeroKey] using hzero
  have hhigh : x.key ≤ 1023 * 2 ^ 52 := by simpa [lt, hnan, honeNaN, honeKey] using hone
  have hword : x.word < infiniteWord := by
    rw [hinfinite]
    unfold key at hlow hhigh
    cases hsign : x.isNegative with
    | true =>
        rw [if_pos hsign] at hlow
        omega
    | false =>
        rw [if_neg (by simp [hsign])] at hhigh
        omega
  refine ⟨?_, ?_, decide_eq_true hword, hnan⟩
  · simpa [le, hnan, hzeroNaN, hzeroKey] using hlow
  · simpa [le, hnan, honeNaN, honeKey] using hhigh

/-! ## Blocks of patterns -/

/-- The reals that are set. -/
def ParameterOverrides.reals (o : ParameterOverrides) : List Binary64 :=
  o.matchThreshold.toList ++ o.updateProbability.toList

theorem ParameterOverrides.InUnit.reals {o : ParameterOverrides} (h : o.InUnit) {x : Binary64}
    (hx : x ∈ o.reals) : x.InUnit := by
  rcases List.mem_append.mp hx with hx | hx
  · exact h.matchThreshold x (Option.mem_toList.mp hx)
  · exact h.updateProbability x (Option.mem_toList.mp hx)

/-- The reals that a pattern sets itself lie in the unit interval. -/
def Pattern.InUnit (p : Pattern) : Prop := ∀ o, p.inline = some o → o.InUnit

namespace Library

theorem SetsAll.inUnit {o o' : ParameterOverrides} {vs : List String} (h : SetsAll o vs o')
    (ho : o.InUnit) : o'.InUnit := by
  induction h with
  | nil => exact ho
  | cons _ hset _ ih => exact ih (ho.set hset)

theorem Block.Describes.inUnit {b : Block} {p : Pattern} (h : b.Describes p) : p.InUnit := by
  intro o ho
  obtain ⟨vs, _, ⟨_, hnone⟩ | ⟨_, o', hsets, hsome⟩⟩ := h.inline
  · rw [ho] at hnone
    cases hnone
  · rw [ho] at hsome
    injection hsome with hsome
    exact hsome ▸ hsets.inUnit ParameterOverrides.inUnit_empty

theorem inUnit_of_parse {text : String} {l : Library} (h : parse text = .ok l) {p : Pattern}
    (hp : p ∈ l.patterns) : p.InUnit := by
  obtain ⟨_, _, _, hblocks⟩ := exists_blocks h
  obtain ⟨b, _, hdescribes⟩ := exists_of_forall₂ hblocks.flip p hp
  exact Block.Describes.inUnit hdescribes

end Library

/-! ## Resolutions -/

namespace Resolution

variable {c c' : TableCache} {p q : Pattern} {x : Resolution}

/-- Wherever a record comes from, its reals lie in the unit interval. -/
theorem Course.inUnit (h : Course c p x q c') (hp : p.InUnit)
    (hc : ∀ v ∈ c.paramsTable.reals, v.InUnit) : ∀ v ∈ x.params.reals, v.InUnit := by
  intro v hv
  cases h with
  | inline hset => exact (hp _ hset.1).complete v hv
  | table _ hlisted =>
      obtain ⟨code, _, hr⟩ := hlisted
      exact hc v (ParameterTable.mem_reals hr hv)
  | fallbackTable _ _ hr => exact hc v (ParameterTable.mem_reals hr hv)
  | missing | unknown => exact ParameterOverrides.inUnit_empty.complete v hv

theorem Course.pattern_inUnit (h : Course c p x q c') (hp : p.InUnit) : q.InUnit := by
  rw [h.pattern_eq]
  exact hp

end Resolution

/-! ## Sessions -/

/-- A record found for a pattern has its reals in the unit interval. -/
def Reply.InUnit (reply : Reply) : Prop :=
  ∀ x, reply = .resolution x → ∀ v ∈ x.params.reals, v.InUnit

namespace Request

variable {ι : Type} [DecidableEq ι] {patterns : ι → Pattern} {c : TableCache}

/-- No real outside of the unit interval is to be found, neither with the patterns nor in the
parameter table. -/
structure Bounded (patterns : ι → Pattern) (c : TableCache) : Prop where
  patterns : ∀ i, (patterns i).InUnit
  table : ∀ v ∈ c.paramsTable.reals, v.InUnit

/-- **No request brings in a real from outside.** -/
theorem Bounded.serve (h : Bounded patterns c) (q : Request ι) :
    (q.serve patterns c).1.1.InUnit ∧ Bounded (q.serve patterns c).1.2 (q.serve patterns c).2 := by
  cases q with
  | resolve i =>
      have hcourse := Resolution.course c (patterns i)
      refine ⟨fun x hx => ?_, fun j => ?_, ?_⟩
      · injection hx with hx
        exact hx ▸ hcourse.inUnit (h.patterns i) h.table
      · show (Function.update patterns i _ j).InUnit
        by_cases hj : j = i
        · rw [hj, Function.update_self]
          exact hcourse.pattern_inUnit (h.patterns i)
        · rw [Function.update_of_ne hj]
          exact h.patterns j
      · show ∀ v ∈ (Resolution.resolve (patterns i) c).2.paramsTable.reals, v.InUnit
        rw [hcourse.tables_eq.1]
        exact h.table
  | resolveId id inline =>
      have hcourse := Resolution.course c { id := id, inline := inline }
      refine ⟨nofun, h.patterns, ?_⟩
      show ∀ v ∈ (Resolution.resolve { id := id, inline := inline } c).2.paramsTable.reals, v.InUnit
      rw [hcourse.tables_eq.1]
      exact h.table

theorem Bounded.serveAll : ∀ (requests : List (Request ι)) {patterns : ι → Pattern}
    {c : TableCache}, Bounded patterns c →
      ∀ reply ∈ (Request.serveAll requests patterns c).1.1, reply.InUnit
  | [], _, _, _, _, hmem => absurd hmem List.not_mem_nil
  | q :: rest, _, _, h, reply, hmem => by
      obtain ⟨hreply, hafter⟩ := h.serve q
      rcases List.mem_cons.mp hmem with rfl | hmem
      · exact hreply
      · exact hafter.serveAll rest reply hmem

end Request

/-! ## Texts -/

namespace Library

/-- What is known of the reals of a library and of what a cache has for it. -/
structure Proportionate (l : Library) (c : TableCache) : Prop where
  /-- The reals that a block sets, … -/
  blocks : ∀ p ∈ l.patterns, ∀ o, p.inline = some o → ∀ v ∈ o.reals, v.Proportion
  /-- … those of the record that a pattern is resolved to, … -/
  records : ∀ p ∈ l.patterns, ∀ v ∈ (Resolution.resolve p c).1.1.params.reals, v.Proportion
  /-- … and those of the records found later on, by when other requests have left codes on the
  patterns and have had tables read. -/
  sessions : ∀ (requests : List (Request (Fin l.patterns.length))) x,
    .resolution x ∈ (Request.serveAll requests l.patterns.get c).1.1 →
      ∀ v ∈ x.params.reals, v.Proportion

/--
**Texts bring in proportions only**, whatever their numerals are.

The library comes from any text that is accepted, and the tables from any texts or files, whether
or not the cache has read them yet.
-/
theorem proportionate_of_parse {text : String} {l : Library} (h : parse text = .ok l)
    {ps bs : TableSource} {c : TableCache} (hc : c.ReadFrom ps bs) : l.Proportionate c where
  blocks _ hp _ ho _ hv := ((inUnit_of_parse h hp _ ho).reals hv).proportion
  records p hp v hv :=
    ((Resolution.course c p).inUnit (inUnit_of_parse h hp) hc.fromText.inUnit v hv).proportion
  sessions requests x hx v hv := by
    have hbounded : Request.Bounded l.patterns.get c :=
      ⟨fun i => inUnit_of_parse h (List.get_mem l.patterns i), hc.fromText.inUnit⟩
    exact (hbounded.serveAll requests _ hx x rfl v hv).proportion

/-- A block with reals that are none or far too large, one with a code, and one whose id leads to
this code. -/
def unruly : String :=
  "@flexiarg a\n@param match-threshold nan\n@param update-probability 1e999\n"
    ++ "@flexiarg b\n@bits 00000001\n@flexiarg c\n"

/-- A row has an infinite and a negative real for the code. -/
def unrulyTables : TableCache :=
  .ofSources (.text "00000001\t0\tinf\t-7\tnone\tno\n") (.text "c\tC\t00000001\n")

theorem proportionate_of_parse_unruly : ∃ l, parse unruly = .ok l
    ∧ l.patterns.map (fun p => (Resolution.resolve p unrulyTables).1.1.params.reals)
      = [[.zero, .one], [.one, .zero], [.one, .zero]]
    ∧ l.Proportionate unrulyTables := by
  have hread : (parse unruly).map (fun l => l.patterns.map fun p =>
      (Resolution.resolve p unrulyTables).1.1.params.reals)
        = .ok [[.zero, .one], [.one, .zero], [.one, .zero]] := by
    decide +kernel
  obtain ⟨l, hl, hreals⟩ := map_eq_ok hread
  exact ⟨l, hl, hreals, proportionate_of_parse hl (.fresh _ _)⟩

end Library

end RuleWiring
