import Mathlib
import RuleWiring.Batch.Statistics
import RuleWiring.Proofs.Canonical
import RuleWiring.Proofs.LibraryIndex
import RuleWiring.Proofs.SortedTables

/-!
# Statistics that balance

The statistics of a batch are made in one pass. A failure is counted and passed over; every other
result raises some counters, adds one to an entry of each of up to three sorted tables (`bump`) and
puts a fingerprint into a set. The counters after some results are described by those results
alone (`Counters.of`), and one more result leads from one description to the next. So the pass ends
with the statistics of the batch.

From the description the sums follow, each entry counts something, and the order of the results
does not matter. Different records have different canonical bytes, so the number of fingerprints is
that of the records, as long as no two of the messages that were hashed collide.
-/

namespace RuleWiring

open Bytes

/-- Each of some outcomes is a success or a failure. -/
theorem length_filterMap_toOption {α ε β : Type} (f : α → Except ε β) (l : List α) :
    (l.filterMap fun x => (f x).toOption).length + l.countP (fun x => !(f x).isOk) = l.length := by
  induction l with
  | nil => rfl
  | cons x l ih =>
      rw [List.length_cons, ← ih, List.filterMap_cons, List.countP_cons]
      cases f x with
      | error e => rfl
      | ok b =>
          simp only [Except.toOption, Except.isOk, Except.toBool, List.length_cons]
          simp
          omega

/-! ## The bytes of a record -/

theorem MixMode.name_injective : Function.Injective MixMode.name := by
  intro m m' h
  cases m <;> cases m' <;> first | rfl | exact absurd h (by decide)

/-- Every number has its own width, and the name between them shows where it ends. -/
theorem ParameterRecord.canonicalBytes_injective :
    Function.Injective ParameterRecord.canonicalBytes := by
  rintro ⟨rotation, ⟨threshold⟩, ⟨probability⟩, mode, switch⟩
    ⟨rotation', ⟨threshold'⟩, ⟨probability'⟩, mode', switch'⟩ h
  have hname : ∀ m : MixMode, m.name.utf8ByteSize < 2 ^ 32 := by
    intro m
    cases m <;> decide
  have hreal : ∀ v : UInt64, v.toNat < 256 ^ 8 := fun v => lt_of_lt_of_eq v.toNat_lt (by norm_num)
  have hint : ∀ n : UInt32, n.toNat < 256 ^ 4 := fun n => lt_of_lt_of_eq n.toNat_lt (by norm_num)
  simp only [canonicalBytes, List.append_assoc] at h
  obtain ⟨hrotation, h⟩ := littleEndian_delimits 4 _ _ _ _ (hint _) (hint _) h
  obtain ⟨hthreshold, h⟩ := littleEndian_delimits 8 _ _ _ _ (hreal _) (hreal _) h
  obtain ⟨hprobability, h⟩ := littleEndian_delimits 8 _ _ _ _ (hreal _) (hreal _) h
  obtain ⟨hmode, hswitch⟩ := prefixedText_delimits _ _ _ _ (hname _) (hname _) h
  rw [UInt32.toNat_inj.mp hrotation, UInt64.toNat_inj.mp hthreshold,
    UInt64.toNat_inj.mp hprobability, MixMode.name_injective hmode]
  cases switch <;> cases switch' <;> first | rfl | exact absurd hswitch (by decide)

/-! ## Tables of counts -/

section Tables

variable {α : Type} {before : α → α → Bool} {order values : List α}

/-- A list of all values in the order that a comparison gives them. -/
structure Enumerates (before : α → α → Bool) (order : List α) : Prop where
  asymm : ∀ a b, before a b = true → before b a = false
  increasing : order.Pairwise fun a b => before a b = true
  complete : ∀ a, a ∈ order

theorem Enumerates.nodup (h : Enumerates before order) : order.Nodup :=
  h.increasing.imp fun {a b} hab heq => by
    subst heq
    rw [h.asymm _ _ hab] at hab
    cases hab

variable [DecidableEq α]

/-- Counts a value once more; a value without an entry has been counted never. -/
def bump (before : α → α → Bool) (a : α) (entries : List (α × Nat)) : List (α × Nat) :=
  Sorted.insert before a ((Sorted.get? a entries).getD 0 + 1) entries

theorem bump_same (before : α → α → Bool) (a : α) (n : Nat) (rest : List (α × Nat)) :
    bump before a ((a, n) :: rest) = (a, n + 1) :: rest := by
  rw [bump, Sorted.get?, if_pos rfl, Sorted.insert, if_pos rfl, Option.getD_some]

theorem bump_later {a k : α} (hne : a ≠ k) (hback : before a k = false) (n : Nat)
    (rest : List (α × Nat)) :
    bump before a ((k, n) :: rest) = (k, n) :: bump before a rest := by
  rw [bump, bump, Sorted.get?, if_neg hne, Sorted.insert, if_neg hne, if_neg (by simp [hback])]

/-- A value that comes before all that have an entry gets the first one. -/
theorem bump_new {a : α} {entries : List (α × Nat)}
    (h : ∀ e ∈ entries, a ≠ e.1 ∧ before a e.1 = true) :
    bump before a entries = (a, 1) :: entries := by
  have hnone : Sorted.get? a entries = none := by
    induction entries with
    | nil => rfl
    | cons e rest ih =>
        obtain ⟨⟨hne, _⟩, hrest⟩ := List.forall_mem_cons.mp h
        rw [Sorted.get?, if_neg hne, ih hrest]
  rw [bump, hnone, Option.getD_none]
  cases entries with
  | nil => rfl
  | cons e rest =>
      obtain ⟨hne, hfirst⟩ := h e List.mem_cons_self
      rw [Sorted.insert, if_neg hne, if_pos hfirst]

theorem mem_tally {e : α × Nat} :
    e ∈ tally order values ↔ e.1 ∈ order ∧ 0 < e.2 ∧ values.count e.1 = e.2 := by
  obtain ⟨a, n⟩ := e
  simp only [tally, List.mem_filter, List.mem_map, Prod.mk.injEq, decide_eq_true_iff]
  constructor
  · rintro ⟨⟨b, hb, rfl, rfl⟩, hpos⟩
    exact ⟨hb, hpos, rfl⟩
  · rintro ⟨ha, hpos, hcount⟩
    exact ⟨⟨a, ha, rfl, hcount⟩, hpos⟩

theorem tally_cons (o : α) (order values : List α) :
    tally (o :: order) values = (if 0 < values.count o then [(o, values.count o)] else [])
      ++ tally order values := by
  simp only [tally, List.map_cons, List.filter_cons, decide_eq_true_iff]
  split <;> rfl

theorem count_concat_of_ne {a b : α} (h : a ≠ b) : (values ++ [a]).count b = values.count b := by
  simp [List.count_append, h]

/-- A value that is not listed is not counted. -/
theorem tally_concat_of_notMem {a : α} (ha : a ∉ order) :
    tally order (values ++ [a]) = tally order values := by
  rw [tally, tally]
  congr 1
  refine List.map_congr_left fun b hb => ?_
  have hab : a ≠ b := fun hab => ha (hab ▸ hb)
  rw [count_concat_of_ne hab]

/-- **Counting one value more** is adding one to its entry. The induction is on the list that
orders the entries, of which those of values that do not occur are missing. -/
theorem tally_concat (hasymm : ∀ a b, before a b = true → before b a = false) {a : α}
    (horder : order.Pairwise fun a b => before a b = true) (ha : a ∈ order) :
    tally order (values ++ [a]) = bump before a (tally order values) := by
  induction order with
  | nil => cases ha
  | cons o order ih =>
      obtain ⟨ho, horder⟩ := List.pairwise_cons.mp horder
      have hne : ∀ b ∈ order, o ≠ b := by
        rintro b hb rfl
        exact absurd (ho o hb) (by simp [hasymm o o (ho o hb)])
      rw [tally_cons, tally_cons]
      by_cases hao : a = o
      · -- the entry comes first, or would come before all others
        subst hao
        rw [tally_concat_of_notMem fun hmem => hne a hmem rfl, List.count_append,
          List.count_singleton_self, if_pos (Nat.succ_pos _)]
        split
        · exact (bump_same ..).symm
        · rename_i hzero
          rw [Nat.eq_zero_of_not_pos hzero]
          refine (bump_new fun e he => ?_).symm
          exact ⟨hne _ (mem_tally.mp he).1, ho _ (mem_tally.mp he).1⟩
      · -- the first entry stays, if there is one
        have hmem : a ∈ order := (List.mem_cons.mp ha).resolve_left hao
        rw [ih horder hmem, count_concat_of_ne hao]
        split
        · exact (bump_later hao (hasymm _ _ (ho a hmem)) ..).symm
        · rfl

theorem Enumerates.tally_concat (h : Enumerates before order) (values : List α) (a : α) :
    tally order (values ++ [a]) = bump before a (tally order values) :=
  RuleWiring.tally_concat h.asymm h.increasing (h.complete a)

/-- The entries sum up to the number of values. -/
theorem Enumerates.sum_tally (h : Enumerates before order) (values : List α) :
    ((tally order values).map Prod.snd).sum = values.length := by
  -- the entries that are missing are zero
  have hzeros : ∀ order : List α,
      ((tally order values).map Prod.snd).sum = (order.map (values.count ·)).sum := by
    intro order
    induction order with
    | nil => rfl
    | cons o order ih =>
        rw [tally_cons, List.map_append, List.sum_append, ih, List.map_cons, List.sum_cons]
        split
        · simp
        · rename_i hzero
          simp [Nat.eq_zero_of_not_pos hzero]
  calc ((tally order values).map Prod.snd).sum
      = ∑ a ∈ order.toFinset, values.count a := by rw [hzeros, List.sum_toFinset _ h.nodup]
    _ = values.length := by
        simpa using Multiset.sum_count_eq_card (s := order.toFinset) (m := (values : Multiset α))
          fun a _ => List.mem_toFinset.mpr (h.complete a)

theorem tally_perm {values' : List α} (h : values.Perm values') :
    tally order values = tally order values' := by
  simp only [tally, h.count_eq]

theorem length_eraseDups (l : List α) : l.eraseDups.length = l.toFinset.card := by
  induction l using List.reverseRecOn with
  | nil => rfl
  | append_singleton l a ih =>
      rw [eraseDups_concat, List.toFinset_append]
      split
      · rename_i ha
        rw [ih, Finset.union_eq_left.mpr (by simpa using ha)]
      · rename_i ha
        rw [List.length_append, ih, Finset.card_union_of_disjoint (by simpa using ha)]
        rfl

end Tables

/-! ## The three orders -/

/-- One value comes before another in a list. -/
def listedBefore {α : Type} [DecidableEq α] (order : List α) (a b : α) : Bool :=
  order.idxOf a < order.idxOf b

def Provenance.before : Provenance → Provenance → Bool := listedBefore Provenance.all

/-- Modes are ordered by name. -/
def MixMode.before (a b : MixMode) : Bool := a.name < b.name

def DynamicalClass.before : DynamicalClass → DynamicalClass → Bool :=
  listedBefore DynamicalClass.all

theorem listedBefore_asymm {α : Type} [DecidableEq α] (order : List α) (a b : α)
    (h : listedBefore order a b = true) : listedBefore order b a = false := by
  simp only [listedBefore, decide_eq_true_iff, decide_eq_false_iff_not] at h ⊢
  omega

theorem Provenance.enumerates : Enumerates Provenance.before Provenance.all where
  asymm := listedBefore_asymm _
  increasing := by decide
  complete p := by cases p <;> decide

theorem MixMode.enumerates : Enumerates MixMode.before MixMode.byName where
  asymm a b h := by
    simp only [before, decide_eq_true_iff, decide_eq_false_iff_not] at h ⊢
    exact String.lt_asymm h
  increasing := by decide
  complete m := by cases m <;> decide

theorem DynamicalClass.enumerates : Enumerates DynamicalClass.before DynamicalClass.all where
  asymm := listedBefore_asymm _
  increasing := by decide
  complete c := by cases c <;> decide

/-! ## The pass -/

/-- What has been counted so far. -/
structure Counters where
  compiled : Nat := 0
  failed : Nat := 0
  byProvenance : List (Provenance × Nat) := []
  byMixMode : List (MixMode × Nat) := []
  byClass : List (DynamicalClass × Nat) := []
  analysisFailures : Nat := 0
  fingerprints : Finset Fingerprint := ∅

namespace Counters

/-- Counts an analysis, if one was tried. -/
def addAnalysis (k : Counters) : Option (Except EvalError Analysis) → Counters
  | none => k
  | some (.ok a) => { k with byClass := bump DynamicalClass.before a.dynamicalClass k.byClass }
  | some (.error _) => { k with analysisFailures := k.analysisFailures + 1 }

/-- Counts a result. Of a failure nothing else is counted. -/
def add (k : Counters) : Except BatchError Compiled → Counters
  | .error _ => { k with failed := k.failed + 1 }
  | .ok c =>
      { k with
        compiled := k.compiled + 1
        byProvenance := bump Provenance.before c.resolution.provenance k.byProvenance
        byMixMode := bump MixMode.before c.resolution.params.mixMode k.byMixMode
        fingerprints := insert c.resolution.params.fingerprint k.fingerprints
        : Counters }.addAnalysis c.analysis

def statistics (k : Counters) (total : Nat) : BatchStatistics :=
  { total := total
    compiled := k.compiled
    failed := k.failed
    byProvenance := k.byProvenance
    byMixMode := k.byMixMode
    byClass := k.byClass
    analysisFailures := k.analysisFailures
    distinctRecords := k.fingerprints.card }

end Counters

namespace BatchResults

/-- The statistics, counted result by result. -/
def collect (rs : BatchResults) : BatchStatistics :=
  (rs.foldl (fun (k : Counters) r => k.add r.2) {}).statistics rs.length

/-- The records of the patterns that were compiled. -/
def records (rs : BatchResults) : List ParameterRecord := rs.compiled.map (·.resolution.params)

/-- The analyses that succeeded. -/
def reports (rs : BatchResults) : List Analysis := rs.analyses.filterMap (·.toOption)

end BatchResults

namespace Counters

/-- What has been counted after some results. -/
def of (rs : BatchResults) : Counters :=
  { compiled := rs.compiled.length
    failed := rs.countP fun r => !r.2.isOk
    byProvenance := tally Provenance.all (rs.compiled.map (·.resolution.provenance))
    byMixMode := tally MixMode.byName (rs.records.map (·.mixMode))
    byClass := tally DynamicalClass.all (rs.reports.map (·.dynamicalClass))
    analysisFailures := rs.analyses.countP fun a => !a.isOk
    fingerprints := (rs.records.map (·.fingerprint)).toFinset }

/-- **One result more.** -/
theorem of_concat (rs : BatchResults) (r : String × Except BatchError Compiled) :
    of (rs ++ [r]) = (of rs).add r.2 := by
  obtain ⟨id, e | c⟩ := r
  · simp [of, add, BatchResults.records, BatchResults.reports, BatchResults.analyses,
      BatchResults.compiled, Except.toOption, Except.isOk, Except.toBool]
  · obtain ⟨d, resolution, analysis⟩ := c
    have hset : ∀ (l : List Fingerprint) (f : Fingerprint),
        (l ++ [f]).toFinset = insert f l.toFinset := by simp
    have hresults : (rs ++ [(id, .ok ⟨d, resolution, analysis⟩)] : BatchResults).compiled
        = rs.compiled ++ [⟨d, resolution, analysis⟩] := by
      simp [BatchResults.compiled, Except.toOption]
    have hanalyses : (rs ++ [(id, .ok ⟨d, resolution, analysis⟩)] : BatchResults).analyses
        = rs.analyses ++ analysis.toList := by
      rw [BatchResults.analyses, hresults, List.filterMap_append, BatchResults.analyses]
      cases analysis <;> rfl
    have hfailed : (rs ++ [(id, .ok ⟨d, resolution, analysis⟩)] : BatchResults).countP
        (fun r => !r.2.isOk) = rs.countP (fun r => !r.2.isOk) := by
      simp [Except.isOk, Except.toBool]
    simp only [of, add, BatchResults.records, BatchResults.reports, hresults, hanalyses, hfailed,
      List.map_append, List.map_cons, List.map_nil, List.length_append, List.length_singleton,
      Provenance.enumerates.tally_concat, MixMode.enumerates.tally_concat, hset]
    rcases analysis with _ | e | a
    · simp [addAnalysis]
    · simp [addAnalysis, Except.toOption, Except.isOk, Except.toBool]
    · simp [addAnalysis, Except.toOption, Except.isOk, Except.toBool,
        DynamicalClass.enumerates.tally_concat]

/-- **All results.** -/
theorem run_of (rs : BatchResults) :
    rs.foldl (fun (k : Counters) r => k.add r.2) {} = of rs := by
  induction rs using List.reverseRecOn with
  | nil => rfl
  | append_singleton rs r ih => rw [List.foldl_concat, ih, of_concat]

end Counters

/-! ## What the statistics say -/

namespace BatchResults

/-- The messages that are hashed for the records have different hashes if they are different. -/
def CollisionFree (rs : BatchResults) : Prop :=
  ∀ x ∈ rs.records, ∀ y ∈ rs.records,
    let m := Fingerprint.message Fingerprint.parameterDomain x.canonicalBytes
    let m' := Fingerprint.message Fingerprint.parameterDomain y.canonicalBytes
    Sha256.hash m = Sha256.hash m' → m = m'

/-- How the statistics of some results hang together. -/
structure Balanced (rs : BatchResults) (s : BatchStatistics) : Prop where
  total : s.total = rs.length
  outcomes : s.total = s.compiled + s.failed
  failed : s.failed = rs.countP fun r => !r.2.isOk
  provenances : (s.byProvenance.map Prod.snd).sum = s.compiled
  mixModes : (s.byMixMode.map Prod.snd).sum = s.compiled
  /-- An analysis that was tried has succeeded, and then has a class, or failed. -/
  classes : (s.byClass.map Prod.snd).sum + s.analysisFailures
    = rs.compiled.countP (·.analysis.isSome)
  analysisFailures : s.analysisFailures = rs.analyses.countP fun a => !a.isOk
  /-- An entry has the exact number, which is not zero. -/
  byProvenance : ∀ a n, (a, n) ∈ s.byProvenance
    ↔ 0 < n ∧ rs.compiled.countP (fun c => c.resolution.provenance = a) = n
  byMixMode : ∀ a n, (a, n) ∈ s.byMixMode
    ↔ 0 < n ∧ rs.compiled.countP (fun c => c.resolution.params.mixMode = a) = n
  byClass : ∀ a n, (a, n) ∈ s.byClass
    ↔ 0 < n ∧ rs.reports.countP (fun r => r.dynamicalClass = a) = n
  /-- Records are different if they differ in a bit. -/
  distinct : rs.CollisionFree → s.distinctRecords = rs.records.toFinset.card

variable {rs : BatchResults}

theorem collect_eq (rs : BatchResults) : rs.collect = rs.statistics := by
  rw [collect, Counters.run_of]
  simp only [Counters.of, Counters.statistics, BatchResults.statistics, records, reports,
    length_eraseDups, List.map_map]
  rfl

theorem CollisionFree.card_fingerprints (h : rs.CollisionFree) :
    (rs.records.map (·.fingerprint)).toFinset.card = rs.records.toFinset.card := by
  have himage : (rs.records.map (·.fingerprint)).toFinset
      = rs.records.toFinset.image (·.fingerprint) := by
    ext f
    simp
  rw [himage]
  refine Finset.card_image_of_injOn fun x hx y hy hxy => ?_
  have hx : x ∈ rs.records := List.mem_toFinset.mp hx
  have hy : y ∈ rs.records := List.mem_toFinset.mp hy
  have hhash := congrArg Fingerprint.bytes hxy
  exact ParameterRecord.canonicalBytes_injective
    (Fingerprint.message_injective _ (h x hx y hy hhash))

theorem mem_tally_map {α β : Type} [DecidableEq β] {before : β → β → Bool} {order : List β}
    (h : Enumerates before order) (f : α → β) (l : List α) (b : β) (n : Nat) :
    (b, n) ∈ tally order (l.map f) ↔ 0 < n ∧ l.countP (fun x => f x = b) = n := by
  rw [mem_tally, List.count_eq_countP, List.countP_map]
  exact ⟨And.right, fun hn => ⟨h.complete b, hn⟩⟩

theorem balanced (rs : BatchResults) : rs.Balanced rs.statistics := by
  have hstatistics : rs.statistics = (Counters.of rs).statistics rs.length := by
    rw [← Counters.run_of, ← collect, collect_eq]
  rw [hstatistics]
  have htried := length_filterMap_toOption id rs.analyses
  exact {
    total := rfl
    outcomes := (length_filterMap_toOption Prod.snd rs).symm
    failed := rfl
    provenances := (Provenance.enumerates.sum_tally _).trans (List.length_map _)
    mixModes := by
      refine (MixMode.enumerates.sum_tally _).trans ?_
      rw [List.length_map, records, List.length_map]
      rfl
    classes := by
      refine Eq.trans (congrArg (· + _) (DynamicalClass.enumerates.sum_tally _)) ?_
      rw [List.length_map]
      refine htried.trans ?_
      rw [analyses, List.length_filterMap_eq_countP]
    analysisFailures := rfl
    byProvenance := mem_tally_map Provenance.enumerates _ _
    byMixMode a n := by
      rw [← mem_tally_map MixMode.enumerates (fun c : Compiled => c.resolution.params.mixMode)]
      simp only [Counters.of, Counters.statistics, records, List.map_map]
      rfl
    byClass := mem_tally_map DynamicalClass.enumerates _ _
    distinct := CollisionFree.card_fingerprints }

/-- The order of the results does not matter. -/
theorem statistics_perm {rs rs' : BatchResults} (h : rs.Perm rs') :
    rs'.statistics = rs.statistics := by
  have hcompiled : rs.compiled.Perm rs'.compiled := h.filterMap _
  have hanalyses : rs.analyses.Perm rs'.analyses := hcompiled.filterMap _
  have hresolutions := hcompiled.map (·.resolution)
  simp only [statistics, length_eraseDups]
  rw [h.length_eq, hcompiled.length_eq, h.countP_eq, hanalyses.countP_eq,
    tally_perm (hresolutions.map _), tally_perm (hresolutions.map _),
    tally_perm ((hanalyses.filterMap _).map _),
    List.toFinset_eq_of_perm _ _ (hresolutions.map (·.params.fingerprint))]

/--
**The statistics of a batch balance, and the order of the results does not matter.**

The results are any: failures and successes, with or without an analysis, which may itself have
failed. Every sum comes out, every entry of a table counts something, and counts it exactly. The
number of distinct records is the number of records that differ in a bit, provided that no two of
the messages that were hashed for them collide. Counting result by result gives the same
statistics, and so does any other order.
-/
theorem statistics_balanced (rs : BatchResults) :
    rs.Balanced rs.statistics ∧ rs.collect = rs.statistics
      ∧ ∀ rs' : BatchResults, rs.Perm rs' → rs'.statistics = rs.statistics :=
  ⟨balanced rs, collect_eq rs, fun _ => statistics_perm⟩

/-- Three patterns with two different records, of which one was not analysed, one could not be and
one was, and a fourth pattern that failed. -/
theorem statistics_balanced_mixed :
    let analysed (mode : EvalMode) := (Analyzer.analyze ⟨mode, .null⟩ Sketch.gatedDiagram .still).1
    let p : ParameterRecord := { mixMode := .majority }
    let rs : BatchResults :=
      [("tide", .ok ⟨Sketch.gatedDiagram, { params := p, provenance := .inline }, none⟩),
        ("gate", .error (.unknownPattern "gate")),
        ("drift", .ok ⟨Sketch.gatedDiagram, {}, some (analysed .strict)⟩),
        ("ebb", .ok ⟨Sketch.gatedDiagram, { params := p }, some (analysed .lifted)⟩)]
    let back : BatchResults := rs.reverse
    rs.CollisionFree ∧ rs.statistics.distinctRecords = 2
      ∧ rs.statistics.compiled + rs.statistics.failed = 4
      ∧ (rs.statistics.byClass.map Prod.snd).sum + rs.statistics.analysisFailures = 2
      ∧ back.map Prod.fst = ["ebb", "drift", "gate", "tide"]
      ∧ back.statistics = rs.statistics := by
  intro analysed p rs back
  have hne : Sha256.hash (Fingerprint.message Fingerprint.parameterDomain p.canonicalBytes)
      ≠ Sha256.hash (Fingerprint.message Fingerprint.parameterDomain
        ParameterRecord.defaults.canonicalBytes) := by
    decide +kernel
  have htwo : ∀ x ∈ rs.records, x = p ∨ x = .defaults := by
    have hrecords : rs.records = [p, .defaults, p] := rfl
    simp [hrecords]
  have hfree : rs.CollisionFree := by
    intro x hx y hy
    rcases htwo x hx with rfl | rfl <;> rcases htwo y hy with rfl | rfl
    · exact fun _ => rfl
    · exact fun h => absurd h hne
    · exact fun h => absurd h.symm hne
    · exact fun _ => rfl
  obtain ⟨hbalanced, -, hperm⟩ := statistics_balanced rs
  exact ⟨hfree, hbalanced.distinct hfree, hbalanced.outcomes.symm, hbalanced.classes, rfl,
    hperm back (List.reverse_perm rs).symm⟩

end BatchResults

end RuleWiring
