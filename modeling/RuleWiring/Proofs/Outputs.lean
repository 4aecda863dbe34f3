import Mathlib
import RuleWiring.Proofs.Calls
import RuleWiring.Proofs.Outcomes
import RuleWiring.Proofs.Writes

/-!
# The files of a batch

The diagrams of a batch are written into one directory, each under the name for its id. They have
separate files exactly if no two of the ids are confused, and then the order in which they are
written does not matter. Of two confused ids the later write takes the file of the earlier one, and
both writes are answered as if nothing had happened.
-/

namespace RuleWiring

/-! ## All diagrams of a batch -/

namespace BatchResults

/-- The diagrams there are, by id. -/
def diagrams (rs : BatchResults) : List (String × Diagram) :=
  rs.filterMap fun (id, r) =>
    match r with
    | .ok c => some (id, c.diagram)
    | .error _ => none

theorem targets_eq (rs : BatchResults) :
    rs.targets = rs.diagrams.map fun c => (outputFileName c.1, c.2) := by
  rw [targets, diagrams, List.map_filterMap]
  refine List.filterMap_congr fun x _ => ?_
  obtain ⟨id, r⟩ := x
  cases r <;> rfl

/-- The files that are to be written. -/
def files (rs : BatchResults) : List (String × String) :=
  rs.diagrams.map fun c => (outputFileName c.1, c.2.toText)

theorem writeText_run (path s : String) (t : FileTree) :
    (FileAccess.writeText path s : StateM FileTree _) t
      = match (Route.ofText path).bind fun r => t.write r s with
        | .ok t' => (.ok (), t')
        | .error e => (.error e, t) := by
  show FileTree.settle ((Route.ofText path).bind fun r => t.write r s) t = _
  cases (Route.ofText path).bind fun r => t.write r s <;> rfl

theorem write_eq_mapM (rs : BatchResults) (directory : String) :
    (rs.write directory : StateM FileTree _) =
      rs.targets.mapM fun c t => t.save (pathIn directory c.1) c.2.toText := by
  refine congrArg (List.mapM · rs.targets) (funext fun c => funext fun t => ?_)
  dsimp only
  rw [stateM_bind, writeText_run, FileTree.save]
  cases (Route.ofText (pathIn directory c.1)).bind fun r => t.write r c.2.toText <;> rfl

theorem write_eq (rs : BatchResults) (directory : String) (t : FileTree) :
    (rs.write directory : StateM FileTree _) t = FileTree.saveAll directory rs.files t := by
  rw [write_eq_mapM, targets_eq, files]
  generalize rs.diagrams = cs
  induction cs generalizing t with
  | nil => rfl
  | cons c cs ih =>
      rw [List.map_cons, List.map_cons, stateM_mapM_cons, ih, FileTree.saveAll]

theorem plain_files (rs : BatchResults) : ∀ f ∈ rs.files, Plain f.1 := by
  intro f hf
  obtain ⟨c, _, rfl⟩ := List.mem_map.mp hf
  exact plain_outputFileName c.1

theorem diagrams_sublist (rs : BatchResults) :
    (rs.diagrams.map Prod.fst).Sublist (rs.map Prod.fst) := by
  induction rs with
  | nil => exact .slnil
  | cons x rs ih =>
      obtain ⟨id, r⟩ := x
      cases r with
      | error e => exact .cons _ ih
      | ok c => exact .cons_cons _ ih

theorem diagrams_perm {rs order : BatchResults} (h : order.Perm rs) :
    order.diagrams.Perm rs.diagrams :=
  h.filterMap _

end BatchResults

theorem pathIn_inj {directory name name' : String} :
    pathIn directory name = pathIn directory name' ↔ name = name' := by
  unfold pathIn
  split_ifs <;> simp

namespace Batch

theorem map_fst_compileEach (b : Batch) (ids : List String) (s : BatchState) :
    (b.compileEach ids s).1.map Prod.fst = ids := by
  induction ids generalizing s with
  | nil => rfl
  | cons id ids ih =>
      rw [compileEach, stateM_bind, stateM_bind]
      exact congrArg (id :: ·) (ih _)

/-- The path of a pattern's file. -/
def pathOf (directory : String) (c : String × Diagram) : String :=
  pathIn directory (outputFileName c.1)

/-- What comes of writing results in their order: the answers, and the tree at the end. -/
structure Written (rs : BatchResults) (directory : String) (t : FileTree)
    (answers : List (Except FileFault String)) (later : FileTree) : Prop where
  /-- Each diagram has an answer, its path or a fault, and it is the one to writing it alone. -/
  alone : List.Forall₂ (fun c answer => answer = (t.save (pathOf directory c) c.2.toText).1
    ∧ (answer = .ok (pathOf directory c) ∨ ∃ e, answer = .error e)) rs.diagrams answers
  /-- A file holds the diagram that was written to it last, so that of confused ids all but one
  have lost theirs. -/
  last {k : Nat} {c : String × Diagram} {path : String} : rs.diagrams[k]? = some c →
    answers[k]? = some (.ok path) →
    (∀ j c', k < j → rs.diagrams[j]? = some c' → ¬ Confused c'.1 c.1) →
    later.readText path = .ok c.2.toText

/-- How the diagrams of a batch are written into a directory. -/
structure Writes (b : Batch) (rs : BatchResults) (directory : String) : Prop where
  /-- There is a result for every pattern, in the order of the library. -/
  results : rs.map Prod.fst = b.library.ids
  /-- The files are distinct exactly if no two of the ids are confused … -/
  distinct : (rs.diagrams.map (pathOf directory)).Nodup ↔
    rs.diagrams.Pairwise fun c c' => ¬ Confused c.1 c'.1
  /-- … which takes an id with an underscore beside an underscore or a slash. -/
  spaced : b.library.ids.Nodup → (∀ id ∈ b.library.ids, Spaced id) →
    (rs.diagrams.map (pathOf directory)).Nodup
  /-- The diagrams may be written in any order … -/
  written (t : FileTree) {order : BatchResults} : order.Perm rs →
    Written order directory t ((order.write directory : StateM FileTree _) t).1
      ((order.write directory : StateM FileTree _) t).2
  /-- … and if their files are distinct, none of them is lost. -/
  kept (t : FileTree) {order : BatchResults} {k : Nat} {c : String × Diagram} {path : String} :
    order.Perm rs → (rs.diagrams.map (pathOf directory)).Nodup → order.diagrams[k]? = some c →
    ((order.write directory : StateM FileTree _) t).1[k]? = some (.ok path) →
    ((order.write directory : StateM FileTree _) t).2.readText path = .ok c.2.toText

theorem nodup_paths_iff (rs : BatchResults) (directory : String) :
    (rs.diagrams.map (pathOf directory)).Nodup ↔
      rs.diagrams.Pairwise fun c c' => ¬ Confused c.1 c'.1 := by
  rw [List.Nodup, List.pairwise_map]
  simp only [pathOf, ne_eq, pathIn_inj, outputFileName_eq_iff]

/-- Distinct ids that can be read back from their names are not confused. -/
theorem nodup_paths_of_spaced {rs : BatchResults} {ids : List String} (hids : rs.map Prod.fst = ids)
    (hnodup : ids.Nodup) (hspaced : ∀ id ∈ ids, Spaced id) (directory : String) :
    (rs.diagrams.map (pathOf directory)).Nodup := by
  have hsub : (rs.diagrams.map Prod.fst).Sublist ids := hids ▸ rs.diagrams_sublist
  have hne : rs.diagrams.Pairwise fun c c' => c.1 ≠ c'.1 :=
    List.pairwise_map.mp (hnodup.sublist hsub)
  have hid : ∀ c ∈ rs.diagrams, Spaced c.1 :=
    fun c hc => hspaced c.1 (hsub.subset (List.mem_map_of_mem hc))
  rw [nodup_paths_iff]
  exact hne.imp_of_mem fun hc hc' hne hconfused =>
    hne ((hid _ hc).eq_of_confused (hid _ hc') hconfused)

theorem write_written (rs : BatchResults) (directory : String) (t : FileTree) :
    Written rs directory t ((rs.write directory : StateM FileTree _) t).1
      ((rs.write directory : StateM FileTree _) t).2 := by
  have hanswers : List.Forall₂ (fun f answer => answer = t.answer directory f.1) rs.files
      (FileTree.saveAll directory rs.files t).1 :=
    FileTree.saveAll_answers rs.plain_files fun _ => rfl
  rw [BatchResults.write_eq]
  refine ⟨?_, fun {k c path} hc hpath hlast => ?_⟩
  · refine (List.forall₂_map_left_iff.mp hanswers).imp fun c answer h => ?_
    have halone : answer = (t.save (pathOf directory c) c.2.toText).1 :=
      h.trans (t.fst_save directory _ (plain_outputFileName c.1)).symm
    exact ⟨halone, halone ▸ t.fst_save_cases _ _⟩
  · have hfile : rs.files[k]? = some (outputFileName c.1, c.2.toText) := by
      rw [BatchResults.files, List.getElem?_map, hc, Option.map_some]
    refine FileTree.readText_saveAll rs.plain_files hfile hpath fun j f hj hf => ?_
    rw [BatchResults.files, List.getElem?_map, Option.map_eq_some_iff] at hf
    obtain ⟨c', hc', rfl⟩ := hf
    exact fun hsame => hlast j c' hj hc' (outputFileName_eq_iff.mp hsame)

/--
**A batch loses no diagram if no two of its ids are confused.**

The results are those of any batch, the tree and the directory are arbitrary, and so is the order in
which the diagrams are written. A result list always has an entry for each diagram, with the path
that belongs to its id. Whether two paths are the same is a matter of the ids alone: it takes two
that exchanging slashes and pairs of underscores leads from one to the other.
-/
theorem compileAll_writes (b : Batch) (s : BatchState) (directory : String) :
    b.Writes (b.compileAll s).1 directory where
  results := b.map_fst_compileEach _ s
  distinct := nodup_paths_iff _ directory
  spaced hnodup hspaced :=
    nodup_paths_of_spaced (b.map_fst_compileEach _ s) hnodup hspaced directory
  written t order _ := write_written order directory t
  kept t order k c path horder hdistinct hc hpath := by
    -- whatever the order, no other diagram has this file, so it is the last one written to it
    have hpairwise : order.diagrams.Pairwise fun c c' => ¬ Confused c.1 c'.1 := by
      rw [← nodup_paths_iff order directory]
      exact ((BatchResults.diagrams_perm horder).map _).nodup_iff.mpr hdistinct
    refine (write_written order directory t).last hc hpath fun j c' hj hc' hconfused => ?_
    obtain ⟨hk, rfl⟩ := List.getElem?_eq_some_iff.mp hc
    obtain ⟨hj', rfl⟩ := List.getElem?_eq_some_iff.mp hc'
    exact List.pairwise_iff_getElem.mp hpairwise k j hk hj' hj hconfused.symm

/-- Two ids with a slash and an underscore between the same words, written last one first. -/
theorem compileAll_writes_words :
    let b : Batch := { library := ⟨[{ id := "software/adapter" }, { id := "software_adapter" }]⟩ }
    let rs := (b.compileAll {}).1
    let t : FileTree := { directories := [["out"]] }
    let order : BatchResults := rs.reverse
    let written : List (Except FileFault String) × FileTree :=
      (order.write "out" : StateM FileTree _) t
    b.library.ids.Nodup ∧ (∀ id ∈ b.library.ids, Spaced id)
      ∧ (rs.diagrams.map (pathOf "out")).Nodup
      ∧ written.1 = [.ok "out/software_adapter.json", .ok "out/software__adapter.json"]
      ∧ ∀ (k : Nat) (c : String × Diagram) (path : String), order.diagrams[k]? = some c →
        written.1[k]? = some (.ok path) → written.2.readText path = .ok c.2.toText := by
  intro b rs t order written
  have hwrites : b.Writes rs "out" := compileAll_writes b {} "out"
  have hids : b.library.ids.Nodup := by decide
  have hspaced : ∀ id ∈ b.library.ids, Spaced id := by decide
  have hdistinct := hwrites.spaced hids hspaced
  exact ⟨hids, hspaced, hdistinct, by decide +kernel, fun _ _ _ hc hpath =>
    hwrites.kept t (List.reverse_perm rs) hdistinct hc hpath⟩

/-- Two ids that a library can have together, with one file for both of them: both writes are
answered with its path. -/
theorem write_confused : ∃ l : Library,
    Library.parse "@flexiarg a/b\n@flexiarg a__b\n" = .ok l
      ∧ l.ids = ["a/b", "a__b"] ∧ outputFileName "a/b" = outputFileName "a__b"
      ∧ let rs := (compileAll { library := l } {}).1
        let written : List (Except FileFault String) × FileTree :=
          (rs.write "" : StateM FileTree _) {}
        rs.diagrams.map Prod.fst = ["a/b", "a__b"]
          ∧ written.1 = [.ok "a__b.json", .ok "a__b.json"]
          ∧ written.2.files.map Prod.fst = [["a__b.json"]] := by
  have hread : (Library.parse "@flexiarg a/b\n@flexiarg a__b\n").map Library.patterns
      = .ok [{ id := "a/b" }, { id := "a__b" }] := by decide +kernel
  obtain ⟨⟨patterns⟩, hl, rfl⟩ := map_eq_ok hread
  exact ⟨_, hl, rfl, by decide, by decide +kernel⟩

end Batch

end RuleWiring
