import Mathlib
import RuleWiring.Proofs.Changes
import RuleWiring.Proofs.SortedTables

/-!
# Tables from texts

Whatever stands in a text, the tables read from it are sorted, and the reals of their records
lie in the unit interval. Both hold of the empty table, and no row changes that.
-/

namespace RuleWiring

/-! ## Partial sets -/

namespace ParameterOverrides

/-- The reals that are set lie in the unit interval. -/
structure InUnit (o : ParameterOverrides) : Prop where
  matchThreshold : ∀ x ∈ o.matchThreshold, x.InUnit
  updateProbability : ∀ x ∈ o.updateProbability, x.InUnit

variable {o o' : ParameterOverrides}

theorem inUnit_empty : InUnit {} := ⟨by simp, by simp⟩

theorem InUnit.apply (h : o.InUnit) {c : Change} (hc : c.InUnit) : (c.apply o).InUnit := by
  cases c with
  | matchThreshold x =>
      exact ⟨fun y hy => Option.mem_some_iff.mp hy ▸ hc, h.updateProbability⟩
  | updateProbability x =>
      exact ⟨h.matchThreshold, fun y hy => Option.mem_some_iff.mp hy ▸ hc⟩
  | rotation n | mixMode m | invertOnSecondary b => exact ⟨h.matchThreshold, h.updateProbability⟩

/-- **No text sets a real outside of the unit interval.** -/
theorem InUnit.set {key value : String} (h : o.InUnit) (hset : o.set key value = .ok o') :
    o'.InUnit := by
  obtain ⟨c, hc, rfl, _⟩ := change_of_set hset
  exact h.apply hc

/-- What is not set has a default in the unit interval. -/
theorem InUnit.complete (h : o.InUnit) : ∀ x ∈ o.complete.reals, x.InUnit := by
  have hgetD : ∀ {set : Option Binary64} {d : Binary64}, (∀ x ∈ set, x.InUnit) → d.InUnit →
      (set.getD d).InUnit := by
    intro set d hset hd
    cases set with
    | none => exact hd
    | some x => exact hset x rfl
  intro x hx
  rcases List.mem_cons.mp hx with rfl | hx
  · exact hgetD h.matchThreshold Binary64.inUnit_half
  · rw [List.mem_singleton.mp hx]
    exact hgetD h.updateProbability Binary64.inUnit_one

end ParameterOverrides

/-! ## Rows of records -/

namespace ParameterTable

theorem inUnit_setCells : ∀ (cells : List (String × String)) {o o' : ParameterOverrides},
    o.InUnit → setCells o cells = .ok o' → o'.InUnit
  | [], o, o', h, hset => by
      injection hset with hset
      exact hset ▸ h
  | (name, cell) :: rest, o, o', h, hset => by
      rw [setCells] at hset
      split at hset
      · exact inUnit_setCells rest h hset
      · split at hset
        · rename_i hcell
          exact inUnit_setCells rest (h.set hcell) hset
        · exact absurd hset (by simp)

theorem inUnit_parseRow {line : Nat} {row : String} {c : Exocode} {r : ParameterRecord}
    (h : parseRow line row = .ok (some (c, r))) : ∀ x ∈ r.reals, x.InUnit := by
  unfold parseRow at h
  split at h
  · exact absurd h (by simp)
  · split at h
    · exact absurd h (by simp)
    · split at h
      · exact absurd h (by simp)
      · split at h
        · exact absurd h (by simp)
        · rename_i o ho
          injection h with h
          injection h with h
          injection h with _ h
          exact h ▸ (inUnit_setCells _ ParameterOverrides.inUnit_empty ho).complete

/-- What holds of a table made from a text. -/
structure FromText (t : ParameterTable) : Prop where
  increasing : t.Increasing
  inUnit : ∀ x ∈ t.reals, x.InUnit

theorem fromText_empty : FromText {} :=
  ⟨increasing_empty, fun _ hx => absurd hx List.not_mem_nil⟩

variable {t : ParameterTable}

theorem mem_reals_insertNew {c : Exocode} {r : ParameterRecord} {x : Binary64}
    (h : x ∈ (t.insertNew c r).reals) : x ∈ r.reals ∨ x ∈ t.reals := by
  obtain ⟨e, he, hx⟩ := List.mem_flatMap.mp h
  rcases Sorted.mem_insertNew he with rfl | he
  · exact Or.inl hx
  · exact Or.inr (List.mem_flatMap.mpr ⟨e, he, hx⟩)

theorem FromText.addRow (h : t.FromText) (row : String) : (t.addRow row).FromText := by
  unfold ParameterTable.addRow
  split
  · rename_i c r hrow
    refine ⟨h.increasing.insertNew c r, fun x hx => ?_⟩
    rcases mem_reals_insertNew hx with hx | hx
    · exact inUnit_parseRow hrow x hx
    · exact h.inUnit x hx
  · exact h

/-- **A text gives a sorted table**, and none of its reals lies outside of the unit interval. -/
theorem fromText_parse (text : String) : (parse text).FromText :=
  List.foldlRecOn (Text.lines text) addRow fromText_empty fun _ h row _ => h.addRow row

end ParameterTable

/-! ## Rows of codes -/

namespace BridgeTable

theorem Increasing.addRow {t : BridgeTable} (h : t.Increasing) (row : String) :
    (t.addRow row).Increasing := by
  unfold BridgeTable.addRow
  split
  · exact h.insertNew _ _
  · exact h

theorem increasing_parse (text : String) : (parse text).Increasing :=
  List.foldlRecOn (Text.lines text) addRow increasing_empty fun _ h row _ => h.addRow row

end BridgeTable

end RuleWiring
