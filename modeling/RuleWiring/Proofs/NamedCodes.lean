import Mathlib
import RuleWiring.Proofs.Normalized
import RuleWiring.Proofs.Provenance
import RuleWiring.Proofs.Steering

/-!
# The code that a resolution names

A resolution names a code, which the compiled diagram records as that of its pattern. It is the
code that the pattern is left with, with one exception. A pattern may come with a code that the
parameter table does not know, while the bridge table has one for its id that it does know. Then
the parameters are those of the bridged code, and this is the code that is named, but the pattern
keeps its own.
-/

namespace RuleWiring

/-! ## What a diagram says of itself -/

namespace Compilation

/-- No stage touches the metadata. -/
theorem metadata_sketch (o : CompilerOptions) (q : Pattern) (r : Resolution) :
    (sketch o q r).metadata = metadata q r :=
  congrArg Sketch.metadata (sketch_saying o (q := q) (r := r) rfl rfl)

end Compilation

theorem compile_metadata (o : CompilerOptions) (q : Pattern) (r : Resolution) :
    ∃ d, compile o q r = .ok d ∧ d.metadata = Compilation.metadata q r := by
  obtain ⟨d, hd, _⟩ := compile_drawn o q r
  exact ⟨d, hd, (Sketch.finish_said hd).1.trans (Compilation.metadata_sketch o q r)⟩

/-! ## Patterns that keep another code -/

/-- The pattern comes with a code, but gets the parameters of the one that the bridge table has for
its id. -/
structure Pattern.Overruled (p : Pattern) (t : ParameterTable) (b : BridgeTable) : Prop where
  code : p.code.isSome
  unsettled : p.Unsettled t
  bridged : ∃ r, p.Bridged t b r

/-- Of the two codes the table knows one only. -/
theorem Pattern.Overruled.ne {p : Pattern} {t : ParameterTable} {b : BridgeTable}
    (h : p.Overruled t b) : b.get? p.id ≠ p.code := by
  obtain ⟨r, code, hcode, hr⟩ := h.bridged
  intro heq
  exact h.unsettled.listed r ⟨code, heq.symm.trans hcode, hr⟩

namespace Resolution

variable {c c' : TableCache} {p q : Pattern} {x : Resolution}

theorem Course.code_eq (h : Course c p x q c')
    (hnot : ¬ p.Overruled c.paramsTable c.bridgeTable) : x.code = q.code := by
  cases h with
  | inline | table | missing | unknown => rfl
  | @fallbackTable code r h hcode hr =>
      have hnone : p.code = none := by
        by_contra hsome
        exact hnot ⟨Option.isSome_iff_ne_none.mpr hsome, h, r, code, hcode, hr⟩
      dsimp only
      rw [hnone, Option.none_or]

theorem Course.code_of_overruled (h : Course c p x q c')
    (ho : p.Overruled c.paramsTable c.bridgeTable) :
    x.code = c.bridgeTable.get? p.id ∧ q.code = p.code := by
  obtain ⟨hsome, hu, r, hbridged⟩ := ho
  have hsays := (h.fallbackTable_iff r).mpr ⟨hu, hbridged⟩
  cases h with
  | fallbackTable h hcode hr =>
      obtain ⟨own, hown⟩ := Option.isSome_iff_exists.mp hsome
      exact ⟨hcode.symm, by rw [hown, Option.some_or]⟩
  | inline | table | missing | unknown => cases hsays.1

theorem Course.code_eq_iff (h : Course c p x q c') :
    x.code = q.code ↔ ¬ p.Overruled c.paramsTable c.bridgeTable := by
  refine ⟨fun heq ho => ?_, h.code_eq⟩
  obtain ⟨hx, hq⟩ := h.code_of_overruled ho
  exact ho.ne (hx.symm.trans (heq.trans hq))

/-- The code that a resolution names, beside the one that the pattern is left with. -/
structure Names (c : TableCache) (p : Pattern) (x : Resolution) (q : Pattern) : Prop where
  /-- They are the same unless the pattern is overruled. -/
  agrees : x.code = q.code ↔ ¬ p.Overruled c.paramsTable c.bridgeTable
  /-- Then the bridged code is named, and the pattern keeps its own. -/
  overruled : p.Overruled c.paramsTable c.bridgeTable →
    x.code = c.bridgeTable.get? p.id ∧ q.code = p.code
  /-- The diagram has the code that is named. -/
  recorded : ∀ o, ∃ d, compile o q x = .ok d ∧ d.metadata.code = x.code

/-- **A resolution names the code of its pattern unless the pattern is overruled.** -/
theorem resolve_names (c : TableCache) (p : Pattern) :
    Names c p (resolve p c).1.1 (resolve p c).1.2 := by
  have h := course c p
  refine ⟨h.code_eq_iff, h.code_of_overruled, fun o => ?_⟩
  obtain ⟨d, hd, hmetadata⟩ := compile_metadata o (resolve p c).1.2 (resolve p c).1.1
  exact ⟨d, hd, by rw [hmetadata, Compilation.metadata]⟩

/-- The code `11111111` is not in the table, but `00000001` is, and the bridge table has it for
the pattern's id. -/
theorem resolve_names_overruled :
    let c := TableCache.ofSources (.text "00000001\n") (.text "rival\tRival\t00000001\n")
    let p : Pattern := { id := "rival", code := some ⟨255⟩ }
    (resolve p c).1.1.code = some ⟨1⟩ ∧ (resolve p c).1.2.code = some ⟨255⟩ := by
  decide +kernel

end Resolution

end RuleWiring
