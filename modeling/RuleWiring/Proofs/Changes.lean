import Mathlib
import RuleWiring.Parameters.Basic
import RuleWiring.Proofs.Outcomes

/-!
# Parameters set by texts

What a key and a value set does not depend on what has been set before: they are read as a change
of one field, or refused. A real that is set lies in the unit interval, since a numeral outside of
it is moved to its end, and `nan` becomes zero.
-/

namespace RuleWiring

/-! ## The unit interval -/

/-- A number between zero and one. -/
structure Binary64.InUnit (x : Binary64) : Prop where
  isNumber : x.isNaN = false
  nonneg : x.lt zero = false
  le_one : one.lt x = false

theorem Binary64.inUnit_zero : zero.InUnit := by
  constructor <;> decide +kernel

theorem Binary64.inUnit_half : half.InUnit := by
  constructor <;> decide +kernel

theorem Binary64.inUnit_one : one.InUnit := by
  constructor <;> decide +kernel

/-- **Every double is moved into the unit interval.** -/
theorem Binary64.inUnit_clampUnit (x : Binary64) : x.clampUnit.InUnit := by
  unfold clampUnit
  split
  · exact inUnit_zero
  · rename_i hnan
    split
    · exact inUnit_zero
    · rename_i hzero
      split
      · exact inUnit_one
      · rename_i hone
        exact ⟨by simpa using hnan, by simpa using hzero, by simpa using hone⟩

namespace ParameterOverrides

theorem inUnit_unitReal? {s : String} {x : Binary64} (h : unitReal? s = some x) : x.InUnit := by
  obtain ⟨y, _, rfl⟩ := Option.map_eq_some_iff.mp h
  exact y.inUnit_clampUnit

/-! ## Changes -/

/-- A change of one field. -/
inductive Change where
  | rotation (n : UInt32)
  | matchThreshold (x : Binary64)
  | updateProbability (x : Binary64)
  | mixMode (m : MixMode)
  | invertOnSecondary (b : Bool)

namespace Change

def apply (o : ParameterOverrides) : Change → ParameterOverrides
  | .rotation n => { o with rotation := some n }
  | .matchThreshold x => { o with matchThreshold := some x }
  | .updateProbability x => { o with updateProbability := some x }
  | .mixMode m => { o with mixMode := some m }
  | .invertOnSecondary b => { o with invertOnSecondary := some b }

/-- A change that sets no real outside of the unit interval. -/
def InUnit : Change → Prop
  | .matchThreshold x | .updateProbability x => x.InUnit
  | _ => True

end Change

/-- **A key and a value are read as a change of one field, or refused**, whatever has been set
before. -/
theorem exists_change (key value : String) : ∃ m : Except FieldError Change,
    (∀ o : ParameterOverrides, o.set key value = m.map fun c => c.apply o)
      ∧ ∀ c, m = .ok c → c.InUnit := by
  have hok : ∀ {c c' : Change}, c.InUnit → (Except.ok c : Except FieldError Change) = .ok c' →
      c'.InUnit := fun h heq => Except.ok.inj heq ▸ h
  have herror : ∀ {e : FieldError} {c : Change}, Except.error e = .ok c → c.InUnit :=
    fun heq => absurd heq (by simp)
  unfold set
  dsimp only
  split_ifs
  · cases Numeral.natBelow? UInt32.size (Text.trim value) with
    | some n => exact ⟨.ok (.rotation (UInt32.ofNat n)), fun _ => rfl, fun _ => hok trivial⟩
    | none => exact ⟨.error _, fun _ => rfl, fun _ => herror⟩
  · cases hx : unitReal? (Text.trim value) with
    | some x => exact ⟨.ok (.matchThreshold x), fun _ => rfl, fun _ => hok (inUnit_unitReal? hx)⟩
    | none => exact ⟨.error _, fun _ => rfl, fun _ => herror⟩
  · cases hx : unitReal? (Text.trim value) with
    | some x =>
        exact ⟨.ok (.updateProbability x), fun _ => rfl, fun _ => hok (inUnit_unitReal? hx)⟩
    | none => exact ⟨.error _, fun _ => rfl, fun _ => herror⟩
  · exact ⟨.ok (.mixMode (MixMode.ofText (Text.trim value))), fun _ => rfl,
      fun _ => hok trivial⟩
  · cases bool? (Text.trim value) with
    | some b => exact ⟨.ok (.invertOnSecondary b), fun _ => rfl, fun _ => hok trivial⟩
    | none => exact ⟨.error _, fun _ => rfl, fun _ => herror⟩
  · exact ⟨.error _, fun _ => rfl, fun _ => herror⟩

/-- A field that was set was set by a change. -/
theorem change_of_set {o o' : ParameterOverrides} {key value : String}
    (h : o.set key value = .ok o') : ∃ c : Change, c.InUnit ∧ o' = c.apply o
      ∧ ∀ q : ParameterOverrides, q.set key value = .ok (c.apply q) := by
  obtain ⟨m, hm, hunit⟩ := exists_change key value
  obtain ⟨c, rfl, hc⟩ := map_eq_ok ((hm o).symm.trans h)
  exact ⟨c, hunit c rfl, hc.symm, hm⟩

end ParameterOverrides

end RuleWiring
