import Mathlib
import RuleWiring.Proofs.Balance
import RuleWiring.Proofs.Changes
import RuleWiring.Proofs.Numerals

/-!
# Parameters set one after the other

A call that sets a parameter works in place: it finds the field that its key names, reads the text,
and writes the field only then. `Assigned` says all that a call can come to. Either it sets one
field and leaves the others alone, or it answers with an error and leaves everything alone; which of
them depends on the key and the text, and not on what has been set before.

A run of calls is followed call by call. Each field ends up with what the last call has read that
named it and succeeded, however many failed before, between or after (`LastSet`).
-/

namespace RuleWiring

open Text

/-! ## Values in texts -/

/-- `x` is the number in the unit interval that stands for `y`. -/
inductive Binary64.Clamps : Binary64 → Binary64 → Prop where
  | nan {y : Binary64} : y.isNaN = true → Clamps y zero
  | below {y : Binary64} : y.lt zero = true → Clamps y zero
  | above {y : Binary64} : one.lt y = true → Clamps y one
  | inside {y : Binary64} : y.InUnit → Clamps y y

theorem Binary64.clamps_iff {y x : Binary64} : Clamps y x ↔ y.clampUnit = x := by
  constructor
  · rintro (hnan | hbelow | habove | ⟨hnumber, hnonneg, hone⟩)
    · rw [clampUnit, if_pos hnan]
    · rw [clampUnit, if_pos hbelow, ite_self]
    · have hnumber : y.isNaN = false := by
        rw [lt] at habove
        simp only [Bool.and_eq_true, Bool.not_eq_true'] at habove
        exact habove.1.2
      have hnonneg : y.lt zero = false := by
        simp only [lt, Bool.and_eq_true, Bool.not_eq_true', decide_eq_true_eq] at habove
        have hzero : zero.key ≤ one.key := by decide +kernel
        simp only [lt, Bool.and_eq_false_iff, decide_eq_false_iff_not]
        exact .inr (by omega)
      rw [clampUnit, if_neg (by simp [hnumber]), if_neg (by simp [hnonneg]), if_pos habove]
    · rw [clampUnit, if_neg (by simp [hnumber]), if_neg (by simp [hnonneg]),
        if_neg (by simp [hone])]
  · rintro rfl
    unfold clampUnit
    split
    · exact .nan ‹_›
    · split
      · exact .below ‹_›
      · split
        · exact .above ‹_›
        · rename_i hnan hbelow habove
          exact .inside ⟨by simpa using hnan, by simpa using hbelow, by simpa using habove⟩

/-- Decimal digits, with a plus sign in front or without, that spell `n`. -/
def Numeral.Spells (s : String) (n : Nat) : Prop :=
  ∃ ds : List Char, (s.toList = ds ∨ s.toList = '+' :: ds) ∧ Digits ds ∧ ofDigits 0 ds = n

theorem Numeral.natBelow?_eq_some_iff {bound n : Nat} {s : String} :
    natBelow? bound s = some n ↔ Spells s n ∧ n < bound := by
  have hdigits : ∀ ds : List Char, (ds.isEmpty || !ds.all Char.isDigit) = false ↔ Digits ds := by
    intro ds
    rw [Bool.or_eq_false_iff, List.isEmpty_eq_false_iff, Bool.not_eq_false', List.all_eq_true]
    exact ⟨fun h => ⟨h.1, h.2⟩, fun h => ⟨h.nonempty, h.all⟩⟩
  have hparts : natBelow? bound s = some n ↔
      Digits (if s.toList.head? = some '+' then s.toList.tail else s.toList)
        ∧ ofDigits 0 (if s.toList.head? = some '+' then s.toList.tail else s.toList) = n
        ∧ n < bound := by
    rw [← hdigits, natBelow?]
    dsimp only
    generalize (if s.toList.head? = some '+' then s.toList.tail else s.toList) = ds
    cases (ds.isEmpty || !ds.all Char.isDigit) with
    | true => simp
    | false =>
        rw [if_neg (by simp)]
        by_cases hlt : ofDigits 0 ds < bound
        · rw [if_pos hlt, Option.some.injEq]
          exact ⟨fun h => ⟨rfl, h, h ▸ hlt⟩, fun h => h.2.1⟩
        · rw [if_neg hlt]
          exact ⟨fun h => absurd h (by simp), fun ⟨_, heq, h⟩ => absurd (heq ▸ h) hlt⟩
  rw [hparts, ← and_assoc]
  refine and_congr_left fun _ => ?_
  constructor
  · split
    · rename_i hplus
      rintro ⟨hds, hn⟩
      exact ⟨_, .inr (List.cons_head?_tail hplus).symm, hds, hn⟩
    · rintro ⟨hds, hn⟩
      exact ⟨_, .inl rfl, hds, hn⟩
  · rintro ⟨ds, hs | hs, hds, hn⟩
    · -- digits do not begin with a plus sign
      rw [hs, if_neg fun hplus => absurd (hds.all '+' (List.mem_of_head? hplus)) (by decide)]
      exact ⟨hds, hn⟩
    · rw [hs, List.head?_cons, if_pos rfl, List.tail_cons]
      exact ⟨hds, hn⟩

namespace ParameterOverrides

/-! ## Fields -/

inductive Field where
  | rotation
  | matchThreshold
  | updateProbability
  | mixMode
  | invertOnSecondary
deriving DecidableEq

def Field.name : Field → String
  | .rotation => "rotation"
  | .matchThreshold => "match-threshold"
  | .updateProbability => "update-probability"
  | .mixMode => "mix-mode"
  | .invertOnSecondary => "invert-on-secondary"

theorem Field.name_injective : Function.Injective Field.name := by
  intro f g h
  cases f <;> cases g <;> first | rfl | exact absurd h (by decide)

namespace Change

/-- The field that is changed. -/
def field : Change → Field
  | .rotation _ => .rotation
  | .matchThreshold _ => .matchThreshold
  | .updateProbability _ => .updateProbability
  | .mixMode _ => .mixMode
  | .invertOnSecondary _ => .invertOnSecondary

/-- The change is what a trimmed text says of its field. A real is moved into the unit interval. A
name that no mode has stands for no mixing, so that every text says something of the mode. -/
def SaidBy (s : String) : Change → Prop
  | .rotation n => Numeral.Spells s n.toNat
  | .matchThreshold x | .updateProbability x => ∃ y, Numeral.real? s = some y ∧ Binary64.Clamps y x
  | .mixMode m => m.name = keyword s ∨ (∀ m' : MixMode, m'.name ≠ keyword s) ∧ m = .none
  | .invertOnSecondary true => s ∈ ["true", "yes", "1"]
  | .invertOnSecondary false => s ∈ ["false", "no", "0"]

end Change

namespace Field

/-- The change of a field that a text is read as. -/
def read? (s : String) : Field → Option Change
  | .rotation => (Numeral.natBelow? UInt32.size s).map fun n => .rotation (UInt32.ofNat n)
  | .matchThreshold => (unitReal? s).map .matchThreshold
  | .updateProbability => (unitReal? s).map .updateProbability
  | .mixMode => some (.mixMode (MixMode.ofText s))
  | .invertOnSecondary => (bool? s).map .invertOnSecondary

section Reading

variable {s : String}

theorem natBelow_map_iff {n : UInt32} :
    (Numeral.natBelow? UInt32.size s).map UInt32.ofNat = some n ↔ Numeral.Spells s n.toNat := by
  rw [Option.map_eq_some_iff]
  constructor
  · rintro ⟨m, hm, rfl⟩
    obtain ⟨hspells, hlt⟩ := Numeral.natBelow?_eq_some_iff.mp hm
    rwa [UInt32.toNat_ofNat_of_lt' hlt]
  · intro h
    exact ⟨_, Numeral.natBelow?_eq_some_iff.mpr ⟨h, n.toNat_lt_size⟩, UInt32.ofNat_toNat⟩

theorem unitReal?_eq_some_iff {x : Binary64} :
    unitReal? s = some x ↔ ∃ y, Numeral.real? s = some y ∧ Binary64.Clamps y x := by
  simp only [unitReal?, Option.map_eq_some_iff, Binary64.clamps_iff]

theorem ofText_eq_iff {m : MixMode} : MixMode.ofText s = m
    ↔ m.name = keyword s ∨ (∀ m' : MixMode, m'.name ≠ keyword s) ∧ m = .none := by
  have hall : ∀ m : MixMode, m ∈ MixMode.all := by
    intro m
    cases m <;> decide
  rw [MixMode.ofText]
  cases hfound : MixMode.all.find? (·.name = keyword s) with
  | none =>
      have hno : ∀ m' : MixMode, m'.name ≠ keyword s := fun m' => by
        simpa using List.find?_eq_none.mp hfound m' (hall m')
      exact ⟨fun h => .inr ⟨hno, h.symm⟩, fun h => (h.resolve_left (hno m)).2.symm⟩
  | some m' =>
      have hname : m'.name = keyword s := by simpa using List.find?_some hfound
      constructor
      · rintro rfl
        exact .inl hname
      · rintro (hm | ⟨hno, _⟩)
        · exact MixMode.name_injective (hname.trans hm.symm)
        · exact absurd hname (hno m')

theorem bool?_eq_some_iff {b : Bool} :
    bool? s = some b ↔ (Change.invertOnSecondary b).SaidBy s := by
  unfold bool?
  cases b with
  | true =>
      simp only [Change.SaidBy, List.mem_cons, List.not_mem_nil, or_false]
      split
      · exact iff_of_true rfl ‹_›
      · refine iff_of_false ?_ ‹_›
        split <;> simp
  | false =>
      simp only [Change.SaidBy, List.mem_cons, List.not_mem_nil, or_false]
      split
      · rename_i htrue
        refine iff_of_false (by simp) ?_
        rcases htrue with rfl | rfl | rfl <;> decide
      · split
        · exact iff_of_true rfl ‹_›
        · exact iff_of_false (by simp) ‹_›

theorem map_eq_some_iff_said {α : Type} {make : α → Change} {f : Field} {read : Option α}
    (hmake : ∀ c : Change, c.field = f ↔ ∃ x, make x = c)
    (hread : ∀ x, read = some x ↔ (make x).SaidBy s) (c : Change) :
    read.map make = some c ↔ c.field = f ∧ c.SaidBy s := by
  rw [hmake, Option.map_eq_some_iff]
  constructor
  · rintro ⟨x, hx, rfl⟩
    exact ⟨⟨x, rfl⟩, (hread x).mp hx⟩
  · rintro ⟨⟨x, rfl⟩, hsaid⟩
    exact ⟨x, (hread x).mpr hsaid, rfl⟩

/-- **What is read is what the text says**, and nothing is read where it says nothing. -/
theorem read?_eq_some_iff {f : Field} {c : Change} :
    f.read? s = some c ↔ c.field = f ∧ c.SaidBy s := by
  cases f with
  | rotation =>
      have hread : Field.rotation.read? s
          = ((Numeral.natBelow? UInt32.size s).map UInt32.ofNat).map .rotation :=
        (Option.map_map ..).symm
      rw [hread]
      exact map_eq_some_iff_said (fun c => by cases c <;> simp [Change.field])
        (fun n => natBelow_map_iff) c
  | matchThreshold =>
      exact map_eq_some_iff_said (fun c => by cases c <;> simp [Change.field])
        (fun x => unitReal?_eq_some_iff) c
  | updateProbability =>
      exact map_eq_some_iff_said (fun c => by cases c <;> simp [Change.field])
        (fun x => unitReal?_eq_some_iff) c
  | mixMode =>
      have hread : ∀ m : MixMode,
          some (MixMode.ofText s) = some m ↔ (Change.mixMode m).SaidBy s :=
        fun m => Option.some_inj.trans ofText_eq_iff
      exact map_eq_some_iff_said (fun c => by cases c <;> simp [Change.field]) hread c
  | invertOnSecondary =>
      exact map_eq_some_iff_said (fun c => by cases c <;> simp [Change.field])
        (fun b => bool?_eq_some_iff) c

end Reading

end Field

section Access

variable {o : ParameterOverrides}

/-- What a field has been set to, if it has. -/
def get (o : ParameterOverrides) : Field → Option Change
  | .rotation => o.rotation.map .rotation
  | .matchThreshold => o.matchThreshold.map .matchThreshold
  | .updateProbability => o.updateProbability.map .updateProbability
  | .mixMode => o.mixMode.map .mixMode
  | .invertOnSecondary => o.invertOnSecondary.map .invertOnSecondary

theorem get_apply (c : Change) : (c.apply o).get c.field = some c := by
  cases c <;> rfl

theorem get_apply_of_ne {c : Change} {f : Field} (h : f ≠ c.field) :
    (c.apply o).get f = o.get f := by
  cases c <;> cases f <;> first | rfl | exact absurd rfl h

theorem isEmpty_iff : o.isEmpty = true ↔ ∀ f : Field, o.get f = none := by
  simp only [isEmpty, Bool.and_eq_true, Option.isNone_iff_eq_none]
  constructor
  · rintro ⟨⟨⟨⟨hrotation, hthreshold⟩, hprobability⟩, hmode⟩, hinvert⟩ f
    cases f <;> simpa only [get, Option.map_eq_none_iff]
  · intro h
    have hunset : ∀ {α : Type} {x : Option α} {make : α → Change}, x.map make = none → x = none :=
      Option.map_eq_none_iff.mp
    exact ⟨⟨⟨⟨hunset (h .rotation), hunset (h .matchThreshold)⟩, hunset (h .updateProbability)⟩,
      hunset (h .mixMode)⟩, hunset (h .invertOnSecondary)⟩

end Access

/-! ## One call -/

/-- A change of overrides in place, which may be given up. -/
abbrev Edit := ExceptT FieldError (StateM ParameterOverrides)

/-- What a text was read as, if it could be read. -/
def demand {α : Type} (e : FieldError) : Option α → Edit α
  | some x => pure x
  | none => throw e

/-- Sets the field of a name in place. -/
def assign (key value : String) : Edit Unit := do
  let value := trim value
  let name := keyword key
  let bad : FieldError := .badField 0 name value
  if name = "rotation" then
    let n ← demand bad (Numeral.natBelow? UInt32.size value)
    modify fun o => { o with rotation := some (UInt32.ofNat n) }
  else if name = "match-threshold" then
    let y ← demand bad (Numeral.real? value)
    modify fun o => { o with matchThreshold := some y.clampUnit }
  else if name = "update-probability" then
    let y ← demand bad (Numeral.real? value)
    modify fun o => { o with updateProbability := some y.clampUnit }
  else if name = "mix-mode" then
    modify fun o => { o with mixMode := some (MixMode.ofText value) }
  else if name = "invert-on-secondary" then
    let b ← demand bad (bool? value)
    modify fun o => { o with invertOnSecondary := some b }
  else throw (.unknownParameter name)

/-- **In place or not**: a call answers and leaves behind what setting the field gives. -/
theorem assign_run (o : ParameterOverrides) (key value : String) :
    (assign key value).run o = match o.set key value with
      | .ok o' => (.ok (), o')
      | .error e => (.error e, o) := by
  unfold assign set unitReal?
  dsimp only
  split_ifs
  · cases Numeral.natBelow? UInt32.size (trim value) <;> rfl
  · cases Numeral.real? (trim value) <;> rfl
  · cases Numeral.real? (trim value) <;> rfl
  · rfl
  · cases bool? (trim value) <;> rfl
  · rfl

/-- The key names a field, and the text says something of it. -/
def Says (key value : String) : Prop :=
  ∃ c : Change, keyword key = c.field.name ∧ c.SaidBy (trim value)

/-- All that a call can come to: an answer, and the overrides behind it. -/
inductive Assigned (o : ParameterOverrides) (key value : String) :
    Except FieldError Unit → ParameterOverrides → Prop where
  /-- The field that the key names is set, and the others stay. -/
  | set {c : Change} {o' : ParameterOverrides} : keyword key = c.field.name →
      c.SaidBy (trim value) → o'.get c.field = some c →
      (∀ f, f ≠ c.field → o'.get f = o.get f) → Assigned o key value (.ok ()) o'
  | unreadable {f : Field} : keyword key = f.name →
      (∀ c : Change, c.field = f → ¬ c.SaidBy (trim value)) →
      Assigned o key value (.error (.badField 0 f.name (trim value))) o
  | unknown : (∀ f : Field, keyword key ≠ f.name) →
      Assigned o key value (.error (.unknownParameter (keyword key))) o

theorem set_named {f : Field} {key : String} (h : keyword key = f.name) (o : ParameterOverrides)
    (value : String) : o.set key value = match f.read? (trim value) with
      | some c => .ok (c.apply o)
      | none => .error (.badField 0 f.name (trim value)) := by
  unfold set
  dsimp only
  rw [h]
  cases f with
  | rotation =>
      simp only [Field.name, Field.read?, ↓reduceIte]
      cases Numeral.natBelow? UInt32.size (trim value) <;> rfl
  | matchThreshold | updateProbability =>
      simp only [Field.name, Field.read?, reduceIte, String.reduceEq]
      cases unitReal? (trim value) <;> rfl
  | mixMode =>
      simp only [Field.name, Field.read?, reduceIte, String.reduceEq]
      rfl
  | invertOnSecondary =>
      simp only [Field.name, Field.read?, reduceIte, String.reduceEq]
      cases bool? (trim value) <;> rfl

theorem set_unknown {key : String} (h : ∀ f : Field, keyword key ≠ f.name) (o : ParameterOverrides)
    (value : String) : o.set key value = .error (.unknownParameter (keyword key)) := by
  have hrotation : keyword key ≠ "rotation" := h .rotation
  have hthreshold : keyword key ≠ "match-threshold" := h .matchThreshold
  have hprobability : keyword key ≠ "update-probability" := h .updateProbability
  have hmode : keyword key ≠ "mix-mode" := h .mixMode
  have hinvert : keyword key ≠ "invert-on-secondary" := h .invertOnSecondary
  unfold set
  dsimp only
  rw [if_neg hrotation, if_neg hthreshold, if_neg hprobability, if_neg hmode, if_neg hinvert]

/-- **One call.** -/
theorem assigned (o : ParameterOverrides) (key value : String) :
    Assigned o key value ((assign key value).run o).1 ((assign key value).run o).2 := by
  rw [assign_run]
  by_cases hname : ∃ f : Field, keyword key = f.name
  · obtain ⟨f, hf⟩ := hname
    rw [set_named hf]
    cases hread : f.read? (trim value) with
    | some c =>
        obtain ⟨rfl, hsaid⟩ := Field.read?_eq_some_iff.mp hread
        exact .set hf hsaid (get_apply c) fun g hg => get_apply_of_ne hg
    | none =>
        refine .unreadable hf fun c hc hsaid => ?_
        rw [Field.read?_eq_some_iff.mpr ⟨hc, hsaid⟩] at hread
        cases hread
  · have hno : ∀ f : Field, keyword key ≠ f.name := fun f hf => hname ⟨f, hf⟩
    rw [set_unknown hno]
    exact .unknown hno

/-! ## All calls -/

/-- Calls one after the other, each a key with a value: the answers, and the overrides behind the
last call. -/
def assignAll : List (String × String) → ParameterOverrides →
    List (Except FieldError Unit) × ParameterOverrides
  | [], o => ([], o)
  | call :: calls, o =>
      let first := (assign call.1 call.2).run o
      let later := assignAll calls first.2
      (first.1 :: later.1, later.2)

section Calls

variable (calls : List (String × String)) (answers : List (Except FieldError Unit))

/-- The call at a position names a field, and it succeeded. -/
def SetAt (k : Nat) (f : Field) : Prop :=
  ∃ call, calls[k]? = some call ∧ answers[k]? = some (.ok ()) ∧ keyword call.1 = f.name

/-- The last call that names a field and succeeded has a text that says the change `c` of it. -/
def LastSet (f : Field) (c : Change) : Prop :=
  ∃ k call, calls[k]? = some call ∧ SetAt calls answers k f ∧ c.field = f
    ∧ c.SaidBy (trim call.2) ∧ ∀ j, k < j → ¬ SetAt calls answers j f

/-- What has become of a field. -/
inductive Follows (o o' : ParameterOverrides) (f : Field) : Prop where
  | set {c : Change} : LastSet calls answers f c → o'.get f = some c → Follows o o' f
  | kept : (∀ k, ¬ SetAt calls answers k f) → o'.get f = o.get f → Follows o o' f

end Calls

section Runs

variable {calls : List (String × String)} {answers : List (Except FieldError Unit)}
  {call : String × String} {answer : Except FieldError Unit} {f : Field}
  {o o' o'' : ParameterOverrides}

theorem setAt_zero_iff :
    SetAt (call :: calls) (answer :: answers) 0 f ↔ answer = .ok () ∧ keyword call.1 = f.name := by
  simp [SetAt]

theorem LastSet.cons {c : Change} (h : LastSet calls answers f c) :
    LastSet (call :: calls) (answer :: answers) f c := by
  obtain ⟨k, last, hlast, hset, hfield, hsaid, hlater⟩ := h
  refine ⟨k + 1, last, hlast, hset, hfield, hsaid, fun j hj => ?_⟩
  obtain ⟨i, rfl⟩ : ∃ i, j = i + 1 := ⟨j - 1, by omega⟩
  exact hlater i (by omega)

/-- **A call and those behind it.** What the later ones do to a field counts, and only if they do
nothing to it, what the first one does. -/
theorem Follows.cons (h : Assigned o call.1 call.2 answer o')
    (hrest : Follows calls answers o' o'' f) :
    Follows (call :: calls) (answer :: answers) o o'' f := by
  rcases hrest with ⟨hlast, hget⟩ | ⟨hnone, hget⟩
  · exact .set hlast.cons hget
  · -- the later calls leave the field as they find it, so what the first one does to it stands
    have hkept : answer ≠ .ok () ∨ keyword call.1 ≠ f.name → o'.get f = o.get f →
        Follows (call :: calls) (answer :: answers) o o'' f := by
      intro hno hsame
      refine .kept (fun k hk => ?_) (hget.trans hsame)
      cases k with
      | zero => exact hno.elim (· (setAt_zero_iff.mp hk).1) (· (setAt_zero_iff.mp hk).2)
      | succ k => exact hnone k hk
    cases h with
    | @set c _ hname hsaid hset hothers =>
        by_cases hf : f = c.field
        · subst hf
          refine .set ⟨0, call, rfl, setAt_zero_iff.mpr ⟨rfl, hname⟩, rfl, hsaid, fun j hj => ?_⟩
            (hget.trans hset)
          obtain ⟨i, rfl⟩ : ∃ i, j = i + 1 := ⟨j - 1, by omega⟩
          exact hnone i
        · exact hkept (.inr fun hsame => hf (Field.name_injective (hsame.symm.trans hname)))
            (hothers f hf)
    | unreadable hname hsaid => exact hkept (.inl (by simp)) rfl
    | unknown hname => exact hkept (.inl (by simp)) rfl

/-- A call succeeds exactly if its key names a field of which its text says something. -/
theorem Assigned.ok_iff {key value : String} (h : Assigned o key value answer o') :
    answer = .ok () ↔ Says key value := by
  cases h with
  | @set c _ hname hsaid _ _ => exact iff_of_true rfl ⟨c, hname, hsaid⟩
  | unreadable hname hno =>
      refine iff_of_false (by simp) fun ⟨c, hc, hsaid⟩ => hno c ?_ hsaid
      exact Field.name_injective (hc.symm.trans hname)
  | unknown hno => exact iff_of_false (by simp) fun ⟨c, hc, _⟩ => hno c.field hc

end Runs

/-- What becomes of overrides by some calls. -/
structure Settles (o : ParameterOverrides) (calls : List (String × String))
    (answers : List (Except FieldError Unit)) (o' : ParameterOverrides) : Prop where
  /-- Every call has an answer, and whether it succeeds depends on the call alone. -/
  success : List.Forall₂ (fun call answer => answer = .ok () ↔ Says call.1 call.2) calls answers
  /-- Each field has what the last call to set it says, or else what it had. -/
  follows : ∀ f, Follows calls answers o o' f
  isEmpty : o'.isEmpty = true ↔ o.isEmpty = true ∧ ∀ answer ∈ answers, answer ≠ .ok ()

/-- Once something has been set, it stays so. -/
theorem isEmpty_of_follows {o o' : ParameterOverrides} {calls : List (String × String)}
    {answers : List (Except FieldError Unit)}
    (hsuccess : List.Forall₂ (fun call answer => answer = .ok () ↔ Says call.1 call.2)
      calls answers)
    (hfollows : ∀ f, Follows calls answers o o' f) :
    o'.isEmpty = true ↔ o.isEmpty = true ∧ ∀ answer ∈ answers, answer ≠ .ok () := by
  have hnone : (∀ answer ∈ answers, answer ≠ .ok ()) ↔ ∀ f k, ¬ SetAt calls answers k f := by
    constructor
    · rintro hno f k ⟨call, _, hanswer, _⟩
      exact hno _ (List.mem_of_getElem? hanswer) rfl
    · rintro hno answer hmem rfl
      obtain ⟨k, hk⟩ := List.mem_iff_getElem?.mp hmem
      obtain ⟨call, hcall, hok⟩ := getElem?_of_forall₂ hsuccess.flip hk
      obtain ⟨c, hc, _⟩ := hok.mp rfl
      exact hno c.field k ⟨call, hcall, hk, hc⟩
  rw [isEmpty_iff, isEmpty_iff, hnone]
  constructor
  · intro hempty
    -- a field that has been set would have what the last call says of it
    have hno : ∀ f k, ¬ SetAt calls answers k f := by
      intro f k hk
      rcases hfollows f with ⟨_, hget⟩ | ⟨hno, _⟩
      · rw [hempty f] at hget
        cases hget
      · exact hno k hk
    refine ⟨fun f => ?_, hno⟩
    rcases hfollows f with ⟨⟨k, _, _, hk, _⟩, _⟩ | ⟨_, hget⟩
    · exact absurd hk (hno f k)
    · exact hget.symm.trans (hempty f)
  · rintro ⟨hempty, hno⟩ f
    rcases hfollows f with ⟨⟨k, _, _, hk, _⟩, _⟩ | ⟨_, hget⟩
    · exact absurd hk (hno f k)
    · exact hget.trans (hempty f)

/-- **All calls.** -/
theorem assignAll_follows (calls : List (String × String)) (o : ParameterOverrides) :
    List.Forall₂ (fun call answer => answer = .ok () ↔ Says call.1 call.2) calls
      (assignAll calls o).1
    ∧ ∀ f, Follows calls (assignAll calls o).1 o (assignAll calls o).2 f := by
  induction calls generalizing o with
  | nil => exact ⟨.nil, fun f => .kept (by simp [SetAt]) rfl⟩
  | cons call calls ih =>
      have hfirst := assigned o call.1 call.2
      obtain ⟨hsuccess, hfollows⟩ := ih ((assign call.1 call.2).run o).2
      rw [assignAll]
      exact ⟨.cons hfirst.ok_iff hsuccess, fun f => (hfollows f).cons hfirst⟩

/--
**Each field has what the last successful call says of it, and failures leave no trace.**

The overrides, the keys and the texts are arbitrary, and so is the number of calls. A call that
fails changes nothing, and one that succeeds changes the field that its key names and no other,
which is what setting a field out of place comes to. After a run of calls each field has what the
last call to name it and succeed has said, or what it had before if there is none. The overrides are
empty at the end exactly if they were at the beginning and no call has succeeded.
-/
theorem assignAll_settles (o : ParameterOverrides) :
    (∀ key value, Assigned o key value ((assign key value).run o).1 ((assign key value).run o).2
      ∧ (assign key value).run o = match o.set key value with
        | .ok o' => (.ok (), o')
        | .error e => (.error e, o))
    ∧ ∀ calls, Settles o calls (assignAll calls o).1 (assignAll calls o).2 := by
  refine ⟨fun key value => ⟨assigned o key value, assign_run o key value⟩, fun calls => ?_⟩
  obtain ⟨hsuccess, hfollows⟩ := assignAll_follows calls o
  exact ⟨hsuccess, hfollows, isEmpty_of_follows hsuccess hfollows⟩

end ParameterOverrides

end RuleWiring
