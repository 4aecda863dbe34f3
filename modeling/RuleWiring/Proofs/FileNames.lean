import Mathlib
import RuleWiring.Batch.Basic
import RuleWiring.Files.Route

/-!
# The names of files for ids

A file's name has two underscores for each slash of the id. Underscores of the id stay as they are,
so that a name does not tell which of the two it was made from. Ids have the same name exactly if
one becomes the other by writing a slash as two underscores, or two underscores as a slash, any
number of times (`Confused`). It takes an underscore beside an underscore or a slash for that.
-/

namespace RuleWiring

/-! ## Slashes and underscores -/

/-- One slash of the first list is written as two underscores in the second. -/
inductive Respells : List Char → List Char → Prop where
  | slash (front back : List Char) : Respells (front ++ '/' :: back) (front ++ '_' :: '_' :: back)

/-- Exchanging slashes and pairs of underscores leads from one id to the other. -/
def Confused (id id' : String) : Prop := Relation.EqvGen Respells id.toList id'.toList

section Flattening

variable {cs ds : List Char}

theorem flattened_append : ∀ cs ds : List Char,
    flattened (cs ++ ds) = flattened cs ++ flattened ds
  | [], _ => rfl
  | c :: cs, ds => by
      rw [List.cons_append, flattened, flattened, flattened_append cs ds]
      split <;> rfl

theorem flattened_cons_of_ne {c : Char} (h : c ≠ '/') :
    flattened (c :: cs) = c :: flattened cs := by
  rw [flattened, if_neg h]

theorem Respells.flattened_eq (h : Respells cs ds) : flattened cs = flattened ds := by
  obtain ⟨front, back⟩ := h
  rw [flattened_append, flattened_append]
  rfl

theorem Respells.cons (c : Char) (h : Respells cs ds) : Respells (c :: cs) (c :: ds) := by
  obtain ⟨front, back⟩ := h
  exact .slash (c :: front) back

theorem eqvGen_cons (c : Char) (h : Relation.EqvGen Respells cs ds) :
    Relation.EqvGen Respells (c :: cs) (c :: ds) := by
  induction h with
  | rel _ _ hstep => exact .rel _ _ (hstep.cons c)
  | refl _ => exact .refl _
  | symm _ _ _ ih => exact ih.symm
  | trans _ _ _ _ _ ih ih' => exact ih.trans _ _ _ ih'

/-- Writing all slashes out, one after the other, ends with the flattened list. -/
theorem eqvGen_flattened : ∀ cs : List Char, Relation.EqvGen Respells cs (flattened cs)
  | [] => .refl _
  | c :: cs => by
      have hrest := eqvGen_cons c (eqvGen_flattened cs)
      rw [flattened]
      split
      · rename_i hslash
        subst hslash
        exact hrest.trans _ _ _ (.rel _ _ (.slash [] _))
      · exact hrest

theorem flattened_eq_iff : flattened cs = flattened ds ↔ Relation.EqvGen Respells cs ds := by
  constructor
  · intro h
    have hds := eqvGen_flattened ds
    rw [← h] at hds
    exact (eqvGen_flattened cs).trans _ _ _ hds.symm
  · intro h
    induction h with
    | rel _ _ hstep => exact hstep.flattened_eq
    | refl _ => rfl
    | symm _ _ _ ih => exact ih.symm
    | trans _ _ _ _ _ ih ih' => exact ih.trans ih'

end Flattening

/-- **The same name exactly for confused ids.** -/
theorem outputFileName_eq_iff {id id' : String} :
    outputFileName id = outputFileName id' ↔ Confused id id' := by
  rw [Confused, ← flattened_eq_iff, ← String.toList_inj, outputFileName, outputFileName,
    String.toList_append, String.toList_append, List.append_left_inj, String.toList_ofList,
    String.toList_ofList]

instance : DecidableRel Confused := fun _ _ => decidable_of_iff _ outputFileName_eq_iff

/-- The slash need not stand where the underscores do. -/
example : Confused "a/_b" "a_/b" ∧ ¬ Confused "a/b" "a_b" := by decide

/-! ## Ids that are not confused -/

/-- One after the other, the characters are not an underscore beside an underscore or a slash. -/
def KeptApart (c d : Char) : Prop := (c = '_' → d ≠ '_' ∧ d ≠ '/') ∧ (c = '/' → d ≠ '_')

/-- No underscore stands beside an underscore or a slash. -/
def Spaced (id : String) : Prop := id.toList.IsChain KeptApart

instance : DecidableRel KeptApart := fun c d =>
  inferInstanceAs (Decidable ((c = '_' → d ≠ '_' ∧ d ≠ '/') ∧ (c = '/' → d ≠ '_')))

instance (id : String) : Decidable (Spaced id) :=
  inferInstanceAs (Decidable (id.toList.IsChain KeptApart))

/-- Behind an underscore of such an id there is nothing that is written with an underscore. -/
theorem flattened_ne_of_isChain {ds rest : List Char} (h : ('_' :: ds).IsChain KeptApart) :
    flattened ds ≠ '_' :: rest := by
  cases ds with
  | nil => exact (List.cons_ne_nil _ _).symm
  | cons d ds =>
      obtain ⟨hunderscore, hslash⟩ := (List.isChain_cons_cons.mp h).1.1 rfl
      rw [flattened_cons_of_ne hslash]
      exact fun heq => hunderscore (List.cons.inj heq).1

/-- Such an id can be read back from its name: two underscores in a row are a slash, and one alone
is itself. -/
theorem flattened_inj_of_isChain : ∀ {cs ds : List Char}, cs.IsChain KeptApart →
    ds.IsChain KeptApart → flattened cs = flattened ds → cs = ds
  | [], [], _, _, _ => rfl
  | [], d :: ds, _, _, h => by
      rw [flattened, flattened] at h
      split at h <;> exact absurd h.symm (List.cons_ne_nil _ _)
  | c :: cs, [], _, _, h => by
      rw [flattened, flattened] at h
      split at h <;> exact absurd h (List.cons_ne_nil _ _)
  | c :: cs, d :: ds, hcs, hds, h => by
      have ih : flattened cs = flattened ds → cs = ds :=
        flattened_inj_of_isChain hcs.tail hds.tail
      rw [flattened, flattened] at h
      split at h
      · rename_i hc
        split at h
        · rename_i hd
          rw [hc, hd, ih (List.cons.inj (List.cons.inj h).2).2]
        · obtain ⟨rfl, hrest⟩ := List.cons.inj h
          exact absurd hrest.symm (flattened_ne_of_isChain hds)
      · split at h
        · obtain ⟨rfl, hrest⟩ := List.cons.inj h
          exact absurd hrest (flattened_ne_of_isChain hcs)
        · obtain ⟨rfl, hrest⟩ := List.cons.inj h
          rw [ih hrest]

theorem Spaced.eq_of_confused {id id' : String} (h : Spaced id) (h' : Spaced id')
    (hconfused : Confused id id') : id = id' :=
  String.toList_inj.mp (flattened_inj_of_isChain h h' (flattened_eq_iff.mpr hconfused))

/-! ## Names as steps -/

/-- The text is a name that a walk can go into. -/
structure Plain (name : String) : Prop where
  noSlash : '/' ∉ name.toList
  step : Step.ofName? name = some (.into name)

theorem slash_not_mem_flattened : ∀ cs : List Char, '/' ∉ flattened cs
  | [] => List.not_mem_nil
  | c :: cs => by
      have hrest := slash_not_mem_flattened cs
      rw [flattened]
      split
      · simp [hrest]
      · rename_i hc
        simp [hrest, Ne.symm hc]

/-- A name ends with what stands for its format, so that it is neither of the dots. -/
theorem plain_outputFileName (id : String) : Plain (outputFileName id) := by
  have hname : (outputFileName id).toList = flattened id.toList ++ ".json".toList := by
    rw [outputFileName, String.toList_append, String.toList_ofList]
  have hne : ∀ s : String, s.toList.getLast? ≠ some 'n' → outputFileName id ≠ s := by
    rintro s hs rfl
    exact hs (by rw [hname, List.getLast?_append]; rfl)
  constructor
  · rw [hname, List.mem_append]
    exact not_or.mpr ⟨slash_not_mem_flattened _, by decide⟩
  · rw [Step.ofName?, if_neg (hne "" (by decide)), if_neg (hne "." (by decide)),
      if_neg (hne ".." (by decide))]

end RuleWiring
