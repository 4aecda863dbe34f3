import Mathlib
import RuleWiring.Parameters.Table
import RuleWiring.Proofs.Drafts

/-!
# Sorted tables

A table is sorted by its keys from the start, and no entry that is added changes that. As the
keys increase, adding the entries of a table one after another, as reading does, makes the same
table again. So a table that was written is read back entry by entry.
-/

namespace RuleWiring

/-! ## Sorted association lists -/

namespace Sorted

/-- A strict order that compares any two keys. -/
structure Strict {α : Type} (before : α → α → Bool) : Prop where
  irrefl : ∀ a, before a a = false
  trans : ∀ {a b c}, before a b = true → before b c = true → before a c = true
  total : ∀ {a b}, a ≠ b → before a b = false → before b a = true

/-- The keys increase, so that none comes twice. -/
def Increasing {α β : Type} (before : α → α → Bool) (l : List (α × β)) : Prop :=
  l.Pairwise fun e f => before e.1 f.1 = true

variable {α β : Type} [DecidableEq α] {before : α → α → Bool} {a : α} {b : β}
  {l l' : List (α × β)}

theorem mem_insert {e : α × β} (h : e ∈ insert before a b l) : e = (a, b) ∨ e ∈ l := by
  induction l with
  | nil => exact Or.inl (List.mem_singleton.mp h)
  | cons f rest ih =>
      obtain ⟨k, v⟩ := f
      rw [insert] at h
      split at h
      · rcases List.mem_cons.mp h with h | h
        · exact Or.inl h
        · exact Or.inr (List.mem_cons_of_mem _ h)
      · split at h
        · exact List.mem_cons.mp h
        · rcases List.mem_cons.mp h with h | h
          · exact Or.inr (List.mem_cons.mpr (Or.inl h))
          · exact (ih h).imp_right (List.mem_cons_of_mem _)

theorem Increasing.insert (hbefore : Strict before) (h : Increasing before l) :
    Increasing before (insert before a b l) := by
  induction l with
  | nil => exact List.pairwise_singleton _ _
  | cons f rest ih =>
      obtain ⟨k, v⟩ := f
      obtain ⟨hk, hrest⟩ := List.pairwise_cons.mp h
      rw [Sorted.insert]
      split
      · -- the entry has the key already
        rename_i heq
        exact List.pairwise_cons.mpr ⟨fun e he => heq ▸ hk e he, hrest⟩
      · rename_i hne
        split
        · -- it belongs in front of the first entry, and so of all
          rename_i hak
          refine List.pairwise_cons.mpr ⟨fun e he => ?_, h⟩
          rcases List.mem_cons.mp he with rfl | he
          · exact hak
          · exact hbefore.trans hak (hk e he)
        · -- it goes in further behind
          rename_i hak
          refine List.pairwise_cons.mpr ⟨fun e he => ?_, ih hrest⟩
          rcases mem_insert he with rfl | he
          · exact hbefore.total hne (Bool.eq_false_iff.mpr hak)
          · exact hk e he

theorem Increasing.insertNew (hbefore : Strict before) (h : Increasing before l) :
    Increasing before (insertNew before a b l) := by
  unfold Sorted.insertNew
  split
  · exact h
  · exact h.insert hbefore

theorem mem_insertNew {e : α × β} (h : e ∈ insertNew before a b l) : e = (a, b) ∨ e ∈ l := by
  unfold insertNew at h
  split at h
  · exact Or.inr h
  · exact mem_insert h

/-- A key behind all others is added at the end. -/
theorem insert_last (hbefore : Strict before) (h : ∀ e ∈ l, before e.1 a = true) :
    insert before a b l = l ++ [(a, b)] := by
  induction l with
  | nil => rfl
  | cons f rest ih =>
      obtain ⟨k, v⟩ := f
      have hk : before k a = true := h _ List.mem_cons_self
      have hne : a ≠ k := by
        rintro rfl
        exact absurd hk (by simp [hbefore.irrefl])
      have hak : ¬before a k = true := by
        intro hak
        exact absurd (hbefore.trans hak hk) (by simp [hbefore.irrefl])
      rw [insert, if_neg hne, if_neg hak, ih fun e he => h e (List.mem_cons_of_mem _ he)]
      rfl

/-- **Adding increasing entries one after another** puts them behind those that are there. -/
theorem foldl_insert (hbefore : Strict before) (h : Increasing before (l ++ l')) :
    l'.foldl (fun s e => insert before e.1 e.2 s) l = l ++ l' := by
  induction l' generalizing l with
  | nil => exact (List.append_nil l).symm
  | cons e rest ih =>
      have hlast : ∀ f ∈ l, before f.1 e.1 = true := fun f hf =>
        (List.pairwise_append.mp h).2.2 f hf e List.mem_cons_self
      rw [List.append_cons] at h ⊢
      rw [List.foldl_cons, insert_last hbefore hlast]
      exact ih h

/-- What is found for a key is an entry. -/
theorem mem_of_get? (h : get? a l = some b) : (a, b) ∈ l := by
  induction l with
  | nil => cases h
  | cons e rest ih =>
      obtain ⟨k, v⟩ := e
      rw [get?] at h
      split at h
      · rename_i heq
        injection h with h
        rw [heq, h]
        exact List.mem_cons_self
      · exact List.mem_cons_of_mem _ (ih h)

theorem get?_map_values {γ : Type} (f : β → γ) (a : α) (l : List (α × β)) :
    get? a (l.map fun e => (e.1, f e.2)) = (get? a l).map f := by
  induction l with
  | nil => rfl
  | cons e rest ih =>
      rw [List.map_cons, get?, get?, ih]
      split <;> rfl

end Sorted

/-! ## Entries read back -/

section Entries

variable {α β σ : Type} {m : Medium} {decode : Decoder β} (key : String → Option α)
  (name : α → String) (hkey : ∀ a, key (name a) = some a) (f : β → Json)

include hkey

/-- The entries of an object are added one after another. -/
theorem Decoder.entries_draft (insert : σ → α → β → σ) : ∀ (l : List (α × β)) (s : σ),
    (∀ e ∈ l, decode ((f e.2).draft m) = .ok e.2) →
    entries key decode insert s (Json.draftMembers m (l.map fun e => (name e.1, f e.2))) none
      = .ok (l.foldl (fun s e => insert s e.1 e.2) s)
  | [], _, _ => rfl
  | e :: l, s, h => by
      rw [List.map_cons, Json.draftMembers, entries, hkey, h e List.mem_cons_self]
      exact entries_draft insert l _ fun x hx => h x (List.mem_cons_of_mem _ hx)

/-- **Increasing entries that were written as an object are read back.** The collection that is
read is made of a list, and adding to it is adding to the list. -/
theorem Decoder.map_draft [DecidableEq α] {before : α → α → Bool} {insert : σ → α → β → σ}
    (hbefore : Sorted.Strict before) (make : List (α × β) → σ)
    (hinsert : ∀ l (e : α × β), insert (make l) e.1 e.2 = make (Sorted.insert before e.1 e.2 l))
    {l : List (α × β)} (h : Sorted.Increasing before l)
    (hdecode : ∀ e ∈ l, decode ((f e.2).draft m) = .ok e.2) :
    map key decode (make []) insert
      ((Json.object (l.map fun e => (name e.1, f e.2))).draft m) = .ok (make l) := by
  have hfold : l.foldl (fun s e => insert s e.1 e.2) (make []) = make l :=
    (List.foldl_hom make hinsert).trans (congrArg make (Sorted.foldl_insert hbefore h))
  rw [Json.draft, map, entries_draft key name hkey f insert l _ hdecode, hfold]

end Entries

/-! ## Records by code -/

theorem Exocode.before_strict : Sorted.Strict Exocode.before where
  irrefl a := by simp [before]
  trans h h' := by
    simp only [before, decide_eq_true_iff] at h h' ⊢
    exact UInt8.lt_trans h h'
  total {a b} hne h := by
    obtain ⟨x⟩ := a
    obtain ⟨y⟩ := b
    simp only [before, decide_eq_true_iff, decide_eq_false_iff_not, UInt8.not_lt] at h ⊢
    exact UInt8.lt_of_le_of_ne h fun heq => hne (by rw [heq])

namespace ParameterTable

variable {t : ParameterTable} {m : Medium}

def Increasing (t : ParameterTable) : Prop := Sorted.Increasing Exocode.before t.entries

theorem increasing_empty : Increasing {} := List.Pairwise.nil

theorem Increasing.insertNew (h : t.Increasing) (c : Exocode) (r : ParameterRecord) :
    (t.insertNew c r).Increasing :=
  Sorted.Increasing.insertNew Exocode.before_strict h

/-- All reals that are held. -/
def reals (t : ParameterTable) : List Binary64 := t.entries.flatMap fun e => e.2.reals

theorem mem_reals {c : Exocode} {r : ParameterRecord} (h : t.get? c = some r) {x : Binary64}
    (hx : x ∈ r.reals) : x ∈ t.reals :=
  List.mem_flatMap.mpr ⟨(c, r), Sorted.mem_of_get? h, hx⟩

theorem decoder_draft (h : t.Increasing) (hreals : ∀ x ∈ t.reals, m.Carries x) :
    decoder (t.toJson.draft m) = .ok t := by
  have hkey : ∀ c : Exocode, (Exocode.parse c.text).toOption = some c := fun c =>
    congrArg Except.toOption (Exocode.parse_text c)
  have hrecords : ∀ e ∈ t.entries, ParameterRecord.decoder (e.2.toJson.draft m) = .ok e.2 :=
    fun e he => ParameterRecord.decoder_draft fun x hx =>
      hreals x (List.mem_flatMap.mpr ⟨e, he, hx⟩)
  have hentries : entriesDecoder
      ((Json.object (t.entries.map fun e => (e.1.text, e.2.toJson))).draft m) = .ok t :=
    Decoder.map_draft (fun s => (Exocode.parse s).toOption) Exocode.text hkey
      ParameterRecord.toJson Exocode.before_strict ParameterTable.mk (fun _ _ => rfl) h hrecords
  rw [toJson, Json.draft, decoder, Decoder.record]
  simp only [Json.draftMembers]
  rw [Decoder.members_field rfl rfl hentries]
  rfl

end ParameterTable

/-! ## Codes by id -/

namespace BridgeTable

theorem before_strict : Sorted.Strict before where
  irrefl a := by simp [before]
  trans h h' := by
    simp only [before, decide_eq_true_iff] at h h' ⊢
    exact String.lt_trans h h'
  total hne h := by
    simp only [before, decide_eq_true_iff, decide_eq_false_iff_not, not_lt] at h ⊢
    exact lt_of_le_of_ne h hne.symm

variable {t : BridgeTable} {m : Medium}

def Increasing (t : BridgeTable) : Prop := Sorted.Increasing before t.codes

theorem increasing_empty : Increasing {} := List.Pairwise.nil

theorem Increasing.insertNew (h : t.Increasing) (id : String) (c : Exocode) :
    (t.insertNew id c).Increasing :=
  Sorted.Increasing.insertNew before_strict h

theorem decoder_draft (h : t.Increasing) : decoder (t.toJson.draft m) = .ok t := by
  have hcodes : Decoder.map some Exocode.decoder {} insert
      ((Json.object (t.codes.map fun e => (e.1, e.2.toJson))).draft m) = .ok t :=
    Decoder.map_draft some (fun id => id) (fun _ => rfl) Exocode.toJson before_strict
      BridgeTable.mk (fun _ _ => rfl) h fun e _ => Exocode.decoder_draft e.2
  rw [toJson, Json.draft, decoder, Decoder.record]
  simp only [Json.draftMembers]
  rw [Decoder.members_field rfl rfl hcodes]
  rfl

end BridgeTable

end RuleWiring
