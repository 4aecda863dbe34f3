import Mathlib
import RuleWiring.Proofs.Blocks

/-!
# Libraries with an index

A library finds a pattern by looking through all of them. It can also be kept with an index, which
has for each id the place of its pattern. Then the same ids are held twice, and every change has to
keep the two in step: a pattern with a new id gets a place behind all others, and one whose id is
there already takes the place that the index has for it.

This file follows a library with an index from the reading of a text through any number of patterns
that are inserted. Next to the library without one it goes through the same states, and with the
same errors; no place that the index has is ever empty. What is found for an id is the pattern that
was added last.
-/

namespace RuleWiring

theorem eraseDups_concat {α : Type} [DecidableEq α] (l : List α) (a : α) :
    (l ++ [a]).eraseDups = if a ∈ l then l.eraseDups else l.eraseDups ++ [a] := by
  have hsingle : [a].eraseDups = [a] := rfl
  rw [List.eraseDups_append]
  split <;> rename_i ha <;> simp [List.removeAll, ha, hsingle]

theorem getElem?_concat_eq_some_iff {l : List String} {a b : String} {i : Nat} :
    (l ++ [a])[i]? = some b ↔ l[i]? = some b ∨ i = l.length ∧ a = b := by
  grind

namespace Library

/-! ## The patterns that have been added -/

section Added

variable {l : Library} {added : List Pattern} {p : Pattern} {id : String}

theorem ids_insert (l : Library) (p : Pattern) :
    (l.insert p).ids = if p.id ∈ l.ids then l.ids else l.ids ++ [p.id] := by
  rw [insert]
  split
  · -- a pattern is only replaced by one with the same id
    rw [ids, ids, List.map_map]
    refine List.map_congr_left fun q _ => ?_
    rw [Function.comp_apply]
    split
    · rename_i hq
      exact hq.symm
    · rfl
  · rw [ids, ids, List.map_append]
    rfl

theorem id_of_get? {q : Pattern} (h : l.get? id = some q) : q.id = id := by
  simpa using List.find?_some h

theorem get?_eq_none_iff : l.get? id = none ↔ id ∉ l.ids := by
  simp [get?, ids, List.find?_eq_none]

theorem get?_insert (l : Library) (p : Pattern) (id : String) :
    (l.insert p).get? id = if p.id = id then some p else l.get? id := by
  rw [insert]
  split
  · rename_i hmem
    have hsame : (fun q : Pattern => decide (q.id = id)) ∘ (fun q => if q.id = p.id then p else q)
        = fun q => decide (q.id = id) := by
      funext q
      by_cases hq : q.id = p.id <;> simp [hq]
    have hmap : get? ⟨l.patterns.map fun q => if q.id = p.id then p else q⟩ id
        = (l.get? id).map fun q => if q.id = p.id then p else q := by
      rw [get?, get?, List.find?_map, hsame]
    rw [hmap]
    cases hget : l.get? id with
    | none =>
        have hid : p.id ≠ id := fun hid => get?_eq_none_iff.mp hget (hid ▸ hmem)
        rw [if_neg hid, Option.map_none]
    | some q => simp only [Option.map_some, id_of_get? hget, eq_comm, apply_ite some]
  · rename_i hnew
    have hlast : get? ⟨l.patterns ++ [p]⟩ id
        = (l.get? id).or (if p.id = id then some p else none) := by
      rw [get?, get?, List.find?_append, List.find?_singleton]
      simp only [decide_eq_true_iff]
    rw [hlast]
    split
    · rename_i hid
      rw [get?_eq_none_iff.mpr (hid ▸ hnew), Option.none_or]
    · exact Option.or_none

/-- What a library holds of the patterns that have been added to it, in order. -/
structure Holds (l : Library) (added : List Pattern) : Prop where
  /-- For each id the last pattern with that id. -/
  latest : ∀ id, l.get? id = added.reverse.find? (·.id = id)
  /-- The ids stand in the order in which they came up first. -/
  ids : l.ids = (added.map (·.id)).eraseDups

theorem holds_empty : Holds {} [] := ⟨fun _ => rfl, rfl⟩

theorem Holds.insert (h : l.Holds added) (p : Pattern) : (l.insert p).Holds (added ++ [p]) := by
  refine ⟨fun id => ?_, ?_⟩
  · rw [get?_insert, List.reverse_concat, List.find?_cons, h.latest]
    by_cases hid : p.id = id <;> simp [hid]
  · rw [ids_insert, List.map_append, List.map_singleton, eraseDups_concat, h.ids]
    simp only [List.mem_eraseDups]

theorem Holds.insertAll : ∀ {l : Library} {added : List Pattern}, l.Holds added →
    ∀ ps : List Pattern, (ps.foldl Library.insert l).Holds (added ++ ps)
  | _, _, h, [] => by rwa [List.append_nil]
  | l, added, h, p :: ps => by
      rw [List.append_cons, List.foldl_cons]
      exact (h.insert p).insertAll ps

/-- Patterns with ids of their own are all held. -/
theorem holds_of_nodup (ps : List Pattern) (h : (ps.map (·.id)).Nodup) : Holds ⟨ps⟩ ps := by
  induction ps using List.reverseRecOn with
  | nil => exact holds_empty
  | append_singleton ps p ih =>
      rw [List.map_append, List.nodup_append] at h
      obtain ⟨hps, _, hnew⟩ := h
      have hfresh : p.id ∉ Library.ids ⟨ps⟩ := fun hmem => hnew _ hmem _ (by simp) rfl
      have hinsert : Library.insert ⟨ps⟩ p = ⟨ps ++ [p]⟩ := if_neg hfresh
      exact hinsert ▸ (ih hps).insert p

end Added

/-! ## Patterns with an index -/

/-- Patterns in order, and the place of the pattern of each id. -/
structure Indexed where
  patterns : Array Pattern := #[]
  index : Std.HashMap String Nat := {}

namespace Indexed

/-- Adds a pattern at the end. -/
def add (x : Indexed) (p : Pattern) : Indexed where
  patterns := x.patterns.push p
  index := x.index.insert p.id x.patterns.size

/-- Adds a pattern unless its id has a place; `line` is where that was noticed. -/
def push (x : Indexed) (p : Pattern) (line : Nat) : Except ParseError Indexed :=
  if x.index.contains p.id then .error (.duplicate line p.id) else .ok (x.add p)

/-- Puts a pattern into the place of its id, or adds it. There is no result if the place is not
among those of the patterns. -/
def insert (x : Indexed) (p : Pattern) : Option Indexed :=
  match x.index[p.id]? with
  | none => some (x.add p)
  | some i =>
      if h : i < x.patterns.size then some { x with patterns := x.patterns.set i p } else none

/-- The pattern in the place of an id, if it has one. There is no result if the place is not among
those of the patterns. -/
def get? (x : Indexed) (id : String) : Option (Option Pattern) :=
  match x.index[id]? with
  | none => some none
  | some i => x.patterns[i]?.map some

/-- Puts the pattern whose block has ended into the library. -/
def finish (x : Indexed) (r : Reading) (line : Nat) : Except ParseError Indexed :=
  match r.current with
  | none => .ok x
  | some p => x.push p line

/-- Takes in a trimmed line. The reading only says what is open; its own library is not used. -/
def step (x : Indexed) (r : Reading) (number : Nat) (line : String) :
    Except ParseError (Indexed × Reading) :=
  match Line.ofText line with
  | .heading id =>
      if id = "" then .error (.missingId number)
      else
        match x.finish r.closed number with
        | .error e => .error e
        | .ok x => .ok (x, { current := some { id := id } })
  | _ => (r.step number line).map fun r => (x, r)

/-- Takes in lines, the first of which has a given number. -/
def steps (x : Indexed) (r : Reading) (number : Nat) :
    List String → Except ParseError (Indexed × Reading)
  | [] => .ok (x, r)
  | line :: rest =>
      match x.step r number (Text.trim line) with
      | .error e => .error e
      | .ok (x, r) => x.steps r (number + 1) rest

def parse (text : String) : Except ParseError Indexed :=
  let lines := Text.lines text
  match steps {} {} 1 lines with
  | .error e => .error e
  | .ok (x, r) => x.finish r.closed lines.length

/-! ## The index in step with the patterns -/

/-- The same patterns as in the library, and an index that has their ids and no others, each with
the place of its pattern. -/
structure Indexes (x : Indexed) (l : Library) : Prop where
  patterns : x.patterns.toList = l.patterns
  place : ∀ (id : String) (i : Nat), x.index[id]? = some i ↔ l.ids[i]? = some id

variable {x : Indexed} {l : Library} {p : Pattern} {id : String} {i : Nat}

theorem indexes_empty : Indexes {} {} := ⟨rfl, fun id i => by simp [ids]⟩

theorem getElem?_ids (l : Library) (i : Nat) : l.ids[i]? = l.patterns[i]?.map (·.id) :=
  List.getElem?_map

theorem Indexes.unique {j : Nat} (h : Indexes x l) (hi : l.ids[i]? = some id)
    (hj : l.ids[j]? = some id) : i = j := by
  rw [← h.place] at hi hj
  exact Option.some.inj (hi.symm.trans hj)

theorem Indexes.nodup (h : Indexes x l) : l.ids.Nodup := by
  rw [List.nodup_iff_getElem?_ne_getElem?]
  intro i j hij hj heq
  have hid := List.getElem?_eq_getElem hj
  exact absurd (h.unique (heq.trans hid) hid) hij.ne

theorem Indexes.contains_iff (h : Indexes x l) : x.index.contains id = true ↔ id ∈ l.ids := by
  rw [Std.HashMap.contains_eq_isSome_getElem?, Option.isSome_iff_exists, List.mem_iff_getElem?]
  exact exists_congr (h.place id)

theorem Indexes.getElem?_eq_none_iff (h : Indexes x l) : x.index[id]? = none ↔ id ∉ l.ids := by
  rw [← h.contains_iff, Std.HashMap.contains_eq_isSome_getElem?, Option.not_isSome_iff_eq_none]

/-- In the place of an id there is a pattern with that id, and it is the one that is found. -/
theorem Indexes.getElem?_patterns (h : Indexes x l) (hi : x.index[id]? = some i) :
    ∃ q, x.patterns[i]? = some q ∧ l.get? id = some q := by
  have hplace := (h.place id i).mp hi
  obtain ⟨q, hq, _⟩ := Option.map_eq_some_iff.mp ((getElem?_ids l i).symm.trans hplace)
  cases hget : l.get? id with
  | none => exact absurd (List.mem_of_getElem? hplace) (get?_eq_none_iff.mp hget)
  | some q' =>
      obtain ⟨j, hj⟩ := List.mem_iff_getElem?.mp (List.mem_of_find?_eq_some hget)
      have hplace' : l.ids[j]? = some id := by
        rw [getElem?_ids, hj, Option.map_some, id_of_get? hget]
      refine ⟨q', ?_, rfl⟩
      rw [← Array.getElem?_toList, h.patterns, h.unique hplace hplace', hj]

/-- **What is found by the index** is what is found by looking through all patterns. -/
theorem Indexes.get? (h : Indexes x l) (id : String) : x.get? id = some (l.get? id) := by
  rw [Indexed.get?]
  cases hi : x.index[id]? with
  | none => rw [Library.get?_eq_none_iff.mpr (h.getElem?_eq_none_iff.mp hi)]
  | some i =>
      obtain ⟨q, hq, hget⟩ := h.getElem?_patterns hi
      rw [hget]
      dsimp only
      rw [hq, Option.map_some]

theorem Indexes.add (h : Indexes x l) (hnew : p.id ∉ l.ids) :
    Indexes (x.add p) ⟨l.patterns ++ [p]⟩ := by
  have hsize : x.patterns.size = l.ids.length := by
    rw [← Array.length_toList, h.patterns, ids, List.length_map]
  refine ⟨by rw [Indexed.add, Array.toList_push, h.patterns], fun id i => ?_⟩
  have hids : Library.ids ⟨l.patterns ++ [p]⟩ = l.ids ++ [p.id] := List.map_append
  rw [hids, getElem?_concat_eq_some_iff, ← h.place, Indexed.add, Std.HashMap.getElem?_insert, hsize]
  by_cases hid : p.id = id
  · have hnone : x.index[id]? = none := h.getElem?_eq_none_iff.mpr (hid ▸ hnew)
    simp [hid, hnone, eq_comm]
  · simp [hid]

/-- The pattern in the place of an id is the only one with that id. -/
theorem Indexes.set_eq_map (h : Indexes x l) (hi : x.index[p.id]? = some i) :
    l.patterns.set i p = l.patterns.map fun q => if q.id = p.id then p else q := by
  have hplace := (h.place p.id i).mp hi
  refine List.ext_getElem? fun j => ?_
  rw [List.getElem?_map, List.getElem?_set]
  cases hj : l.patterns[j]? with
  | none =>
      have hlength : l.patterns.length ≤ j := List.getElem?_eq_none_iff.mp hj
      split
      · rename_i hij
        rw [if_neg (by omega), Option.map_none]
      · rfl
  | some q =>
      have hq : l.ids[j]? = some q.id := by rw [getElem?_ids, hj, Option.map_some]
      obtain ⟨hlt, _⟩ := List.getElem?_eq_some_iff.mp hj
      rw [Option.map_some]
      split
      · rename_i hij
        subst hij
        rw [hplace] at hq
        rw [if_pos hlt, if_pos (Option.some.inj hq).symm]
      · rename_i hij
        have hid : q.id ≠ p.id := by
          intro hid
          rw [hid] at hq
          exact hij (h.unique hplace hq)
        rw [if_neg hid]

/-- **Inserting keeps the two in step**, and there is always a place to put the pattern. -/
theorem Indexes.insert (h : Indexes x l) (p : Pattern) :
    ∃ y, x.insert p = some y ∧ Indexes y (l.insert p) := by
  rw [Indexed.insert]
  cases hi : x.index[p.id]? with
  | none =>
      have hnew := h.getElem?_eq_none_iff.mp hi
      have hinsert : l.insert p = ⟨l.patterns ++ [p]⟩ := if_neg hnew
      exact ⟨x.add p, rfl, hinsert ▸ h.add hnew⟩
  | some i =>
      have hmem := List.mem_of_getElem? ((h.place p.id i).mp hi)
      obtain ⟨q, hq, _⟩ := h.getElem?_patterns hi
      obtain ⟨hlt, _⟩ := Array.getElem?_eq_some_iff.mp hq
      refine ⟨{ x with patterns := x.patterns.set i p }, dif_pos hlt, ?_, fun id j => ?_⟩
      · rw [Array.toList_set, h.patterns, h.set_eq_map hi, Library.insert, if_pos hmem]
      · rw [ids_insert, if_pos hmem]
        exact h.place id j

theorem Indexes.insertAll : ∀ {x : Indexed} {l : Library}, Indexes x l → ∀ ps : List Pattern,
    ∃ y, ps.foldlM Indexed.insert x = some y ∧ Indexes y (ps.foldl Library.insert l)
  | x, _, h, [] => ⟨x, rfl, h⟩
  | x, l, h, p :: ps => by
      obtain ⟨y, hy, hl⟩ := h.insert p
      obtain ⟨z, hz, hend⟩ := hl.insertAll ps
      exact ⟨z, by rw [List.foldlM_cons, hy]; exact hz, hend⟩

/-! ## Reading with an index -/

/-- Reading with an index and reading without: the same errors, or results that go together. -/
inductive Matches {α β : Type} (R : α → β → Prop) :
    Except ParseError α → Except ParseError β → Prop where
  | ok {a : α} {b : β} : R a b → Matches R (.ok a) (.ok b)
  | error (e : ParseError) : Matches R (.error e) (.error e)

/-- What is open is the same, and the library has an index. -/
structure Carries (s : Indexed × Reading) (r : Reading) : Prop where
  indexes : Indexes s.1 r.library
  reading : r = { s.2 with library := r.library }

variable {r r' : Reading} {number : Nat}

theorem closed_library (r : Reading) (l : Library) :
    Reading.closed { r with library := l } = { r.closed with library := l } := by
  obtain ⟨_, current, opened⟩ := r
  cases current <;> cases opened <;> rfl

/-- Only a heading has to do with the library. -/
theorem step_library {line : String} (h : ∀ id, Line.ofText line ≠ .heading id) (r : Reading)
    (l : Library) : Reading.step { r with library := l } number line
      = (r.step number line).map fun r' => { r' with library := l } := by
  rw [Reading.step, Reading.step, closed_library]
  cases hof : Line.ofText line with
  | heading id => exact absurd hof (h id)
  | directive name value =>
      dsimp only
      cases r.closed.current with
      | none => rfl
      | some p =>
          dsimp only
          cases applyDirective p name value <;> rfl
  | clause c text =>
      dsimp only
      cases r.closed.current <;> rfl
  | aside => rfl
  | text s =>
      obtain ⟨_, current, opened⟩ := r
      cases opened with
      | none => rfl
      | some o =>
          dsimp only
          split <;> rfl

theorem Indexes.finish (h : Indexes x l) (hr : r' = { r with library := l }) (number : Nat) :
    Matches Indexes (x.finish r number) (r'.finished number) := by
  subst hr
  rw [Indexed.finish, Reading.finished]
  dsimp only
  cases r.current with
  | none => exact .ok h
  | some p =>
      dsimp only
      rw [Indexed.push]
      by_cases hmem : p.id ∈ l.ids
      · rw [if_pos (h.contains_iff.mpr hmem), if_pos hmem]
        exact .error _
      · rw [if_neg (h.contains_iff.not.mpr hmem), if_neg hmem]
        exact .ok (h.add hmem)

theorem Carries.step {s : Indexed × Reading} (h : Carries s r) (number : Nat) (line : String) :
    Matches Carries (s.1.step s.2 number line) (r.step number line) := by
  obtain ⟨x, open_⟩ := s
  obtain ⟨hx, hr⟩ := h
  dsimp only at hx hr ⊢
  by_cases hheading : ∃ id, Line.ofText line = .heading id
  · obtain ⟨id, hof⟩ := hheading
    have hindexed : x.step open_ number line = if id = "" then .error (.missingId number)
        else
          match x.finish open_.closed number with
          | .error e => .error e
          | .ok x => .ok (x, { current := some { id := id } }) := by rw [Indexed.step, hof]
    rw [hindexed, Reading.step, hof]
    dsimp only
    split
    · exact .error _
    · have hclosed : r.closed = { open_.closed with library := r.library } :=
        (congrArg Reading.closed hr).trans (closed_library open_ r.library)
      have hfinish := hx.finish hclosed number
      generalize x.finish open_.closed number = outcome at hfinish
      generalize r.closed.finished number = outcome' at hfinish
      cases hfinish with
      | error e => exact .error e
      | ok hindexes => exact .ok ⟨hindexes, rfl⟩
  · have hnot : ∀ id, Line.ofText line ≠ .heading id := fun id hof => hheading ⟨id, hof⟩
    have hstep : x.step open_ number line = (open_.step number line).map fun r => (x, r) := by
      rw [Indexed.step]
      split
      · rename_i id hof
        exact absurd hof (hnot id)
      · rfl
    rw [hr, step_library hnot, hstep]
    cases open_.step number line with
    | error e => exact .error e
    | ok r₁ => exact .ok ⟨hx, rfl⟩

/-- From line to line, by recursion over those that are left. -/
theorem Carries.steps : ∀ (lines : List String) {s : Indexed × Reading} {r : Reading},
    Carries s r → ∀ number, Matches Carries (s.1.steps s.2 number lines) (r.steps number lines)
  | [], _, _, h, _ => .ok h
  | line :: rest, s, r, h, number => by
      have hstep := h.step number (Text.trim line)
      rw [Indexed.steps, Reading.steps]
      generalize s.1.step s.2 number (Text.trim line) = outcome at hstep
      generalize r.step number (Text.trim line) = outcome' at hstep
      cases hstep with
      | error e => exact .error e
      | ok hnext => exact hnext.steps rest (number + 1)

/-- **Reading with an index and reading without** refuse the same texts, with the same errors, and
come to the same libraries. -/
theorem parse_matches (text : String) :
    Matches Indexes (Indexed.parse text) (Library.parse text) := by
  have hstart : Carries ({}, {}) {} := ⟨indexes_empty, rfl⟩
  have hsteps := hstart.steps (Text.lines text) 1
  rw [Indexed.parse, Library.parse]
  dsimp only at hsteps ⊢
  generalize Indexed.steps {} {} 1 (Text.lines text) = outcome at hsteps
  generalize Reading.steps {} 1 (Text.lines text) = outcome' at hsteps
  cases hsteps with
  | error e => exact .error e
  | @ok s r hend =>
      exact hend.indexes.finish (by rw [hend.reading, closed_library]) (Text.lines text).length

end Indexed

/-! ## From the start to the last pattern that is inserted -/

/-- A library to begin with: that of a text, or an empty one. -/
def opened : Option String → Except ParseError Library
  | none => .ok {}
  | some text => parse text

/-- The same with an index. -/
def Indexed.opened : Option String → Except ParseError Indexed
  | none => .ok {}
  | some text => Indexed.parse text

/-- The patterns to begin with: those that the blocks of the text describe, or none. -/
def Described : Option String → List Pattern → Prop
  | none, ps => ps = []
  | some text, ps => ∃ front blocks, Cut ((Text.lines text).map Text.trim) front blocks
      ∧ List.Forall₂ Block.Describes blocks ps

/-- A library behind some additions, with its index. -/
structure Consistent (l : Library) (x : Indexed) (added : List Pattern) : Prop where
  distinct : l.ids.Nodup
  /-- With the index come the same patterns, … -/
  patterns : x.patterns.toList = l.patterns
  /-- … the index has their ids and no others, each with the place of its pattern, … -/
  index : ∀ (id : String) (i : Nat), x.index[id]? = some i ↔ l.ids[i]? = some id
  /-- … and the same pattern is found by it. -/
  found : ∀ id, x.get? id = some (l.get? id)
  /-- That is the pattern that was added last with the id, if there has been any. -/
  latest : ∀ id, l.get? id = added.reverse.find? (·.id = id)
  /-- The ids stand in the order in which they came up first, … -/
  ids : l.ids = (added.map (·.id)).eraseDups
  /-- … and there are as many patterns as different ids. -/
  length : l.patterns.length = (added.map (·.id)).toFinset.card

theorem consistent_of_indexes {l : Library} {x : Indexed} {added : List Pattern}
    (hx : Indexed.Indexes x l) (hl : l.Holds added) : Consistent l x added where
  distinct := hx.nodup
  patterns := hx.patterns
  index := hx.place
  found := hx.get?
  latest := hl.latest
  ids := hl.ids
  length := by
    have hsame : (added.map (·.id)).toFinset = l.ids.toFinset := by
      ext id
      rw [List.mem_toFinset, List.mem_toFinset, hl.ids, List.mem_eraseDups]
    rw [hsame, List.toFinset_card_of_nodup hx.nodup, Library.ids, List.length_map]

theorem exists_opened {source : Option String} {l : Library} (h : opened source = .ok l) :
    ∃ read x, Described source read ∧ Indexed.opened source = .ok x ∧ Indexed.Indexes x l
      ∧ l.Holds read := by
  cases source with
  | none =>
      injection h with h
      subst h
      exact ⟨[], {}, rfl, rfl, Indexed.indexes_empty, holds_empty⟩
  | some text =>
      obtain ⟨front, blocks, hcut, hblocks⟩ := exists_blocks h
      have hmatches := Indexed.parse_matches text
      rw [show Library.parse text = .ok l from h] at hmatches
      generalize hx : Indexed.parse text = outcome at hmatches
      cases hmatches with
      | @ok x _ hindexes =>
          exact ⟨l.patterns, x, ⟨front, blocks, hcut, hblocks⟩, hx, hindexes,
            holds_of_nodup l.patterns hindexes.nodup⟩

/--
**A library and its index stay in step**, whatever is inserted.

The library is empty at first or comes from any text that is read, and any patterns are inserted
into it, with new ids or with old ones.
-/
theorem insertAll_consistent {source : Option String} {l : Library}
    (h : opened source = .ok l) (inserted : List Pattern) :
    ∃ read x x', Described source read ∧ Indexed.opened source = .ok x
      ∧ inserted.foldlM Indexed.insert x = some x'
      ∧ Consistent (inserted.foldl insert l) x' (read ++ inserted) := by
  obtain ⟨read, x, hread, hx, hindexes, hholds⟩ := exists_opened h
  obtain ⟨x', hx', hend⟩ := hindexes.insertAll inserted
  exact ⟨read, x, x', hread, hx, hx', consistent_of_indexes hend (hholds.insertAll inserted)⟩

/-- Two patterns that are read, a third one, and then the first one again. -/
theorem insertAll_consistent_replaced :
    ∃ l, opened (some "@flexiarg a\n@title A\n@flexiarg b\n") = .ok l
      ∧ ([{ id := "c" }, { id := "a", title := some "Z" }].foldl insert l).patterns
        = [{ id := "a", title := some "Z" }, { id := "b" }, { id := "c" }]
      ∧ ∃ read x x', Described (some "@flexiarg a\n@title A\n@flexiarg b\n") read
        ∧ Indexed.opened (some "@flexiarg a\n@title A\n@flexiarg b\n") = .ok x
        ∧ [{ id := "c" }, { id := "a", title := some "Z" }].foldlM Indexed.insert x = some x'
        ∧ Consistent ([{ id := "c" }, { id := "a", title := some "Z" }].foldl insert l) x'
          (read ++ [{ id := "c" }, { id := "a", title := some "Z" }]) := by
  have hread : (opened (some "@flexiarg a\n@title A\n@flexiarg b\n")).map patterns
      = .ok [{ id := "a", title := some "A" }, { id := "b" }] := by decide +kernel
  obtain ⟨l, hl, hpatterns⟩ := map_eq_ok hread
  refine ⟨l, hl, ?_, insertAll_consistent hl _⟩
  obtain ⟨patterns⟩ := l
  dsimp only at hpatterns
  subst hpatterns
  decide +kernel

end Library

end RuleWiring
