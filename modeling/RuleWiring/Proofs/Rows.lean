import Mathlib
import RuleWiring.Parameters.Table

/-!
# Tables row by row

A table is read from the lines of a text one after another, and a line adds an entry only if its
key has none yet. So what the table has for a key is what the first line says that has something
to say about it; lines that are silent or cannot be read play no part, wherever they stand. A text
that is empty or ends with a line feed can be put in front of another one without touching the
lines of either, and then its entries come first.

Both tables are read in this way, and `Rowwise` says it of both.
-/

namespace RuleWiring

/-! ## Lines of two texts -/

namespace Text

theorem splitOn_ne_nil (separator : Char) (cs : List Char) : splitOn separator cs ≠ [] := by
  cases cs with
  | nil => exact List.cons_ne_nil _ _
  | cons c cs =>
      rw [splitOn]
      split
      · exact List.cons_ne_nil _ _
      · split <;> exact List.cons_ne_nil _ _

/-- A separator keeps the pieces on both sides of it apart. -/
theorem splitOn_append (separator : Char) : ∀ a b : List Char,
    splitOn separator (a ++ separator :: b) = splitOn separator a ++ splitOn separator b
  | [], b => by simp [splitOn]
  | c :: a, b => by
      rw [List.cons_append, splitOn, splitOn, splitOn_append separator a b]
      split
      · rfl
      · cases h : splitOn separator a with
        | nil => exact absurd h (splitOn_ne_nil separator a)
        | cons piece rest => rfl

/-- Pieces with others behind them are lines that have ended. -/
theorem closeLines_append : ∀ (ended : List (List Char)) {rest : List (List Char)}, rest ≠ [] →
    closeLines (ended ++ rest) = ended.map dropReturn ++ closeLines rest
  | [], _, _ => rfl
  | piece :: ended, rest, h => by
      have hrest : ended ++ rest ≠ [] := fun hnil => h (List.append_eq_nil_iff.mp hnil).2
      rw [List.cons_append, closeLines.eq_3 _ _ hrest, closeLines_append ended h]
      rfl

/-- A text without an open line: it is empty, or a line feed stands at its end. -/
def Ended (s : String) : Prop := s = "" ∨ ∃ front, s = front ++ "\n"

/-- **The lines of a text behind an ended one** are those of both, one after the other. -/
theorem lines_append {a : String} (h : Ended a) (b : String) :
    lines (a ++ b) = lines a ++ lines b := by
  obtain rfl | ⟨front, rfl⟩ := h
  · rw [String.empty_append]
    rfl
  · have hend : closeLines (splitOn '\n' (front ++ "\n").toList)
        = (splitOn '\n' front.toList).map dropReturn := by
      rw [String.toList_append, show "\n".toList = '\n' :: [] from rfl, splitOn_append,
        closeLines_append _ (splitOn_ne_nil _ _)]
      exact List.append_nil _
    have hboth : closeLines (splitOn '\n' (front ++ "\n" ++ b).toList)
        = (splitOn '\n' front.toList).map dropReturn ++ closeLines (splitOn '\n' b.toList) := by
      rw [String.toList_append, String.toList_append, List.append_assoc,
        show "\n".toList ++ b.toList = '\n' :: b.toList from rfl, splitOn_append,
        closeLines_append _ (splitOn_ne_nil _ _)]
    rw [lines, lines, lines, hboth, hend, List.map_append]

end Text

/-! ## Entries that are added -/

namespace Sorted

variable {α β : Type} [DecidableEq α] {before : α → α → Bool} {a k : α} {b : β}

theorem get?_insert : ∀ l : List (α × β),
    get? k (insert before a b l) = if k = a then some b else get? k l
  | [] => rfl
  | (k', v) :: rest => by
      rw [insert]
      split
      · rename_i heq
        subst heq
        rw [get?, get?]
        split <;> rfl
      · rename_i hne
        split
        · rfl
        · rw [get?, get?, get?_insert rest]
          split
          · -- the entry of another key stays in front
            rename_i heq
            rw [if_neg fun h => hne (h.symm.trans heq)]
          · rfl

/-- What there is for a key is not replaced. -/
theorem get?_insertNew (l : List (α × β)) :
    get? k (insertNew before a b l) = (get? k l).or (if k = a then some b else none) := by
  rw [insertNew]
  split
  · rename_i hsome
    split
    · rename_i heq
      obtain ⟨v, hv⟩ := Option.isSome_iff_exists.mp hsome
      rw [heq, hv]
      rfl
    · exact (Option.or_none).symm
  · rename_i hnone
    rw [get?_insert]
    split
    · rename_i heq
      rw [heq, Option.not_isSome_iff_eq_none.mp hnone]
      rfl
    · exact (Option.or_none).symm

/-- What an entry, if it is one, has for a key. -/
def valueFor (k : α) (e : Option (α × β)) : Option β :=
  e.bind fun e => if k = e.1 then some e.2 else none

theorem valueFor_eq_some_iff {e : Option (α × β)} : valueFor k e = some b ↔ e = some (k, b) := by
  cases e with
  | none => simp [valueFor]
  | some e =>
      obtain ⟨a, b'⟩ := e
      simp [valueFor, eq_comm]

end Sorted

/-! ## The first row that says something -/

section First

variable {ρ τ β κ : Type}

/-- If a row adds what it says, unless there is something already, then the first row that says
something is heard. -/
theorem foldl_first (get : τ → Option β) {add : τ → ρ → τ} {told : ρ → Option β}
    (hadd : ∀ t row, get (add t row) = (get t).or (told row)) : ∀ (rows : List ρ) (t : τ),
    get (rows.foldl add t) = (get t).or (rows.findSome? told)
  | [], t => (Option.or_none).symm
  | row :: rest, t => by
      rw [List.foldl_cons, foldl_first get hadd rest, hadd, Option.or_assoc, List.findSome?_cons]
      cases told row <;> rfl

/-- What the first of some rows gives that gives anything. A row is taken with its number, and the
first one has the number 1. -/
def FirstRow (Gives : Nat → String → β → Prop) (rows : List String) (b : β) : Prop :=
  ∃ k row, rows[k]? = some row ∧ Gives (k + 1) row b
    ∧ ∀ j row' b', j < k → rows[j]? = some row' → ¬ Gives (j + 1) row' b'

/-- No row gives anything. -/
def NoRow (Gives : Nat → String → β → Prop) (rows : List String) : Prop :=
  ∀ k row b, rows[k]? = some row → ¬ Gives (k + 1) row b

variable {Gives : Nat → String → β → Prop} {told : String → Option β} {rows : List String}

theorem findSome?_eq_none_iff_noRow (h : ∀ n row b, Gives n row b ↔ told row = some b) :
    rows.findSome? told = none ↔ NoRow Gives rows := by
  rw [List.findSome?_eq_none_iff]
  constructor
  · intro hnone k row b hrow hgives
    rw [h, hnone row (List.mem_of_getElem? hrow)] at hgives
    cases hgives
  · intro hno row hmem
    obtain ⟨k, hk⟩ := List.mem_iff_getElem?.mp hmem
    exact Option.eq_none_iff_forall_ne_some.mpr fun b hb => hno k row b hk ((h _ _ _).mpr hb)

theorem findSome?_eq_some_iff_firstRow (h : ∀ n row b, Gives n row b ↔ told row = some b) {b : β} :
    rows.findSome? told = some b ↔ FirstRow Gives rows b := by
  rw [List.findSome?_eq_some_iff]
  constructor
  · rintro ⟨before, row, after, rfl, hrow, hbefore⟩
    refine ⟨before.length, row, by simp, (h _ _ _).mpr hrow, fun j row' b' hj hrow' hgives => ?_⟩
    rw [List.getElem?_append_left hj] at hrow'
    rw [h, hbefore row' (List.mem_of_getElem? hrow')] at hgives
    cases hgives
  · rintro ⟨k, row, hrow, hgives, hbefore⟩
    obtain ⟨hk, rfl⟩ := List.getElem?_eq_some_iff.mp hrow
    refine ⟨rows.take k, rows[k], rows.drop (k + 1), ?_, (h _ _ _).mp hgives, fun row' hmem => ?_⟩
    · rw [List.getElem_cons_drop, List.take_append_drop]
    · obtain ⟨j, hj, rfl⟩ := List.mem_take_iff_getElem.mp hmem
      refine Option.eq_none_iff_forall_ne_some.mpr fun b' hb' => ?_
      exact hbefore j _ b' (lt_of_lt_of_le hj (Nat.min_le_left _ _))
        (List.getElem?_eq_getElem _) ((h _ _ _).mpr hb')

/-- A table of values by key, of which all is said that it has to do with the rows of a text:
`Gives` is what a row with a number gives to a key. -/
structure Rowwise (get? : String → κ → Option β) (Gives : κ → Nat → String → β → Prop) :
    Prop where
  /-- A key has what the first row gives to it … -/
  first : ∀ text k b, get? text k = some b ↔ FirstRow (Gives k) (Text.lines text) b
  /-- … and nothing if there is no such row. -/
  missing : ∀ text k, get? text k = none ↔ NoRow (Gives k) (Text.lines text)
  /-- The rows of a text in front come first; the others fill in what is missing. -/
  append : ∀ a b, Text.Ended a → ∀ k, get? (a ++ b) k = (get? a k).or (get? b k)
  /-- Rows that give nothing can be left out, wherever they stand. -/
  skipped : ∀ a silent b, Text.Ended a → Text.Ended silent →
    (∀ k, NoRow (Gives k) (Text.lines silent)) → ∀ k, get? (a ++ silent ++ b) k = get? (a ++ b) k

theorem rowwise_of_findSome? {get? : String → κ → Option β} {Gives : κ → Nat → String → β → Prop}
    {told : κ → String → Option β}
    (hget : ∀ text k, get? text k = (Text.lines text).findSome? (told k))
    (hgives : ∀ k n row b, Gives k n row b ↔ told k row = some b) : Rowwise get? Gives := by
  have hmissing : ∀ text k, get? text k = none ↔ NoRow (Gives k) (Text.lines text) := by
    intro text k
    rw [hget]
    exact findSome?_eq_none_iff_noRow (hgives k)
  have happend : ∀ a b, Text.Ended a → ∀ k, get? (a ++ b) k = (get? a k).or (get? b k) := by
    intro a b ha k
    rw [hget, hget, hget, Text.lines_append ha, List.findSome?_append]
  refine ⟨fun text k b => ?_, hmissing, happend, fun a silent b ha hsilent hno k => ?_⟩
  · rw [hget]
    exact findSome?_eq_some_iff_firstRow (hgives k)
  · rw [String.append_assoc, happend a _ ha, happend silent _ hsilent, happend a _ ha,
      (hmissing silent k).mpr (hno k), Option.none_or]

end First

/-! ## Records by code -/

namespace ParameterTable

/-- The code and the record of a row that can be read. -/
def entryOf? (row : String) : Option (Exocode × ParameterRecord) := (parseRow 0 row).toOption.join

/-- The number of a row only shows in its error. -/
theorem parseRow_eq_iff {n : Nat} {row : String} {e : Exocode × ParameterRecord} :
    parseRow n row = .ok (some e) ↔ entryOf? row = some e := by
  have hnumber : ∀ m, (parseRow m row).toOption = (parseRow 0 row).toOption := by
    intro m
    unfold parseRow
    split
    · rfl
    · split
      · rfl
      · split
        · rfl
        · split <;> rfl
  rw [entryOf?, ← hnumber n]
  cases parseRow n row with
  | ok found => simp [Except.toOption]
  | error e => simp [Except.toOption]

theorem get?_addRow (c : Exocode) (t : ParameterTable) (row : String) :
    (t.addRow row).get? c = (t.get? c).or (Sorted.valueFor c (entryOf? row)) := by
  have hadd : t.addRow row = match entryOf? row with
      | some (c, r) => t.insertNew c r
      | none => t := by
    rw [addRow, entryOf?]
    rcases parseRow 0 row with e | _ | _ <;> rfl
  rw [hadd]
  cases entryOf? row with
  | none => exact (Option.or_none).symm
  | some e => exact Sorted.get?_insertNew t.entries

theorem get?_parse (text : String) (c : Exocode) :
    (parse text).get? c
      = (Text.lines text).findSome? fun row => Sorted.valueFor c (entryOf? row) := by
  rw [parse, foldl_first (get? · c) (get?_addRow c)]
  rfl

/-- A row that fails in its last cell leaves nothing behind for the next one to find. -/
example : (parse "00000101\t1\t0\t0\tmajority\tmaybe\n00000101\t2\n").get? ⟨5⟩
    = some { rotation := 2 } := by decide +kernel

end ParameterTable

/-! ## Codes by id -/

namespace BridgeTable

theorem get?_addRow (id : String) (t : BridgeTable) (row : String) :
    (t.addRow row).get? id = (t.get? id).or (Sorted.valueFor id (parseRow? row)) := by
  rw [addRow]
  cases parseRow? row with
  | none => exact (Option.or_none).symm
  | some e => exact Sorted.get?_insertNew t.codes

theorem get?_parse (text : String) (id : String) :
    (parse text).get? id
      = (Text.lines text).findSome? fun row => Sorted.valueFor id (parseRow? row) := by
  rw [parse, foldl_first (get? · id) (get?_addRow id)]
  rfl

end BridgeTable

/--
**Both tables are read row by row**, and the first row for a key counts.

A row of the parameter table may be silent, or fail in any of its cells; of the bridge table, a row
may have no code to give. Neither has a part in what other rows give.
-/
theorem tables_rowwise :
    Rowwise (fun text => (ParameterTable.parse text).get?)
        (fun c n row r => ParameterTable.parseRow n row = .ok (some (c, r)))
      ∧ Rowwise (fun text => (BridgeTable.parse text).get?)
        (fun id _ row c => BridgeTable.parseRow? row = some (id, c)) :=
  ⟨rowwise_of_findSome? ParameterTable.get?_parse fun _ _ _ _ =>
      ParameterTable.parseRow_eq_iff.trans Sorted.valueFor_eq_some_iff.symm,
    rowwise_of_findSome? BridgeTable.get?_parse fun _ _ _ _ => Sorted.valueFor_eq_some_iff.symm⟩

end RuleWiring
