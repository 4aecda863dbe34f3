import Mathlib
import RuleWiring.Proofs.Rows

/-!
# Rows of the bridge table

A row of the bridge table gives the code in its third column to the id in its first. What gives
none are blank rows, comments, rows without a code, and the heading, whose first column is
`pattern_id`: the other rows are those that `Assigns` speaks of.

Reading passes over more than these. A row is taken for the heading as soon as it starts like one,
so no id that starts with `pattern_id` ever has a code. All other ids have that of their first row.
-/

namespace RuleWiring

/-! ## Where a trimmed row starts -/

namespace Text

/-- A row starts with its first column. -/
theorem splitOn_eq_cons {separator : Char} : ∀ {cs piece : List Char} {rest : List (List Char)},
    splitOn separator cs = piece :: rest →
      ∃ tail, cs = piece ++ tail ∧ ∀ c ∈ tail.head?, c = separator
  | [], piece, rest, h => by
      injection h with hpiece _
      exact ⟨[], by rw [← hpiece]; rfl, by simp⟩
  | c :: cs, piece, rest, h => by
      rw [splitOn] at h
      split at h
      · rename_i hc
        injection h with hpiece _
        refine ⟨c :: cs, by rw [← hpiece]; rfl, fun c' hc' => ?_⟩
        rw [List.head?_cons, Option.mem_some_iff] at hc'
        exact hc' ▸ hc
      · split at h
        · rename_i hnil
          exact absurd hnil (splitOn_ne_nil separator cs)
        · rename_i piece' rest' hcons
          injection h with hpiece _
          obtain ⟨tail, rfl, htail⟩ := splitOn_eq_cons hcons
          exact ⟨tail, by rw [← hpiece]; rfl, htail⟩

/-- A list that begins with a word keeps the word when it is trimmed, and what is left behind it
begins with a blank. -/
theorem trimChars_append {front back : List Char} (hfront : trimChars front ≠ [])
    (hback : ∀ c ∈ back.head?, isBlank c = true) :
    ∃ rest, trimChars (front ++ back) = trimChars front ++ rest
      ∧ ∀ c ∈ rest.head?, isBlank c = true := by
  have hstrip : ∀ cs, trimChars cs = (cs.dropWhile isBlank).rdropWhile isBlank := fun _ => rfl
  have hleft : front.dropWhile isBlank ≠ [] := by
    intro hnil
    rw [hstrip, hnil] at hfront
    exact hfront rfl
  -- the word, the blanks behind it, and what follows them
  have hword := List.rdropWhile_append_rtakeWhile (p := isBlank) (l := front.dropWhile isBlank)
  rw [← hstrip] at hword
  generalize hblanks : (front.dropWhile isBlank).rtakeWhile isBlank = blanks at hword
  have hbehind : ∀ c ∈ (blanks ++ back).head?, isBlank c = true := by
    intro c hc
    cases hcons : blanks with
    | nil => exact hback c (by rwa [hcons] at hc)
    | cons c' blanks' =>
        rw [hcons, List.cons_append, List.head?_cons, Option.mem_some_iff] at hc
        exact List.mem_rtakeWhile_imp (by rw [hblanks, hcons, hc]; exact List.mem_cons_self)
  have htrim : trimChars (front ++ back)
      = (trimChars front ++ (blanks ++ back)).rdropWhile isBlank := by
    rw [hstrip, List.dropWhile_append, if_neg (by simpa using hleft), ← List.append_assoc, hword]
  rw [htrim, List.rdropWhile, List.reverse_append, List.dropWhile_append]
  split
  · refine ⟨[], ?_, by simp⟩
    rw [List.append_nil]
    exact List.rdropWhile_idempotent isBlank (front.dropWhile isBlank)
  · rename_i hmore
    refine ⟨(blanks ++ back).rdropWhile isBlank, ?_, fun c hc => hbehind c ?_⟩
    · rw [List.reverse_append, List.reverse_reverse]
      rfl
    · obtain ⟨tail, htail⟩ := List.rdropWhile_prefix isBlank (l := blanks ++ back)
      rw [← htail, List.head?_append, Option.mem_def.mp hc]
      rfl

/-- A word is at the start of a longer text just if it is at the start of the text's first word. -/
theorem prefix_append_iff {word front rest : List Char} (hword : ∀ c ∈ word, isBlank c = false)
    (hrest : ∀ c ∈ rest.head?, isBlank c = true) : word <+: front ++ rest ↔ word <+: front := by
  refine ⟨fun h => ?_, fun h => h.trans (List.prefix_append front rest)⟩
  obtain hshort | ⟨tail, rfl⟩ := List.prefix_or_prefix_of_prefix h (List.prefix_append front rest)
  · exact hshort
  · rw [List.prefix_append_right_inj] at h
    cases tail with
    | nil => simp
    | cons c tail =>
        obtain ⟨more, rfl⟩ := h
        have hblank : isBlank c = true := hrest c rfl
        rw [hword c (by simp)] at hblank
        cases hblank

end Text

namespace BridgeTable

/-! ## Rows that give a code to an id -/

/-- A row with an id and a code, which is neither a comment nor the heading. -/
structure Assigns (row id : String) (c : Exocode) : Prop where
  filled : Text.trim row ≠ ""
  noComment : (Text.trim row).toList.head? ≠ some '#'
  noHeading : id ≠ "pattern_id"
  columns : ∃ title code rest, Text.columns row = id :: title :: code :: rest
    ∧ Exocode.parse code = .ok c

/-- A text that starts like the heading. -/
def LikeHeading (s : String) : Prop := "pattern_id".toList <+: s.toList

instance (s : String) : Decidable (LikeHeading s) :=
  inferInstanceAs (Decidable ("pattern_id".toList <+: s.toList))

theorem not_isBlank_heading : ∀ c ∈ "pattern_id".toList, Text.isBlank c = false := by
  have hall : ("pattern_id".toList.all fun c => !Text.isBlank c) = true := by decide +kernel
  simpa using hall

/-- A row starts like the heading if its id does. Only a row without an id may start with another
column. -/
theorem likeHeading_trim_iff {row id : String} {more : List String}
    (h : Text.columns row = id :: more) (hid : id ≠ "") :
    LikeHeading (Text.trim row) ↔ LikeHeading id := by
  obtain ⟨piece, rest, hsplit, rfl, _⟩ := List.map_eq_cons_iff.mp h
  obtain ⟨tail, hrow, htail⟩ := Text.splitOn_eq_cons hsplit
  have hpiece : Text.trimChars piece ≠ [] := fun hnil => hid (by rw [hnil])
  obtain ⟨behind, htrim, hbehind⟩ := Text.trimChars_append hpiece
    fun c hc => show Text.isBlank c = true by rw [htail c hc]; decide
  have hrowtrim : (Text.trim row).toList = Text.trimChars piece ++ behind := by
    rw [Text.trim, String.toList_ofList, hrow, htrim]
  have hidlist : (String.ofList (Text.trimChars piece)).toList = Text.trimChars piece :=
    String.toList_ofList
  rw [LikeHeading, LikeHeading, hrowtrim, hidlist]
  exact Text.prefix_append_iff not_isBlank_heading hbehind

theorem isSilentRow_eq_false_iff {row : String} : isSilentRow "pattern_id" row = false ↔
    Text.trim row ≠ "" ∧ (Text.trim row).toList.head? ≠ some '#'
      ∧ ¬ LikeHeading (Text.trim row) := by
  have hlist : (Text.trim row).toList = Text.trimChars row.toList := String.toList_ofList
  have hempty : Text.trim row = "" ↔ Text.trimChars row.toList = [] := by
    rw [← hlist, String.toList_eq_nil_iff]
  rw [ne_eq, hempty, LikeHeading, hlist, isSilentRow]
  simp [and_assoc, ← Bool.not_eq_true, List.isPrefixOf_iff_prefix]

/-- **What reading takes from a row** are the id and the code, unless the row starts like the
heading. -/
theorem parseRow?_eq_some_iff {row id : String} {c : Exocode} :
    parseRow? row = some (id, c) ↔ Assigns row id c ∧ ¬ LikeHeading (Text.trim row) := by
  have hcode : ∀ {code : String} {c : Exocode},
      (Exocode.parse code).toOption = some c ↔ Exocode.parse code = .ok c := by
    intro code c
    cases Exocode.parse code <;> simp [Except.toOption]
  constructor
  · intro h
    rw [parseRow?] at h
    split at h
    · cases h
    · rename_i hsilent
      obtain ⟨hfilled, hcomment, hheading⟩ :=
        isSilentRow_eq_false_iff.mp (Bool.not_eq_true _ ▸ hsilent)
      split at h
      · rename_i id' title code rest hcolumns
        obtain ⟨c', hc', heq⟩ := Option.map_eq_some_iff.mp h
        cases heq
        refine ⟨⟨hfilled, hcomment, ?_, title, code, rest, hcolumns, hcode.mp hc'⟩, hheading⟩
        rintro rfl
        exact hheading ((likeHeading_trim_iff hcolumns (by decide)).mpr List.prefix_rfl)
      · cases h
  · rintro ⟨⟨hfilled, hcomment, _, title, code, rest, hcolumns, hc⟩, hheading⟩
    have hsilent := isSilentRow_eq_false_iff.mpr ⟨hfilled, hcomment, hheading⟩
    rw [parseRow?, if_neg (by rw [hsilent]; decide), hcolumns]
    exact Option.map_eq_some_iff.mpr ⟨c, hcode.mpr hc, rfl⟩

/-! ## All rows of a text -/

/-- The code of an id is the one that its first row gives, and without a row there is none. -/
def Keeps (text id : String) : Prop := ∀ c, (parse text).get? id = some c
  ↔ FirstRow (fun _ row c => Assigns row id c) (Text.lines text) c

/-- What the table of a text has for an id. -/
structure Reads (text id : String) : Prop where
  /-- The rows that count are those that do not start like the heading. -/
  counts : ∀ c, (parse text).get? id = some c ↔
    FirstRow (fun _ row c => Assigns row id c ∧ ¬ LikeHeading (Text.trim row)) (Text.lines text) c
  /-- An id that does not start like the heading keeps all of its rows, … -/
  keeps : id ≠ "" → ¬ LikeHeading id → Keeps text id
  /-- … and one that does keeps none. -/
  loses : LikeHeading id → (parse text).get? id = none

/--
**An id has the code of its first row, unless it starts with `pattern_id`**; then it has none.

The id may be empty. A row of it starts with a later column, and does not count if that is like
the heading.
-/
theorem parse_reads (text id : String) : Reads text id := by
  have hcounts : ∀ c, (parse text).get? id = some c ↔ FirstRow
      (fun _ row c => Assigns row id c ∧ ¬ LikeHeading (Text.trim row)) (Text.lines text) c := by
    intro c
    have hrow : ∀ (_ : Nat) row c, Assigns row id c ∧ ¬ LikeHeading (Text.trim row)
        ↔ Sorted.valueFor id (parseRow? row) = some c := fun _ row c =>
      parseRow?_eq_some_iff.symm.trans Sorted.valueFor_eq_some_iff.symm
    rw [get?_parse]
    exact findSome?_eq_some_iff_firstRow hrow
  have hlike : ∀ {row : String} {c : Exocode}, Assigns row id c → id ≠ "" →
      (LikeHeading (Text.trim row) ↔ LikeHeading id) := by
    rintro row c ⟨_, _, _, title, code, rest, hcolumns, _⟩ hid
    exact likeHeading_trim_iff hcolumns hid
  refine ⟨hcounts, fun hid hnot c => ?_, fun hheading => ?_⟩
  · have hrows : (fun (_ : Nat) row c => Assigns row id c ∧ ¬ LikeHeading (Text.trim row))
        = fun _ row c => Assigns row id c := by
      funext _ row c
      exact propext (and_iff_left_of_imp fun h => (hlike h hid).not.mpr hnot)
    rw [hcounts c, hrows]
  · have hid : id ≠ "" := by
      rintro rfl
      exact absurd hheading (by decide +kernel)
    refine Option.eq_none_iff_forall_ne_some.mpr fun c hc => ?_
    obtain ⟨_, row, _, ⟨hassigns, hnot⟩, _⟩ := (hcounts c).mp hc
    exact hnot ((hlike hassigns hid).mpr hheading)

/-- A row of an id that starts like the heading. -/
def maskedRow : String := "pattern_idea\tIdea\t00000001\n"

theorem not_keeps_maskedRow : ¬ Keeps maskedRow "pattern_idea" := by
  intro hkeeps
  have hlines : Text.lines maskedRow = ["pattern_idea\tIdea\t00000001"] := by decide +kernel
  have hassigns : Assigns "pattern_idea\tIdea\t00000001" "pattern_idea" ⟨1⟩ :=
    ⟨by decide +kernel, by decide +kernel, by decide, "Idea", "00000001", [], by decide +kernel,
      by decide +kernel⟩
  have hnone : (parse maskedRow).get? "pattern_idea" = none := by decide +kernel
  have hfirst : FirstRow (fun _ row c => Assigns row "pattern_idea" c) (Text.lines maskedRow) ⟨1⟩ :=
    ⟨0, _, by rw [hlines]; rfl, hassigns, fun _ _ _ h => absurd h (Nat.not_lt_zero _)⟩
  rw [(hkeeps ⟨1⟩).mpr hfirst] at hnone
  cases hnone

end BridgeTable

end RuleWiring
