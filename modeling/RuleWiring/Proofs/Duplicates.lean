import Mathlib
import RuleWiring.Proofs.Grammar

/-!
# Where a repeated id is noticed

A pattern is put into the library when its block ends, and only then is it noticed that its id is
one of an earlier pattern. The number in the error is therefore not that of the heading that repeats
an id. It is that of the next heading, or that of the last line if there is none: `EndsBlock`. The
ids of the patterns that are complete are distinct, so it is always the first heading with a
repeated id whose pattern is turned down: `Repeats`.
-/

namespace RuleWiring

namespace Library

/-! ## Numbered headings -/

/-- The line of a number is a heading; the first line has the number 1. -/
def HeadingAt (lines : List String) (n : Nat) (id : String) : Prop :=
  ∃ k line, n = k + 1 ∧ lines[k]? = some line ∧ IsHeading line id

/-- The line of a number is a heading, and so is one before it with the same id. -/
def RepeatsAt (lines : List String) (n : Nat) (id : String) : Prop :=
  HeadingAt lines n id ∧ ∃ k < n, HeadingAt lines k id

/-- The line `second` is the first heading that repeats an id, that of the line `first`. -/
structure Repeats (lines : List String) (first second : Nat) (id : String) : Prop where
  lt : first < second
  old : HeadingAt lines first id
  new : HeadingAt lines second id
  /-- Up to there all headings have ids of their own. -/
  distinct : ∀ m n id', m < n → n < second → HeadingAt lines m id' → ¬ HeadingAt lines n id'

/-- The line `last` is the next heading behind the line `n`. -/
structure NextHeading (lines : List String) (n last : Nat) : Prop where
  lt : n < last
  heading : ∃ id, HeadingAt lines last id
  between : ∀ k id, n < k → k < last → ¬ HeadingAt lines k id

/-- Where the end of a block is met whose heading is the line `n`. -/
def EndsBlock (lines : List String) (n last : Nat) : Prop :=
  NextHeading lines n last ∨ last = lines.length ∧ ∀ k id, HeadingAt lines k id → k ≤ n

section Numbers

variable {lines a b : List String} {line id : String} {m n : Nat}

theorem headingAt_cons :
    HeadingAt (line :: lines) (n + 1) id ↔ n = 0 ∧ IsHeading line id ∨ HeadingAt lines n id := by
  cases n with
  | zero => simp [HeadingAt]
  | succ n => simp [HeadingAt]

theorem not_headingAt_zero : ¬ HeadingAt lines 0 id := by simp [HeadingAt]

theorem not_headingAt_nil : ¬ HeadingAt [] n id := by simp [HeadingAt]

theorem HeadingAt.le_length (h : HeadingAt lines n id) : n ≤ lines.length := by
  obtain ⟨k, line, rfl, hline, _⟩ := h
  exact (List.getElem?_eq_some_iff.mp hline).1

theorem headingAt_append_left (hn : n ≤ a.length) :
    HeadingAt (a ++ b) n id ↔ HeadingAt a n id := by
  refine exists_congr fun k => exists_congr fun line => and_congr_right fun hk => ?_
  rw [List.getElem?_append_left (by omega)]

theorem headingAt_append_right (hn : 0 < n) :
    HeadingAt (a ++ b) (a.length + n) id ↔ HeadingAt b n id := by
  constructor
  · rintro ⟨k, line, hk, hline, hheading⟩
    rw [List.getElem?_append_right (by omega)] at hline
    exact ⟨k - a.length, line, by omega, hline, hheading⟩
  · rintro ⟨k, line, rfl, hline, hheading⟩
    refine ⟨a.length + k, line, rfl, ?_, hheading⟩
    rwa [List.getElem?_append_right (by omega), Nat.add_sub_cancel_left]

theorem exists_headingAt_iff : (∃ n, HeadingAt lines n id) ↔ ∃ line ∈ lines, IsHeading line id := by
  constructor
  · rintro ⟨_, k, line, _, hline, hheading⟩
    exact ⟨line, List.mem_of_getElem? hline, hheading⟩
  · rintro ⟨line, hmem, hheading⟩
    obtain ⟨k, hk⟩ := List.mem_iff_getElem?.mp hmem
    exact ⟨k + 1, k, line, rfl, hk, hheading⟩

end Numbers

/-! ## The ids of the headings -/

section Ids

variable {lines ids more : List String} {id : String} {m n : Nat}

theorem Headings.mem_iff (h : Headings lines ids) :
    id ∈ ids ↔ ∃ n, HeadingAt lines n id := by
  rw [exists_headingAt_iff]
  induction h with
  | nil => simp
  | heading hline _ ih =>
      have hid : id = _ ↔ IsHeading _ id := ⟨fun h => h ▸ hline, fun h => (h.unique hline).2⟩
      rw [List.mem_cons, ih, hid]
      simp
  | other hnot _ ih => simp [ih, hnot]

theorem Headings.distinct (h : Headings lines ids) (hids : ids.Nodup) (hmn : m < n)
    (hm : HeadingAt lines m id) : ¬ HeadingAt lines n id := by
  induction h generalizing m n with
  | nil => exact not_headingAt_nil
  | heading hline hrest ih =>
      obtain ⟨hnew, hids⟩ := List.nodup_cons.mp hids
      cases n with
      | zero => exact not_headingAt_zero
      | succ n =>
          intro hn
          obtain ⟨rfl, _⟩ | hn := headingAt_cons.mp hn
          · obtain rfl : m = 0 := by omega
            exact not_headingAt_zero hm
          · cases m with
            | zero => exact not_headingAt_zero hm
            | succ m =>
                obtain ⟨_, hfirst⟩ | hm := headingAt_cons.mp hm
                · obtain ⟨_, rfl⟩ := hline.unique hfirst
                  exact hnew (hrest.mem_iff.mpr ⟨n, hn⟩)
                · exact ih hids (by omega) hm hn
  | other hnot _ ih =>
      cases n with
      | zero => exact not_headingAt_zero
      | succ n =>
          cases m with
          | zero => exact absurd hm not_headingAt_zero
          | succ m =>
              rw [headingAt_cons, or_iff_right (fun h => hnot id h.2)] at hm ⊢
              exact ih hids (by omega) hm

/-- Lines cut at a heading. -/
theorem Headings.split (h : Headings lines (ids ++ id :: more)) :
    ∃ front line body, lines = front ++ line :: body ∧ Headings front ids ∧ IsHeading line id
      ∧ Headings body more := by
  generalize hall : ids ++ id :: more = all at h
  induction h generalizing ids with
  | nil => exact absurd hall (by simp)
  | @heading line id' lines ids' hline hrest ih =>
      cases ids with
      | nil =>
          injection hall with hid hmore
          exact ⟨[], line, lines, rfl, .nil, hid ▸ hline, hmore ▸ hrest⟩
      | cons _ ids =>
          injection hall with hid hmore
          obtain ⟨front, line', body, rfl, hfront, hline', hbody⟩ := ih hmore
          exact ⟨line :: front, line', body, rfl, .heading (hid ▸ hline) hfront, hline', hbody⟩
  | @other line lines ids' hnot _ ih =>
      obtain ⟨front, line', body, rfl, hfront, hline', hbody⟩ := ih hall
      exact ⟨line :: front, line', body, rfl, .other hnot hfront, hline', hbody⟩

end Ids

/-! ## Readings that end with an error -/

namespace Reading

variable {r : Reading} {done : List String} {line id : String} {number n : Nat} {e : ParseError}

/-- The line at which reading stops. -/
theorem steps_error : ∀ {lines : List String} {r : Reading} {number : Nat},
    r.steps number lines = .error e → ∃ before line after r', lines = before ++ line :: after
      ∧ r.steps number before = .ok r'
      ∧ r'.step (number + before.length) (Text.trim line) = .error e
  | [], _, _, h => nomatch h
  | line :: rest, r, number, h => by
      rw [steps] at h
      split at h
      · rename_i e' hstep
        injection h with h
        exact ⟨[], line, rest, r, rfl, rfl, h ▸ hstep⟩
      · rename_i r₁ hstep
        obtain ⟨before, line', after, r', rfl, hsteps, herror⟩ := steps_error h
        refine ⟨line :: before, line', after, r', rfl, ?_, ?_⟩
        · rw [steps, hstep]
          exact hsteps
        · rwa [List.length_cons, Nat.add_comm before.length, ← Nat.add_assoc]

/-- Only a heading ends a block, and so shows that an id is repeated. -/
theorem step_duplicate (h : r.step number line = .error (.duplicate n id)) :
    (∃ id', IsHeading line id') ∧ r.closed.finished number = .error (.duplicate n id) := by
  have hkind := Line.describes_ofText line
  rw [step] at h
  cases hof : Line.ofText line with
  | heading id' =>
      rw [hof] at h hkind
      dsimp only at h
      split at h
      · cases h
      · split at h
        · rename_i e he
          injection h with h
          exact ⟨⟨id', hkind⟩, h ▸ he⟩
        · cases h
  | directive name v =>
      rw [hof] at h
      dsimp only at h
      split at h
      · cases h
      · split at h <;> cases h
  | clause c text =>
      rw [hof] at h
      dsimp only at h
      split at h <;> cases h
  | aside =>
      rw [hof] at h
      cases h
  | text s =>
      rw [hof] at h
      dsimp only at h
      split at h
      · cases h
      · split at h <;> cases h

/-- **The open pattern is the first to repeat an id**, and no heading follows its own. -/
theorem Stands.repeats (h : r.Stands done) (he : r.finished number = .error (.duplicate n id)) :
    n = number ∧ ∃ first second, Repeats done first second id
      ∧ ∀ k id', HeadingAt done k id' → k ≤ second := by
  rw [finished] at he
  split at he
  · cases he
  · rename_i p hcurrent
    split at he
    · rename_i hmem
      injection he with he
      injection he with hnumber hid
      subst hid
      have hheadings := h.headings
      rw [seen, hcurrent, Option.map_some, Option.toList_some] at hheadings
      obtain ⟨front, line, body, rfl, hfront, hline, hbody⟩ := hheadings.split
      obtain ⟨first, hfirst⟩ := hfront.mem_iff.mp hmem
      have hlt := hfirst.le_length
      refine ⟨hnumber.symm, first, front.length + 1, ⟨by omega, ?_, ?_, ?_⟩, ?_⟩
      · exact (headingAt_append_left hlt).mpr hfirst
      · exact (headingAt_append_right Nat.one_pos).mpr (headingAt_cons.mpr (.inl ⟨rfl, hline⟩))
      · intro m n id' hmn hn hm
        rw [headingAt_append_left (by omega)] at hm ⊢
        exact hfront.distinct h.distinct hmn hm
      · intro k id' hk
        by_contra hbehind
        obtain ⟨d, rfl⟩ : ∃ d, k = front.length + (d + 1) := ⟨k - front.length - 1, by omega⟩
        rw [headingAt_append_right (Nat.succ_pos d), headingAt_cons] at hk
        obtain ⟨rfl, _⟩ | hk := hk
        · exact hbehind (Nat.le_refl _)
        · exact absurd (hbody.mem_iff.mpr ⟨d, hk⟩) List.not_mem_nil
    · cases he

end Reading

/-! ## Texts -/

section Texts

variable {lines done more : List String} {line id : String} {first second last n : Nat}

theorem Repeats.append (h : Repeats done first second id) :
    Repeats (done ++ more) first second id := by
  have hlast := h.new.le_length
  have hlt := h.lt
  refine ⟨hlt, (headingAt_append_left (by omega)).mpr h.old,
    (headingAt_append_left hlast).mpr h.new, fun m n id' hmn hn hm => ?_⟩
  rw [headingAt_append_left (by omega)] at hm ⊢
  exact h.distinct m n id' hmn hn hm

/-- The next heading is the line behind those that have been read. -/
theorem Repeats.endsBlock (h : Repeats done first second id)
    (hlast : ∀ k id', HeadingAt done k id' → k ≤ second) {id' : String}
    (hline : IsHeading line id') :
    EndsBlock (done ++ line :: more) second (done.length + 1) := by
  refine .inl ⟨Nat.lt_succ_of_le h.new.le_length, ⟨id', ?_⟩, fun k id'' hk hbefore hheading => ?_⟩
  · exact (headingAt_append_right Nat.one_pos).mpr (headingAt_cons.mpr (.inl ⟨rfl, hline⟩))
  · rw [headingAt_append_left (Nat.le_of_lt_succ hbefore)] at hheading
    exact absurd (hlast k id'' hheading) (Nat.not_le.mpr hk)

/-- Only the block of the last line ends where it begins. -/
theorem EndsBlock.eq_iff (h : EndsBlock lines n last) : last = n ↔ n = lines.length := by
  obtain hnext | ⟨rfl, _⟩ := h
  · obtain ⟨id', hlast⟩ := hnext.heading
    have hlt := hnext.lt
    have hle := hlast.le_length
    omega
  · exact eq_comm

theorem Repeats.repeatsAt_iff (h : Repeats lines first second id)
    (hends : EndsBlock lines second last) :
    RepeatsAt lines last id ↔
      second = lines.length ∨ NextHeading lines second last ∧ HeadingAt lines last id := by
  constructor
  · rintro ⟨hheading, _⟩
    obtain hnext | ⟨hlast, hbehind⟩ := hends
    · exact .inr ⟨hnext, hheading⟩
    · have hle := h.new.le_length
      have hge := hbehind last id hheading
      exact .inl (by omega)
  · rintro (hsecond | ⟨hnext, hheading⟩)
    · rw [hends.eq_iff.mpr hsecond]
      exact ⟨h.new, first, h.lt, h.old⟩
    · exact ⟨hheading, first, h.lt.trans hnext.lt, h.old⟩

end Texts

/--
**A repeated id is noticed where the block of its pattern ends.**

The error names the id of the first heading that repeats one. Its number is that of this heading
only if no line is behind it. Otherwise it is that of a heading that repeats the id only if the next
heading repeats it once more.
-/
theorem parse_duplicate {text : String} {line : Nat} {id : String}
    (h : parse text = .error (.duplicate line id)) :
    ∃ first second, Repeats ((Text.lines text).map Text.trim) first second id
      ∧ EndsBlock ((Text.lines text).map Text.trim) second line
      ∧ (line = second ↔ second = (Text.lines text).length)
      ∧ (RepeatsAt ((Text.lines text).map Text.trim) line id ↔
        second = (Text.lines text).length
          ∨ NextHeading ((Text.lines text).map Text.trim) second line
            ∧ HeadingAt ((Text.lines text).map Text.trim) line id) := by
  have hlength : ((Text.lines text).map Text.trim).length = (Text.lines text).length :=
    List.length_map _
  suffices h : ∃ first second, Repeats ((Text.lines text).map Text.trim) first second id
      ∧ EndsBlock ((Text.lines text).map Text.trim) second line by
    obtain ⟨first, second, hrepeats, hends⟩ := h
    exact ⟨first, second, hrepeats, hends, hlength ▸ hends.eq_iff,
      hlength ▸ hrepeats.repeatsAt_iff hends⟩
  rw [parse] at h
  split at h
  · -- a heading behind the repeated one is met
    rename_i e hsteps
    injection h with h
    subst h
    obtain ⟨before, line', after, r, hlines, hbefore, hstep⟩ := Reading.steps_error hsteps
    obtain ⟨⟨id', hline'⟩, hfinished⟩ := Reading.step_duplicate hstep
    have hstands := (Reading.Stands.steps before Reading.stands_initial 1).ok r hbefore
    rw [List.nil_append] at hstands
    obtain ⟨rfl, first, second, hrepeats, hlast⟩ := hstands.closed.repeats hfinished
    have hnumber : 1 + before.length = (before.map Text.trim).length + 1 := by
      rw [List.length_map, Nat.add_comm]
    rw [hlines, List.map_append, List.map_cons, hnumber]
    exact ⟨first, second, hrepeats.append, hrepeats.endsBlock hlast hline'⟩
  · -- the text ends
    rename_i r hsteps
    have hstands := (Reading.Stands.steps (Text.lines text) Reading.stands_initial 1).ok r hsteps
    rw [List.nil_append] at hstands
    obtain ⟨rfl, first, second, hrepeats, hlast⟩ := hstands.closed.repeats h
    exact ⟨first, second, hrepeats, .inr ⟨hlength.symm, hlast⟩⟩

/-- A repeated heading with a title behind it. -/
def titledTwice : String := "@flexiarg a\n@flexiarg a\n@title x\n"

theorem parse_titledTwice : parse titledTwice = .error (.duplicate 3 "a") :=
  map_eq_error (f := ids) (by decide +kernel)

theorem parse_duplicate_titledTwice :
    parse titledTwice = .error (.duplicate 3 "a")
      ∧ ∃ first second, Repeats ((Text.lines titledTwice).map Text.trim) first second "a"
        ∧ EndsBlock ((Text.lines titledTwice).map Text.trim) second 3
        ∧ (3 = second ↔ second = (Text.lines titledTwice).length)
        ∧ (RepeatsAt ((Text.lines titledTwice).map Text.trim) 3 "a" ↔
          second = (Text.lines titledTwice).length
            ∨ NextHeading ((Text.lines titledTwice).map Text.trim) second 3
              ∧ HeadingAt ((Text.lines titledTwice).map Text.trim) 3 "a") :=
  ⟨parse_titledTwice, parse_duplicate parse_titledTwice⟩

/-- The number is that of the title. -/
theorem not_repeatsAt_titledTwice :
    parse titledTwice = .error (.duplicate 3 "a")
      ∧ RepeatsAt ((Text.lines titledTwice).map Text.trim) 2 "a"
      ∧ ¬ RepeatsAt ((Text.lines titledTwice).map Text.trim) 3 "a" := by
  have hlines : (Text.lines titledTwice).map Text.trim
      = ["@flexiarg a", "@flexiarg a", "@title x"] := by decide +kernel
  have hheading : IsHeading "@flexiarg a" "a" :=
    isDirective_iff.mpr ⟨"flexiarg a".toList, by decide, by decide⟩
  have htitle : IsDirective "@title x" "title" "x" :=
    isDirective_iff.mpr ⟨"title x".toList, by decide, by decide⟩
  rw [hlines]
  have hfirst : HeadingAt ["@flexiarg a", "@flexiarg a", "@title x"] 1 "a" :=
    ⟨0, _, rfl, rfl, hheading⟩
  refine ⟨parse_titledTwice, ⟨⟨1, _, rfl, rfl, hheading⟩, 1, by decide, hfirst⟩, ?_⟩
  rintro ⟨⟨k, line, hk, hline, hthird⟩, _⟩
  obtain rfl : k = 2 := by omega
  cases hline
  exact absurd (htitle.unique hthird).1 (by decide)

end Library

end RuleWiring
