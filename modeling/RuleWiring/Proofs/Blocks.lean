import Mathlib
import RuleWiring.Proofs.Sections

/-!
# Libraries block by block

A text that is read as a library is cut at its headings, and there is a pattern for each block that
has what the block says and nothing from the lines of another. Reading keeps a pattern and a
section open between two lines. Read from a state with any of them open, the lines that are left
first complete the open pattern, up to the next heading, and then make up blocks of their own.
-/

namespace RuleWiring

namespace Library

/-! ## Completing a pattern -/

/-- Patterns that differ in their clauses at most. -/
structure SameButClauses (p' p : Pattern) : Prop where
  id : p'.id = p.id
  title : p'.title = p.title
  code : p'.code = p.code
  preservation : p'.preservation = p.preservation
  inline : p'.inline = p.inline

theorem sameButClauses_closedPattern (p : Pattern) (opened : Option OpenClause) :
    SameButClauses (closedPattern p opened) p := by
  cases opened with
  | none => exact ⟨rfl, rfl, rfl, rfl, rfl⟩
  | some o =>
      rw [closedPattern, closeClause]
      split
      · exact ⟨rfl, rfl, rfl, rfl, rfl⟩
      · cases o.clause <;> exact ⟨rfl, rfl, rfl, rfl, rfl⟩

/-- What becomes of a pattern in whose block a section may be open, by the lines that are left. -/
structure Completes (p : Pattern) (opened : Option OpenClause) (lines : List String)
    (q : Pattern) : Prop where
  id : q.id = p.id
  title : Latest "title" Text.Unquotes lines p.title q.title
  code : Latest "bits" (fun v c => Exocode.parse v = .ok c) lines p.code q.code
  preservation :
    Latest "preservation" (fun v tag => Preservation.parse v = .ok tag) lines p.preservation
      q.preservation
  inline : Inlined lines p.inline q.inline
  clause : ∀ c, Worded c opened lines (p.clause c) (q.clause c)

section Lines

variable {p p' q : Pattern} {opened opened' : Option OpenClause} {line name v text : String}
  {lines : List String} {c : Clause}

theorem completes_nil (h : Proper opened) : Completes p opened [] (closedPattern p opened) := by
  have hsame := sameButClauses_closedPattern p opened
  refine ⟨hsame.id, ?_, ?_, ?_, ?_, fun c => worded_nil h⟩
  · rw [hsame.title]
    exact latest_nil
  · rw [hsame.code]
    exact latest_nil
  · rw [hsame.preservation]
    exact latest_nil
  · rw [hsame.inline]
    exact inlined_nil _

/-- A line that is no directive matters to clauses only. -/
theorem Completes.cons_other (hline : ∀ name v, ¬ IsDirective line name v)
    (hsame : SameButClauses p' p)
    (hclause : ∀ c, Worded c opened' lines (p'.clause c) (q.clause c) →
      Worded c opened (line :: lines) (p.clause c) (q.clause c))
    (h : Completes p' opened' lines q) : Completes p opened (line :: lines) q where
  id := h.id.trans hsame.id
  title := hsame.title ▸ h.title.cons_other (hline _)
  code := hsame.code ▸ h.code.cons_other (hline _)
  preservation := hsame.preservation ▸ h.preservation.cons_other (hline _)
  inline := hsame.inline ▸ h.inline.cons_other (hline _)
  clause c := hclause c (h.clause c)

theorem not_isDirective_of_head {s : Char} (hs : line.toList.head? = some s) (hne : s ≠ '@')
    (name v : String) : ¬ IsDirective line name v := by
  intro h
  rw [h.head, Option.some.injEq] at hs
  exact hne hs.symm

/-- The open section goes on. -/
theorem Completes.cons_text (hline : isSigned line = false)
    (h : Completes p (opened.map (·.add line)) lines q) : Completes p opened (line :: lines) q := by
  refine h.cons_other (fun name v hdirective => ?_) ⟨rfl, rfl, rfl, rfl, rfl⟩
    fun c => Worded.cons_text hline
  rw [isSigned, hdirective.head] at hline
  exact absurd hline (by decide)

/-- A line that opens no section of a clause closes the open one. -/
theorem Completes.cons_aside (hhead : line.toList.head? = some '+') (hfree : IsFree line)
    (hproper : Proper opened) (h : Completes (closedPattern p opened) none lines q) :
    Completes p opened (line :: lines) q := by
  refine h.cons_other (not_isDirective_of_head hhead (by decide))
    (sameButClauses_closedPattern p opened) fun c hc => ?_
  exact hc.cons_signed (by rw [isSigned, hhead]; rfl) (fun text ht => hfree.2 ht.isClause) hproper

/-- The open section gives way to a new one. -/
theorem Completes.cons_opens (hline : Opens line c text) (hproper : Proper opened)
    (h : Completes (closedPattern p opened) (some ⟨c, [text].filter (· ≠ "")⟩) lines q) :
    Completes p opened (line :: lines) q := by
  refine h.cons_other (not_isDirective_of_head hline.isClause.head (by decide))
    (sameButClauses_closedPattern p opened) fun c' hc' => ?_
  exact hc'.cons_opens hline hproper

/-! ### Directives -/

theorem IsDirective.not_of_ne {other : String} (h : IsDirective line name v)
    (hne : name ≠ other) (w : String) : ¬ IsDirective line other w :=
  fun hw => hne (h.unique hw).1

namespace Directed

variable (h : Directed p name v p') (hline : IsDirective line name v)

include h

theorem id_eq : p'.id = p.id := by
  cases h <;> rfl

theorem clause_eq (c : Clause) : p'.clause c = p.clause c := by
  cases h <;> rfl

include hline

theorem latest_title {new : Option String}
    (hnew : Latest "title" Text.Unquotes lines p'.title new) :
    Latest "title" Text.Unquotes (line :: lines) p.title new := by
  cases h with
  | title hv => exact hnew.cons_value hline hv
  | bits | preservation | param => exact hnew.cons_other (hline.not_of_ne (by decide))
  | unknown hname => exact hnew.cons_other (hline.not_of_ne fun heq => hname (by simp [heq]))

theorem latest_code {new : Option Exocode}
    (hnew : Latest "bits" (fun v c => Exocode.parse v = .ok c) lines p'.code new) :
    Latest "bits" (fun v c => Exocode.parse v = .ok c) (line :: lines) p.code new := by
  cases h with
  | bits hv => exact hnew.cons_value hline hv
  | title | preservation | param => exact hnew.cons_other (hline.not_of_ne (by decide))
  | unknown hname => exact hnew.cons_other (hline.not_of_ne fun heq => hname (by simp [heq]))

theorem latest_preservation {new : Option Preservation}
    (hnew : Latest "preservation" (fun v tag => Preservation.parse v = .ok tag) lines
      p'.preservation new) :
    Latest "preservation" (fun v tag => Preservation.parse v = .ok tag) (line :: lines)
      p.preservation new := by
  cases h with
  | preservation hv => exact hnew.cons_value hline hv
  | title | bits | param => exact hnew.cons_other (hline.not_of_ne (by decide))
  | unknown hname => exact hnew.cons_other (hline.not_of_ne fun heq => hname (by simp [heq]))

theorem inlined {new : Option ParameterOverrides} (hnew : Inlined lines p'.inline new) :
    Inlined (line :: lines) p.inline new := by
  cases h with
  | param hv ho => exact hnew.cons_value hline hv ho
  | title | bits | preservation => exact hnew.cons_other (hline.not_of_ne (by decide))
  | unknown hname => exact hnew.cons_other (hline.not_of_ne fun heq => hname (by simp [heq]))

end Directed

/-- A directive closes the open section and says something itself. -/
theorem Completes.cons_directive (hline : IsDirective line name v)
    (hdirected : Directed (closedPattern p opened) name v p') (hproper : Proper opened)
    (h : Completes p' none lines q) : Completes p opened (line :: lines) q := by
  have hsame := sameButClauses_closedPattern p opened
  have hsigned : isSigned line = true := by
    rw [isSigned, hline.head]
    rfl
  refine ⟨h.id.trans (hdirected.id_eq.trans hsame.id),
    hsame.title ▸ hdirected.latest_title hline h.title,
    hsame.code ▸ hdirected.latest_code hline h.code,
    hsame.preservation ▸ hdirected.latest_preservation hline h.preservation,
    hsame.inline ▸ hdirected.inlined hline h.inline, fun c => ?_⟩
  have hclause := h.clause c
  rw [hdirected.clause_eq c] at hclause
  exact hclause.cons_signed hsigned (fun _ ht => ht.isClause.not_isDirective _ _ hline) hproper

/-- The lines behind a heading complete a new pattern to what the block says. -/
theorem Completes.describes {id : String} (hline : IsHeading line id)
    (h : Completes { id := id } none lines q) : Block.Describes ⟨line, lines⟩ q where
  id := h.id ▸ hline
  title := h.title
  code := h.code
  preservation := h.preservation
  inline := h.inline
  clause c := by
    obtain ⟨ss, hss, hq⟩ := h.clause c
    refine ⟨ss, hss, hq.trans ?_⟩
    cases c <;> exact Option.or_none

end Lines

/-! ## Lines of the parser -/

theorem opens_of_ofText {line text : String} {c : Clause}
    (h : Line.ofText line = .clause c text) : Opens line c text := by
  unfold Line.ofText at h
  split at h
  · dsimp only at h
    split at h <;> cases h
  · rename_i rest hline
    split at h
    · cases h
    · rename_i key body hcut
      split at h
      · rename_i c' hkey
        injection h with hc htext
        obtain ⟨hrest, hcolon⟩ := Text.splitAt?_eq_some_iff.mp hcut
        have hword := List.find?_some hkey
        rw [decide_eq_true_iff, ← String.toList_inj, String.toList_ofList] at hword
        refine ⟨key, body, ?_, hcolon, ?_, htext.symm⟩
        · rw [eq_append_iff (c := '+') rfl, hline, ← hrest, String.toList_ofList]
        · rw [Text.trim, String.toList_ofList, ← hc, hword]
      · cases h
  · cases h

theorem head_of_aside {line : String} (h : Line.ofText line = .aside) :
    line.toList.head? = some '+' := by
  unfold Line.ofText at h
  split at h
  · dsimp only at h
    split at h <;> cases h
  · rename_i rest hline
    rw [hline]
    rfl
  · cases h

theorem unsigned_of_text {line s : String} (h : Line.ofText line = .text s) :
    s = line ∧ isSigned line = false := by
  unfold Line.ofText at h
  split at h
  · dsimp only at h
    split at h <;> cases h
  · split at h
    · cases h
    · split at h <;> cases h
  · rename_i hat hplus
    injection h with h
    refine ⟨h.symm, ?_⟩
    rw [isSigned]
    cases hline : line.toList with
    | nil => rfl
    | cons ch rest =>
        have hat' : ch ≠ '@' := fun hch => hat rest (by rw [hline, hch])
        have hplus' : ch ≠ '+' := fun hch => hplus rest (by rw [hline, hch])
        simp [hat', hplus']

/-! ## Readings -/

namespace Reading

variable {r r' : Reading} {line : String} {lines : List String} {number : Nat} {l : Library}

/-- What becomes of the open pattern, if there is one, by the lines that are left in its block. -/
def Yields (r : Reading) (lines : List String) (q : Option Pattern) : Prop :=
  Option.Rel (fun p p' => Completes p r.opened lines p') r.current q

theorem closed_of_some {p : Pattern} (h : r.current = some p) :
    r.closed = { r with current := some (closedPattern p r.opened), opened := none } := by
  obtain ⟨library, current, opened⟩ := r
  cases h
  cases opened <;> rfl

theorem closed_of_none (h : r.current = none) : r.closed = { r with opened := none } := by
  obtain ⟨library, current, opened⟩ := r
  cases h
  rfl

/-- At its end, the open pattern is all that is put into the library. -/
theorem yields_of_finished (hproper : Proper r.opened) (h : r.closed.finished number = .ok l) :
    ∃ q, l.patterns = r.library.patterns ++ q.toList ∧ r.Yields [] q := by
  cases hcurrent : r.current with
  | none =>
      rw [closed_of_none hcurrent, finished, hcurrent] at h
      injection h with h
      refine ⟨none, by rw [← h]; exact (List.append_nil _).symm, ?_⟩
      rw [Yields, hcurrent]
      exact .none
  | some p =>
      rw [closed_of_some hcurrent, finished] at h
      dsimp only at h
      split at h
      · cases h
      · injection h with h
        refine ⟨some (closedPattern p r.opened), by rw [← h]; rfl, ?_⟩
        rw [Yields, hcurrent]
        exact .some (completes_nil hproper)

/-- A line that is no heading leaves the library alone, and what becomes of the open pattern
behind it is what becomes of it by that line and those behind. -/
structure Goes (r : Reading) (line : String) (r' : Reading) : Prop where
  library : r'.library = r.library
  proper : Proper r'.opened
  yields : ∀ lines q, r'.Yields lines q → r.Yields (line :: lines) q

theorem goes_of_completes {opened : Option OpenClause} {current : Option Pattern}
    (hproper : Proper opened) (hnone : r.current = none → current = none)
    (h : ∀ p, r.current = some p → ∃ p', current = some p' ∧
      ∀ lines q, Completes p' opened lines q → Completes p r.opened (line :: lines) q) :
    r.Goes line { library := r.library, current := current, opened := opened } where
  library := rfl
  proper := hproper
  yields lines q hq := by
    rw [Yields] at hq ⊢
    cases hcurrent : r.current with
    | none =>
        dsimp only at hq
        rw [hnone hcurrent] at hq
        cases hq
        exact .none
    | some p =>
        obtain ⟨p', hp', hcompletes⟩ := h p hcurrent
        dsimp only at hq
        rw [hp'] at hq
        cases hq with
        | some hq => exact .some (hcompletes lines _ hq)

theorem proper_none : Proper none := fun _ h => nomatch h

theorem proper_opens (c : Clause) (text : String) :
    Proper (some ⟨c, [text].filter (· ≠ "")⟩) := by
  rintro o ho
  cases ho
  simp

theorem proper_add {o : OpenClause} (h : Proper (some o)) (line : String) :
    Proper (some (o.add line)) := by
  rintro o' ho'
  cases ho'
  rw [OpenClause.add, List.mem_append, not_or]
  exact ⟨h o rfl, by simp⟩

theorem goes_directive {name v : String} (hproper : Proper r.opened)
    (hof : Line.ofText line = .directive name v) (h : r.step number line = .ok r') :
    r.Goes line r' := by
  have hline := Line.describes_ofText line
  rw [hof] at hline
  rw [step, hof] at h
  dsimp only at h
  cases hcurrent : r.current with
  | none =>
      rw [closed_of_none hcurrent] at h
      dsimp only at h
      rw [hcurrent] at h
      cases h
  | some p =>
      rw [closed_of_some hcurrent] at h
      dsimp only at h
      split at h
      · cases h
      · rename_i p' hp'
        injection h with h
        rw [← h]
        refine goes_of_completes proper_none (by simp [hcurrent]) fun p₀ hp₀ => ⟨p', rfl, ?_⟩
        rw [hcurrent] at hp₀
        cases hp₀
        exact fun _ _ => Completes.cons_directive hline.2 (directed_of_apply hp') hproper

theorem goes_clause {c : Clause} {text : String} (hproper : Proper r.opened)
    (hof : Line.ofText line = .clause c text) (h : r.step number line = .ok r') :
    r.Goes line r' := by
  have hpieces : (if text = "" then [] else [text]) = [text].filter (· ≠ "") := by
    by_cases htext : text = "" <;> simp [htext]
  rw [step, hof] at h
  dsimp only at h
  cases hcurrent : r.current with
  | none =>
      rw [closed_of_none hcurrent, if_pos (by simp [hcurrent])] at h
      cases h
  | some p =>
      rw [closed_of_some hcurrent, if_neg (by simp), hpieces] at h
      injection h with h
      rw [← h]
      refine goes_of_completes (proper_opens c text) (by simp [hcurrent]) fun p₀ hp₀ => ⟨_, rfl, ?_⟩
      rw [hcurrent] at hp₀
      cases hp₀
      exact fun _ _ => Completes.cons_opens (opens_of_ofText hof) hproper

theorem goes_aside (hproper : Proper r.opened) (hof : Line.ofText line = .aside)
    (h : r.step number line = .ok r') : r.Goes line r' := by
  have hline := Line.describes_ofText line
  rw [hof] at hline
  rw [step, hof] at h
  injection h with h
  cases hcurrent : r.current with
  | none =>
      rw [← h, closed_of_none hcurrent]
      exact goes_of_completes proper_none (fun _ => hcurrent) (by simp [hcurrent])
  | some p =>
      rw [← h, closed_of_some hcurrent]
      refine goes_of_completes proper_none (by simp [hcurrent]) fun p₀ hp₀ => ⟨_, rfl, ?_⟩
      rw [hcurrent] at hp₀
      cases hp₀
      exact fun _ _ => Completes.cons_aside (head_of_aside hof) hline hproper

theorem goes_text {s : String} (hproper : Proper r.opened) (hof : Line.ofText line = .text s)
    (h : r.step number line = .ok r') : r.Goes line r' := by
  obtain ⟨rfl, hunsigned⟩ := unsigned_of_text hof
  have hgoes : ∀ {opened : Option OpenClause}, opened = r.opened.map (·.add s) → Proper opened →
      r.Goes s { r with opened := opened } := fun hopened hproper' =>
    goes_of_completes hproper' id fun p hp =>
      ⟨p, hp, fun _ _ hq => Completes.cons_text hunsigned (hopened ▸ hq)⟩
  rw [step, hof] at h
  dsimp only at h
  split at h
  · rename_i hopened
    injection h with h
    rw [← h]
    exact hgoes (by rw [hopened]; rfl) hproper
  · rename_i o hopened
    have hadded := proper_add (hopened ▸ hproper) s
    split at h
    · rename_i hs
      injection h with h
      rw [← h]
      refine hgoes ?_ hproper
      rw [hopened, Option.map_some, OpenClause.add, hs]
      simp
    · rename_i hs
      injection h with h
      rw [← h]
      have hpieces : o.pieces ++ [s] = (o.add s).pieces := by simp [OpenClause.add, hs]
      rw [hpieces]
      exact hgoes (by rw [hopened]; rfl) hadded

/-- **A line goes into the open pattern**, unless it is a heading. -/
theorem goes_step (hproper : Proper r.opened) (hnot : ∀ id, ¬ IsHeading line id)
    (h : r.step number line = .ok r') : r.Goes line r' := by
  cases hof : Line.ofText line with
  | heading id =>
      have hline := Line.describes_ofText line
      rw [hof] at hline
      exact absurd hline (hnot id)
  | directive name v => exact goes_directive hproper hof h
  | clause c text => exact goes_clause hproper hof h
  | aside => exact goes_aside hproper hof h
  | text s => exact goes_text hproper hof h

/-- A heading ends the open block and opens another. -/
theorem step_heading {id : String} (hline : IsHeading line id)
    (h : r.step number line = .ok r') :
    ∃ l, r.closed.finished number = .ok l
      ∧ r' = { library := l, current := some { id := id } } := by
  have hkind := Line.describes_ofText line
  rw [step] at h
  cases hof : Line.ofText line with
  | heading id' =>
      rw [hof] at h hkind
      obtain ⟨_, rfl⟩ := hline.unique hkind
      dsimp only at h
      split at h
      · cases h
      · split at h
        · cases h
        · rename_i l hl
          injection h with h
          exact ⟨l, hl, h.symm⟩
  | directive name v =>
      rw [hof] at hkind
      exact absurd (hline.unique hkind.2).1.symm hkind.1
  | clause c text =>
      rw [hof] at hkind
      exact absurd hline (hkind.not_isDirective _ _)
  | aside | text =>
      rw [hof] at hkind
      exact absurd hline (hkind.not_isHeading id)

/-- **The lines that are left complete the open pattern, and then make up blocks.** -/
theorem steps_blocks : ∀ (lines : List String) {r r' : Reading} {number last : Nat} {l : Library},
    Proper r.opened → r.steps number lines = .ok r' → r'.closed.finished last = .ok l →
    ∃ body blocks q patterns, Cut (lines.map Text.trim) body blocks ∧ r.Yields body q
      ∧ List.Forall₂ Block.Describes blocks patterns
      ∧ l.patterns = r.library.patterns ++ q.toList ++ patterns
  | [], r, r', _, last, l, hproper, h, hend => by
      rw [steps] at h
      injection h with h
      subst h
      obtain ⟨q, hl, hq⟩ := yields_of_finished hproper hend
      exact ⟨[], [], q, [], .nil, hq, .nil, by rw [hl, List.append_nil]⟩
  | line :: rest, r, r', number, last, l, hproper, h, hend => by
      rw [steps] at h
      split at h
      · cases h
      · rename_i r₁ hstep
        by_cases hline : ∃ id, IsHeading (Text.trim line) id
        · obtain ⟨id, hline⟩ := hline
          obtain ⟨l₁, hl₁, rfl⟩ := step_heading hline hstep
          obtain ⟨q, hq, hyields⟩ := yields_of_finished hproper hl₁
          obtain ⟨body, blocks, q₁, patterns, hcut, hq₁, hblocks, hl⟩ :=
            steps_blocks rest proper_none h hend
          cases hq₁ with
          | @some _ q₁ hq₁ =>
              refine ⟨[], ⟨Text.trim line, body⟩ :: blocks, q, q₁ :: patterns, .heading hline hcut,
                hyields, .cons (hq₁.describes hline) hblocks, ?_⟩
              rw [hl, hq]
              simp
        · have hnot : ∀ id, ¬ IsHeading (Text.trim line) id := fun id h => hline ⟨id, h⟩
          have hgoes := goes_step hproper hnot hstep
          obtain ⟨body, blocks, q, patterns, hcut, hq, hblocks, hl⟩ :=
            steps_blocks rest hgoes.proper h hend
          exact ⟨Text.trim line :: body, blocks, q, patterns, .other hnot hcut,
            hgoes.yields body q hq, hblocks, by rw [hl, hgoes.library]⟩

end Reading

/-! ## Texts -/

/-- Blocks describe one list of patterns at most. -/
theorem describes_unique {blocks : List Block} {ps ps' : List Pattern}
    (h : List.Forall₂ Block.Describes blocks ps) (h' : List.Forall₂ Block.Describes blocks ps') :
    ps = ps' := by
  induction h generalizing ps' with
  | nil =>
      cases h'
      rfl
  | cons hp _ ih =>
      cases h' with
      | cons hp' hrest => rw [hp.unique hp', ih hrest]

/-- A library has a pattern for each block of its text. -/
theorem exists_blocks {text : String} {l : Library} (h : parse text = .ok l) :
    ∃ front blocks, Cut ((Text.lines text).map Text.trim) front blocks
      ∧ List.Forall₂ Block.Describes blocks l.patterns := by
  rw [parse] at h
  split at h
  · cases h
  · rename_i r hsteps
    obtain ⟨front, blocks, q, patterns, hcut, hq, hblocks, hl⟩ :=
      Reading.steps_blocks (Text.lines text) Reading.proper_none hsteps h
    -- no pattern is open before the first line
    cases hq
    exact ⟨front, blocks, hcut, hl ▸ hblocks⟩

/--
**The patterns of a library have what their blocks say.**

The trimmed lines of a text are cut at the headings. There is a pattern for each of them, in
order, which is described by the lines behind its heading up to the next one, and no other pattern
is described by these lines.
-/
theorem parse_describes {text : String} {l : Library} (h : parse text = .ok l) :
    ∃ front blocks, Cut ((Text.lines text).map Text.trim) front blocks
      ∧ ∀ patterns, List.Forall₂ Block.Describes blocks patterns ↔ patterns = l.patterns := by
  rw [parse] at h
  split at h
  · cases h
  · rename_i r hsteps
    obtain ⟨front, blocks, q, patterns, hcut, hq, hblocks, hl⟩ :=
      Reading.steps_blocks (Text.lines text) Reading.proper_none hsteps h
    -- no pattern is open before the first line
    cases hq
    have hdescribes : List.Forall₂ Block.Describes blocks l.patterns := hl ▸ hblocks
    refine ⟨front, blocks, hcut, fun ps => ⟨fun hps => describes_unique hps hdescribes, ?_⟩⟩
    rintro rfl
    exact hdescribes

/-- Two blocks, with a section of an unknown keyword and a section without text. -/
def twoBlocks : String :=
  "@flexiarg a\n@title \"A\"\n@bits 00000101\n+ if: one\n two\n+ evidence: lost\n"
    ++ "@flexiarg b\n+ Then: three\n@param rotation 3\nlost\n+ THEN:\n"

theorem parse_describes_twoBlocks :
    ∃ l, parse twoBlocks = .ok l
      ∧ l.patterns = [
          { id := "a", title := some "A", condition := some "one two", code := some ⟨5⟩ },
          { id := "b", action := some "three", inline := some { rotation := some 3 } }]
      ∧ ∃ front blocks, Cut ((Text.lines twoBlocks).map Text.trim) front blocks
        ∧ ∀ patterns, List.Forall₂ Block.Describes blocks patterns ↔ patterns = l.patterns := by
  have hread : (parse twoBlocks).map patterns = .ok [
      { id := "a", title := some "A", condition := some "one two", code := some ⟨5⟩ },
      { id := "b", action := some "three", inline := some { rotation := some 3 } }] := by
    decide +kernel
  obtain ⟨l, hl, hpatterns⟩ := map_eq_ok hread
  exact ⟨l, hl, hpatterns, parse_describes hl⟩

end Library

end RuleWiring
