import Mathlib
import RuleWiring.Proofs.Grammar

/-!
# What a block says

A block is a heading with the lines behind it, up to the next heading. What it says of its pattern
can be told from its lines alone: of the directives that set a field the last one counts, those
that set parameters count one after the other, and of the sections of a clause the last one counts
that has any text. `Block.Describes` puts this together, and leaves nothing open.

The lines of a block are met one by one. `Completes` tells what becomes of a pattern by the lines
that are still to come, and of the section that is open before them. Closing a section is the same
as letting it go on with no more lines, so each line only moves a piece of text from what is to
come to what is there.
-/

namespace RuleWiring

/-! ## Quotes -/

namespace Text

/-- `t` is what is left of `s` without the quotes at either end. -/
def Unquotes (s t : String) : Prop :=
  ∃ m n, s.toList = List.replicate m '"' ++ t.toList ++ List.replicate n '"'
    ∧ t.toList.head? ≠ some '"' ∧ t.toList.getLast? ≠ some '"'

theorem takeWhile_eq_replicate (c : Char) (cs : List Char) :
    ∃ n, cs.takeWhile (· = c) = List.replicate n c :=
  ⟨_, List.eq_replicate_of_mem fun x hx => by simpa using List.mem_takeWhile_imp hx⟩

theorem head?_dropWhile_ne (c : Char) (cs : List Char) :
    (cs.dropWhile (· = c)).head? ≠ some c := by
  intro h
  have hnot := List.head?_dropWhile_not (· = c) cs
  rw [h] at hnot
  simp at hnot

theorem unquotes_stripChars (s : String) :
    Unquotes s (String.ofList (stripChars (· = '"') s.toList)) := by
  obtain ⟨m, hm⟩ := takeWhile_eq_replicate '"' s.toList
  obtain ⟨n, hn⟩ := takeWhile_eq_replicate '"' (s.toList.dropWhile (· = '"')).reverse
  have hfront := List.takeWhile_append_dropWhile (p := (· = '"')) (l := s.toList)
  have hback := List.takeWhile_append_dropWhile (p := (· = '"'))
    (l := (s.toList.dropWhile (· = '"')).reverse)
  -- the back is the front of the text read from its end
  have hrest : stripChars (· = '"') s.toList ++ List.replicate n '"'
      = s.toList.dropWhile (· = '"') := by
    rw [stripChars, ← List.reverse_reverse (List.replicate n '"'), ← List.reverse_append,
      List.reverse_replicate, ← hn, hback, List.reverse_reverse]
  refine ⟨m, n, ?_, ?_, ?_⟩
  · rw [String.toList_ofList, List.append_assoc, hrest, ← hm, hfront]
  · rw [String.toList_ofList]
    intro hhead
    refine head?_dropWhile_ne '"' s.toList ?_
    rw [← hrest, List.head?_append, hhead]
    rfl
  · rw [String.toList_ofList, stripChars, List.getLast?_reverse]
    exact head?_dropWhile_ne '"' _

theorem dropWhile_replicate_append (c : Char) {cs : List Char} (hcs : cs.head? ≠ some c) :
    ∀ n, (List.replicate n c ++ cs).dropWhile (· = c) = cs
  | 0 => by
      cases cs with
      | nil => rfl
      | cons x cs =>
          have hx : x ≠ c := fun h => hcs (by rw [h]; rfl)
          exact List.dropWhile_cons_of_neg (by simpa using hx)
  | n + 1 => by
      rw [List.replicate_succ, List.cons_append, List.dropWhile_cons_of_pos (by simp)]
      exact dropWhile_replicate_append c hcs n

theorem Unquotes.eq_stripChars {s t : String} (h : Unquotes s t) :
    t = String.ofList (stripChars (· = '"') s.toList) := by
  obtain ⟨m, n, hs, hhead, hlast⟩ := h
  rw [← String.toList_inj, String.toList_ofList, stripChars, hs, List.append_assoc]
  cases ht : t.toList with
  | nil =>
      -- all that there is are quotes
      rw [List.nil_append, List.replicate_append_replicate, ← List.append_nil (List.replicate _ _),
        dropWhile_replicate_append '"' (by simp)]
      rfl
  | cons x cs =>
      rw [ht] at hhead hlast
      have hfront : (x :: cs ++ List.replicate n '"').head? ≠ some '"' := hhead
      rw [dropWhile_replicate_append '"' hfront, List.reverse_append, List.reverse_replicate,
        dropWhile_replicate_append '"' (by rwa [List.head?_reverse]), List.reverse_reverse]

end Text

namespace Library

/-! ## Directives -/

/-- The values of the directives of a name, in order. -/
inductive Values (name : String) : List String → List String → Prop where
  | nil : Values name [] []
  | value {line v : String} {lines vs : List String} : IsDirective line name v →
      Values name lines vs → Values name (line :: lines) (v :: vs)
  | other {line : String} {lines vs : List String} : (∀ v, ¬ IsDirective line name v) →
      Values name lines vs → Values name (line :: lines) vs

/-- A field behind some lines: it has what the last directive of a name says, and without any
what it had before. -/
def Latest {α : Type} (name : String) (Reads : String → α → Prop) (lines : List String)
    (old new : Option α) : Prop :=
  ∃ vs, Values name lines vs ∧
    match vs.getLast? with
    | none => new = old
    | some v => ∃ x, Reads v x ∧ new = some x

/-- Parameters that values set one after the other, each of which is a key and a text. -/
inductive SetsAll : ParameterOverrides → List String → ParameterOverrides → Prop where
  | nil (o : ParameterOverrides) : SetsAll o [] o
  | cons {o o' o'' : ParameterOverrides} {value key v : String} {vs : List String} :
      Text.SplitsInto value key v → o.set key v = .ok o' → SetsAll o' vs o'' →
      SetsAll o (value :: vs) o''

/-- Parameters behind some lines: they are there if they were before, or if there is a directive
that sets one. -/
def Inlined (lines : List String) (old new : Option ParameterOverrides) : Prop :=
  ∃ vs, Values "param" lines vs ∧
    (vs = [] ∧ new = old ∨ vs ≠ [] ∧ ∃ o, SetsAll (old.getD {}) vs o ∧ new = some o)

/-! ## Sections -/

/-- A line that ends a section. -/
def isSigned (line : String) : Bool :=
  line.toList.head? = some '@' || line.toList.head? = some '+'

/-- The first line of the clause `c`, with a text behind the colon. -/
def Opens (line : String) (c : Clause) (text : String) : Prop :=
  ∃ key rest, line = "+" ++ (key ++ String.singleton ':' ++ rest) ∧ ':' ∉ key.toList
    ∧ (Text.trim key).toList.map Char.toUpper = c.keyword.toList ∧ text = Text.trim rest

/-- The pieces of text among lines, up to the first that is signed. -/
def pieces (lines : List String) : List String :=
  (lines.takeWhile fun line => !isSigned line).filter (· ≠ "")

/-- A text and the pieces behind it. -/
def piecesFrom (text : String) (lines : List String) : List String :=
  [text].filter (· ≠ "") ++ pieces lines

/-- The sections of a clause, each with its pieces. -/
inductive Sections (c : Clause) : List String → List (List String) → Prop where
  | nil : Sections c [] []
  | opens {line text : String} {lines : List String} {ss : List (List String)} :
      Opens line c text → Sections c lines ss →
      Sections c (line :: lines) (piecesFrom text lines :: ss)
  | other {line : String} {lines : List String} {ss : List (List String)} :
      (∀ text, ¬ Opens line c text) → Sections c lines ss → Sections c (line :: lines) ss

/-- The pieces of the last section that has any, with blanks between them. -/
def lastText (ss : List (List String)) : Option String :=
  (ss.filter (· ≠ [])).getLast?.map (" ".intercalate ·)

/-! ## Blocks -/

/-- A heading and the lines behind it. -/
structure Block where
  heading : String
  body : List String

/-- What a block says of its pattern. -/
structure Block.Describes (b : Block) (p : Pattern) : Prop where
  id : IsHeading b.heading p.id
  title : Latest "title" Text.Unquotes b.body none p.title
  code : Latest "bits" (fun v c => Exocode.parse v = .ok c) b.body none p.code
  preservation :
    Latest "preservation" (fun v tag => Preservation.parse v = .ok tag) b.body none p.preservation
  inline : Inlined b.body none p.inline
  clause : ∀ c, ∃ ss, Sections c b.body ss ∧ p.clause c = lastText ss

/-- Lines cut at the headings: those before the first, and a block for each. -/
inductive Cut : List String → List String → List Block → Prop where
  | nil : Cut [] [] []
  | heading {line id : String} {lines body : List String} {blocks : List Block} :
      IsHeading line id → Cut lines body blocks → Cut (line :: lines) [] (⟨line, body⟩ :: blocks)
  | other {line : String} {lines body : List String} {blocks : List Block} :
      (∀ id, ¬ IsHeading line id) → Cut lines body blocks →
      Cut (line :: lines) (line :: body) blocks

/-! ## Fields line by line -/

section Fields

variable {α : Type} {name line v : String} {Reads : String → α → Prop} {lines : List String}
  {old new : Option α} {x : α}

theorem latest_nil : Latest name Reads [] old old := ⟨[], .nil, rfl⟩

theorem Latest.cons_other (hline : ∀ v, ¬ IsDirective line name v)
    (h : Latest name Reads lines old new) : Latest name Reads (line :: lines) old new := by
  obtain ⟨vs, hvs, hlast⟩ := h
  exact ⟨vs, .other hline hvs, hlast⟩

/-- What a directive says counts as what was there before the lines behind it. -/
theorem Latest.cons_value (hline : IsDirective line name v) (hx : Reads v x)
    (h : Latest name Reads lines (some x) new) : Latest name Reads (line :: lines) old new := by
  obtain ⟨vs, hvs, hlast⟩ := h
  refine ⟨v :: vs, .value hline hvs, ?_⟩
  rw [List.getLast?_cons]
  cases hlater : vs.getLast? with
  | none =>
      rw [hlater] at hlast
      exact ⟨x, hx, hlast⟩
  | some w =>
      rw [hlater] at hlast
      exact hlast

theorem inlined_nil (old : Option ParameterOverrides) : Inlined [] old old :=
  ⟨[], .nil, .inl ⟨rfl, rfl⟩⟩

theorem Inlined.cons_other {old new : Option ParameterOverrides}
    (hline : ∀ v, ¬ IsDirective line "param" v) (h : Inlined lines old new) :
    Inlined (line :: lines) old new := by
  obtain ⟨vs, hvs, hset⟩ := h
  exact ⟨vs, .other hline hvs, hset⟩

theorem Inlined.cons_value {old new : Option ParameterOverrides} {o : ParameterOverrides}
    {key w : String} (hline : IsDirective line "param" v) (hv : Text.SplitsInto v key w)
    (ho : (old.getD {}).set key w = .ok o) (h : Inlined lines (some o) new) :
    Inlined (line :: lines) old new := by
  obtain ⟨vs, hvs, hset⟩ := h
  refine ⟨v :: vs, .value hline hvs, .inr ⟨List.cons_ne_nil v vs, ?_⟩⟩
  rcases hset with ⟨rfl, rfl⟩ | ⟨_, o', hall, rfl⟩
  · exact ⟨o, .cons hv ho (.nil o), rfl⟩
  · exact ⟨o', .cons hv ho hall, rfl⟩

end Fields

/-- What a directive does to a pattern. -/
inductive Directed (p : Pattern) : String → String → Pattern → Prop where
  | title {v t : String} : Text.Unquotes v t → Directed p "title" v { p with title := some t }
  | bits {v : String} {c : Exocode} : Exocode.parse v = .ok c →
      Directed p "bits" v { p with code := some c }
  | preservation {v : String} {tag : Preservation} : Preservation.parse v = .ok tag →
      Directed p "preservation" v { p with preservation := some tag }
  | param {v key w : String} {o : ParameterOverrides} : Text.SplitsInto v key w →
      (p.inline.getD {}).set key w = .ok o → Directed p "param" v { p with inline := some o }
  | unknown {name v : String} : name ∉ ["title", "bits", "preservation", "param"] →
      Directed p name v p

theorem directed_of_apply {p p' : Pattern} {name v : String}
    (h : applyDirective p name v = .ok p') : Directed p name v p' := by
  unfold applyDirective at h
  split at h
  · rename_i hname
    injection h with h
    rw [hname, ← h]
    exact .title (Text.unquotes_stripChars v)
  · split at h
    · rename_i hname
      obtain ⟨c, hc, rfl⟩ := map_eq_ok h
      rw [hname]
      exact .bits hc
    · split at h
      · rename_i hname
        obtain ⟨tag, htag, rfl⟩ := map_eq_ok h
        rw [hname]
        exact .preservation htag
      · split at h
        · rename_i hname
          obtain ⟨o, ho, rfl⟩ := map_eq_ok h
          rw [hname]
          exact .param (Text.splitsInto_splitWord v) ho
        · rename_i htitle hbits htag hparam
          injection h with h
          rw [← h]
          exact .unknown (by simp [htitle, hbits, htag, hparam])

/-! ## Sections line by line -/

theorem lastText_append (ss ss' : List (List String)) :
    lastText (ss ++ ss') = (lastText ss').or (lastText ss) := by
  rw [lastText, List.filter_append, List.getLast?_append, Option.map_or]
  rfl

theorem lastText_singleton (ps : List String) :
    lastText [ps] = if ps = [] then none else some (" ".intercalate ps) := by
  by_cases h : ps = [] <;> simp [lastText, h]

/-- Only without pieces there is no text. -/
theorem intercalate_eq_empty {ps : List String} (h : "" ∉ ps) :
    " ".intercalate ps = "" ↔ ps = [] := by
  constructor
  · intro hempty
    cases ps with
    | nil => rfl
    | cons s ps =>
        have hs : s ≠ "" := fun hs => h (hs ▸ List.mem_cons_self)
        cases ps with
        | nil => exact absurd (String.intercalate_singleton.symm.trans hempty) hs
        | cons s' ps =>
            rw [String.intercalate_cons_cons, String.append_eq_empty_iff,
              String.append_eq_empty_iff] at hempty
            exact absurd hempty.1.1 hs
  · rintro rfl
    exact String.intercalate_nil

@[simp] theorem clause_withClause (p : Pattern) (c c' : Clause) (text : String) :
    (p.withClause c' text).clause c = if c' = c then some text else p.clause c := by
  cases c <;> cases c' <;> rfl

/-- The section that is open before some lines, if it is one of the clause `c`. -/
def pending (c : Clause) (opened : Option OpenClause) (lines : List String) :
    List (List String) :=
  match opened with
  | none => []
  | some o => if o.clause = c then [o.pieces ++ pieces lines] else []

/-- The pattern once the open section is closed. -/
def closedPattern (p : Pattern) : Option OpenClause → Pattern
  | none => p
  | some o => closeClause p o

/-- No piece of the open section is empty. -/
def Proper (opened : Option OpenClause) : Prop := ∀ o, opened = some o → "" ∉ o.pieces

theorem clause_closedPattern (p : Pattern) (c : Clause) {opened : Option OpenClause}
    (h : Proper opened) :
    (closedPattern p opened).clause c = (lastText (pending c opened [])).or (p.clause c) := by
  cases opened with
  | none => rfl
  | some o =>
      have hempty := intercalate_eq_empty (h o rfl)
      rw [closedPattern, closeClause, pending, OpenClause.text]
      by_cases hc : o.clause = c
      · rw [if_pos hc, pieces, List.takeWhile_nil, List.filter_nil, List.append_nil,
          lastText_singleton]
        by_cases hpieces : o.pieces = []
        · rw [if_pos hpieces, if_pos (hempty.mpr hpieces), Option.none_or]
        · rw [if_neg hpieces, if_neg (mt hempty.mp hpieces), clause_withClause, if_pos hc,
            Option.some_or]
      · rw [if_neg hc]
        split
        · rfl
        · rw [clause_withClause, if_neg hc]
          rfl

theorem pieces_signed {line : String} (h : isSigned line = true) (lines : List String) :
    pieces (line :: lines) = [] := by
  rw [pieces, List.takeWhile_cons_of_neg (by simp [h]), List.filter_nil]

theorem pieces_unsigned {line : String} (h : isSigned line = false) (lines : List String) :
    pieces (line :: lines) = piecesFrom line lines := by
  rw [pieces, List.takeWhile_cons_of_pos (by simp [h]), ← List.singleton_append,
    List.filter_append, piecesFrom, pieces]

theorem pending_signed (c : Clause) (opened : Option OpenClause) {line : String}
    (h : isSigned line = true) (lines : List String) :
    pending c opened (line :: lines) = pending c opened [] := by
  cases opened with
  | none => rfl
  | some o =>
      rw [pending, pending, pieces_signed h]
      rfl

/-- A clause behind some lines: the last section with a text counts, and the open one comes before
those that the lines open. -/
def Worded (c : Clause) (opened : Option OpenClause) (lines : List String)
    (old new : Option String) : Prop :=
  ∃ ss, Sections c lines ss ∧ new = (lastText (pending c opened lines ++ ss)).or old

section Clauses

variable {p : Pattern} {c c' : Clause} {opened : Option OpenClause} {line text : String}
  {lines : List String} {old new : Option String}

theorem worded_nil (h : Proper opened) :
    Worded c opened [] (p.clause c) ((closedPattern p opened).clause c) :=
  ⟨[], .nil, by rw [List.append_nil, clause_closedPattern p c h]⟩

theorem Worded.cons_signed (hsigned : isSigned line = true) (hline : ∀ text, ¬ Opens line c text)
    (hproper : Proper opened) (h : Worded c none lines ((closedPattern p opened).clause c) new) :
    Worded c opened (line :: lines) (p.clause c) new := by
  obtain ⟨ss, hss, hnew⟩ := h
  refine ⟨ss, .other hline hss, ?_⟩
  have hnone : pending c none lines = [] := rfl
  rw [hnew, hnone, List.nil_append, clause_closedPattern p c hproper,
    pending_signed c opened hsigned, lastText_append, Option.or_assoc]

theorem Opens.signed (h : Opens line c text) : isSigned line = true := by
  obtain ⟨key, rest, rfl, _⟩ := h
  rw [isSigned, String.toList_append]
  rfl

theorem Opens.isClause (h : Opens line c text) : IsClause line := by
  obtain ⟨key, rest, hline, hkey, hword, _⟩ := h
  exact ⟨key, rest, hline, hkey, c.keyword, by cases c <;> decide, hword⟩

theorem Opens.unique {text' : String} (h : Opens line c text) (h' : Opens line c' text') :
    c = c' ∧ text = text' := by
  obtain ⟨key, rest, hline, hkey, hword, htext⟩ := h
  obtain ⟨key', rest', hline', hkey', hword', htext'⟩ := h'
  have hrest := (eq_append_iff (c := '+') rfl).mp hline
  rw [(eq_append_iff (c := '+') rfl).mp hline', List.cons.injEq, String.toList_inj] at hrest
  -- a text is cut at its first colon in one way only
  have hcut : Text.splitAt? ':' (key ++ String.singleton ':' ++ rest) = some (key, rest) :=
    Text.splitAt?_eq_some_iff.mpr ⟨rfl, hkey⟩
  rw [← hrest.2, Text.splitAt?_eq_some_iff.mpr ⟨rfl, hkey'⟩, Option.some.injEq,
    Prod.mk.injEq] at hcut
  rw [← hcut.1, hword', String.toList_inj] at hword
  refine ⟨?_, by rw [htext, htext', hcut.2]⟩
  revert hword
  cases c <;> cases c' <;> decide

theorem Worded.cons_opens (hline : Opens line c' text) (hproper : Proper opened)
    (h : Worded c (some ⟨c', [text].filter (· ≠ "")⟩) lines
      ((closedPattern p opened).clause c) new) :
    Worded c opened (line :: lines) (p.clause c) new := by
  obtain ⟨ss, hss, hnew⟩ := h
  have hsections : Sections c (line :: lines)
      (pending c (some ⟨c', [text].filter (· ≠ "")⟩) lines ++ ss) := by
    rw [pending]
    split
    · rename_i hc
      exact .opens (hc ▸ hline) hss
    · rename_i hc
      exact .other (fun _ h => hc (hline.unique h).1) hss
  refine ⟨_, hsections, ?_⟩
  rw [hnew, clause_closedPattern p c hproper, pending_signed c opened hline.signed,
    lastText_append (pending c opened []), Option.or_assoc]

/-- The open section with a further line. -/
def OpenClause.add (o : OpenClause) (line : String) : OpenClause :=
  { o with pieces := o.pieces ++ [line].filter (· ≠ "") }

theorem Worded.cons_text (hsigned : isSigned line = false)
    (h : Worded c (opened.map (·.add line)) lines old new) :
    Worded c opened (line :: lines) old new := by
  obtain ⟨ss, hss, hnew⟩ := h
  have hline : ∀ text, ¬ Opens line c text := fun text h => by
    rw [h.signed] at hsigned
    cases hsigned
  refine ⟨ss, .other hline hss, ?_⟩
  have hpending : pending c (opened.map (·.add line)) lines = pending c opened (line :: lines) := by
    cases opened with
    | none => rfl
    | some o =>
        rw [Option.map_some, pending, pending, pieces_unsigned hsigned, OpenClause.add,
          List.append_assoc, piecesFrom]
  rw [hnew, hpending]

end Clauses

/-! ## One pattern for a block -/

theorem Values.unique {name : String} {lines vs vs' : List String} (h : Values name lines vs)
    (h' : Values name lines vs') : vs = vs' := by
  induction h generalizing vs' with
  | nil =>
      cases h'
      rfl
  | value hline _ ih =>
      cases h' with
      | value hline' hrest => rw [(hline.unique hline').2, ih hrest]
      | other hnot _ => exact absurd hline (hnot _)
  | other hnot _ ih =>
      cases h' with
      | value hline _ => exact absurd hline (hnot _)
      | other _ hrest => exact ih hrest

theorem Latest.unique {α : Type} {name : String} {Reads : String → α → Prop} {lines : List String}
    {old new new' : Option α} (hreads : ∀ v x x', Reads v x → Reads v x' → x = x')
    (h : Latest name Reads lines old new) (h' : Latest name Reads lines old new') :
    new = new' := by
  obtain ⟨vs, hvs, hnew⟩ := h
  obtain ⟨vs', hvs', hnew'⟩ := h'
  rw [hvs'.unique hvs] at hnew'
  cases hlast : vs.getLast? with
  | none =>
      rw [hlast] at hnew hnew'
      exact hnew.trans hnew'.symm
  | some v =>
      rw [hlast] at hnew hnew'
      obtain ⟨x, hx, rfl⟩ := hnew
      obtain ⟨x', hx', rfl⟩ := hnew'
      rw [hreads v x x' hx hx']

theorem SetsAll.unique {o p p' : ParameterOverrides} {vs : List String} (h : SetsAll o vs p)
    (h' : SetsAll o vs p') : p = p' := by
  induction h with
  | nil =>
      cases h'
      rfl
  | cons hv ho _ ih =>
      cases h' with
      | cons hv' ho' hrest =>
          have hsplit := Text.splitWord_of_splitsInto hv
          rw [Text.splitWord_of_splitsInto hv'] at hsplit
          cases hsplit
          rw [ho] at ho'
          cases ho'
          exact ih hrest

theorem Inlined.unique {lines : List String} {old new new' : Option ParameterOverrides}
    (h : Inlined lines old new) (h' : Inlined lines old new') : new = new' := by
  obtain ⟨vs, hvs, hnew⟩ := h
  obtain ⟨vs', hvs', hnew'⟩ := h'
  rw [hvs'.unique hvs] at hnew'
  obtain ⟨hnil, rfl⟩ | ⟨hne, o, ho, rfl⟩ := hnew
  · exact (hnew'.resolve_right fun h => h.1 hnil).2.symm
  · obtain ⟨_, o', ho', rfl⟩ := hnew'.resolve_left fun h => hne h.1
    rw [ho.unique ho']

theorem Sections.unique {c : Clause} {lines : List String} {ss ss' : List (List String)}
    (h : Sections c lines ss) (h' : Sections c lines ss') : ss = ss' := by
  induction h generalizing ss' with
  | nil =>
      cases h'
      rfl
  | opens hline _ ih =>
      cases h' with
      | opens hline' hrest => rw [(hline.unique hline').2, ih hrest]
      | other hnot _ => exact absurd hline (hnot _)
  | other hnot _ ih =>
      cases h' with
      | opens hline _ => exact absurd hline (hnot _)
      | other _ hrest => exact ih hrest

theorem parsed_unique {ε α : Type} {parse : String → Except ε α} (v : String) (x x' : α)
    (h : parse v = .ok x) (h' : parse v = .ok x') : x = x' :=
  Except.ok.inj (h.symm.trans h')

/-- **What a block says leaves nothing open.** -/
theorem Block.Describes.unique {b : Block} {p p' : Pattern} (h : b.Describes p)
    (h' : b.Describes p') : p = p' := by
  have hclause : ∀ c, p.clause c = p'.clause c := fun c => by
    obtain ⟨ss, hss, hp⟩ := h.clause c
    obtain ⟨ss', hss', hp'⟩ := h'.clause c
    rw [hp, hp', hss.unique hss']
  have hunquotes : ∀ s t t', Text.Unquotes s t → Text.Unquotes s t' → t = t' :=
    fun _ _ _ ht ht' => ht.eq_stripChars.trans ht'.eq_stripChars.symm
  have hid := (h.id.unique h'.id).2
  have htitle := h.title.unique hunquotes h'.title
  have hcode := h.code.unique parsed_unique h'.code
  have htag := h.preservation.unique parsed_unique h'.preservation
  have hinline := h.inline.unique h'.inline
  cases p
  cases p'
  rw [Pattern.mk.injEq]
  exact ⟨hid, htitle, hclause .condition, hclause .fallback, hclause .action,
    hclause .justification, hcode, hinline, htag⟩

end Library

end RuleWiring
