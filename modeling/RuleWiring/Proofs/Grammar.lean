import Mathlib
import RuleWiring.Proofs.Words

/-!
# The grammar of libraries

Which texts are libraries can be said without a word about how they are read: `Grammatical`
speaks of lines, of the headings among them and of what may stand before and behind the first
one. Reading a text keeps two things pending, the pattern whose block is open and the clause
that is open in it. The clause matters to no check. The pattern is pushed only when its block
ends, so a repeated id is noticed late, but no later than at the end of the text. `Stands` says
how far a reading has come, each line keeps it or shows that the text is no library, and the
end of the text makes up for the pattern still pending.
-/

namespace RuleWiring

namespace Library

/-! ## Kinds of lines -/

/-- A directive: its name stands between the sign and the first blank, and its value is the
trimmed rest. -/
def IsDirective (line name value : String) : Prop :=
  ∃ s, line = "@" ++ s ∧ Text.SplitsInto s name value

/-- The heading of a pattern. -/
def IsHeading (line id : String) : Prop := IsDirective line "flexiarg" id

/-- One of the four keywords, in letters of either case and with blanks around it or not. -/
def IsKeyword (key : String) : Prop :=
  ∃ word ∈ ["IF", "HOWEVER", "THEN", "BECAUSE"],
    (Text.trim key).toList.map Char.toUpper = word.toList

/-- The first line of a clause. -/
def IsClause (line : String) : Prop :=
  ∃ key text, line = "+" ++ (key ++ String.singleton ':' ++ text) ∧ ':' ∉ key.toList
    ∧ IsKeyword key

/-- A line that is neither a directive nor the first one of a clause. -/
def IsFree (line : String) : Prop := line.toList.head? ≠ some '@' ∧ ¬IsClause line

/-! ## Libraries -/

/-- The ids of all headings, in order. -/
inductive Headings : List String → List String → Prop where
  | nil : Headings [] []
  | heading {line id : String} {lines ids : List String} : IsHeading line id →
      Headings lines ids → Headings (line :: lines) (id :: ids)
  | other {line : String} {lines ids : List String} : (∀ id, ¬IsHeading line id) →
      Headings lines ids → Headings (line :: lines) ids

/-- There is a heading among the lines. -/
def Begun (lines : List String) : Prop := ∃ line ∈ lines, ∃ id, IsHeading line id

/-- A line that may stand behind some others. -/
structure InPlace (before : List String) (line : String) : Prop where
  /-- Up to the first heading there are neither directives nor clauses. -/
  introduced : ¬Begun before → (∀ id, ¬IsHeading line id) → IsFree line
  /-- From then on directives have values that they admit. -/
  admitted : Begun before → ∀ name value, IsDirective line name value → Admits name value

/-- Every line may stand where it does. -/
def AllInPlace (lines : List String) : Prop :=
  ∀ before line after, lines = before ++ line :: after → InPlace before line

/-- Trimmed lines that make up a library with some ids. -/
structure Grammatical (lines ids : List String) : Prop where
  headings : Headings lines ids
  named : "" ∉ ids
  distinct : ids.Nodup
  inPlace : AllInPlace lines

/-! ## Telling lines apart -/

theorem eq_append_iff {line sign s : String} {c : Char} (hsign : sign.toList = [c]) :
    line = sign ++ s ↔ line.toList = c :: s.toList := by
  rw [← String.toList_inj, String.toList_append, hsign, List.singleton_append]

theorem isDirective_iff {line name value : String} : IsDirective line name value ↔
    ∃ rest, line.toList = '@' :: rest ∧ Text.splitWord (String.ofList rest) = (name, value) := by
  constructor
  · rintro ⟨s, hs, hsplits⟩
    refine ⟨s.toList, (eq_append_iff rfl).mp hs, ?_⟩
    rw [String.ofList_toList]
    exact Text.splitWord_of_splitsInto hsplits
  · rintro ⟨rest, hrest, hsplit⟩
    have hline : line.toList = '@' :: (String.ofList rest).toList := by
      rw [hrest, String.toList_ofList]
    exact ⟨String.ofList rest, (eq_append_iff rfl).mpr hline, Text.splitWord_eq_iff.mp hsplit⟩

theorem IsDirective.head {line name value : String} (h : IsDirective line name value) :
    line.toList.head? = some '@' := by
  obtain ⟨rest, hrest, _⟩ := isDirective_iff.mp h
  rw [hrest]
  rfl

theorem IsClause.head {line : String} (h : IsClause line) : line.toList.head? = some '+' := by
  obtain ⟨key, text, hline, _⟩ := h
  rw [(eq_append_iff rfl).mp hline]
  rfl

/-- A line gives one directive at most. -/
theorem IsDirective.unique {line name value name' value' : String}
    (h : IsDirective line name value) (h' : IsDirective line name' value') :
    name = name' ∧ value = value' := by
  obtain ⟨rest, hrest, hsplit⟩ := isDirective_iff.mp h
  obtain ⟨rest', hrest', hsplit'⟩ := isDirective_iff.mp h'
  rw [hrest] at hrest'
  injection hrest' with _ hrest'
  rw [← hrest', hsplit] at hsplit'
  injection hsplit' with hname hvalue
  exact ⟨hname, hvalue⟩

theorem IsDirective.trim_value {line name value : String} (h : IsDirective line name value) :
    Text.trim value = value := by
  obtain ⟨s, _, hsplits⟩ := h
  exact hsplits.trim_rest

theorem isKeyword_iff {key : String} : IsKeyword key ↔ ∃ c, Clause.ofKeyword? key = some c := by
  have hkey : ∀ c : Clause, c.keyword = String.ofList ((Text.trimChars key.toList).map Char.toUpper)
      ↔ (Text.trim key).toList.map Char.toUpper = c.keyword.toList := by
    intro c
    rw [← String.toList_inj, String.toList_ofList, Text.trim, String.toList_ofList]
    exact eq_comm
  have hall : (∃ c, Clause.ofKeyword? key = some c) ↔ ∃ c ∈ Clause.all,
      c.keyword = String.ofList ((Text.trimChars key.toList).map Char.toUpper) := by
    rw [← Option.isSome_iff_exists, Clause.ofKeyword?, List.find?_isSome]
    simp only [decide_eq_true_iff]
  have hwords : ["IF", "HOWEVER", "THEN", "BECAUSE"] = Clause.all.map Clause.keyword := rfl
  simp only [hall, IsKeyword, hwords, List.mem_map, exists_exists_and_eq_and, hkey]

/-- A line behind a plus sign opens a clause if it is cut at a colon behind a keyword. -/
theorem isClause_iff {line : String} {rest : List Char} (hline : line.toList = '+' :: rest) :
    IsClause line ↔ ∃ key text, Text.splitAt? ':' (String.ofList rest) = some (key, text)
      ∧ IsKeyword key := by
  have hrest : ∀ s, line = "+" ++ s ↔ String.ofList rest = s := by
    intro s
    rw [eq_append_iff (c := '+') rfl, hline, List.cons.injEq, ← String.toList_inj,
      String.toList_ofList]
    exact and_iff_right rfl
  simp only [IsClause, hrest, Text.splitAt?_eq_some_iff, and_assoc]

/-- What a line is, by its kind. -/
def Line.Describes (line : String) : Line → Prop
  | .heading id => IsHeading line id
  | .directive name value => name ≠ "flexiarg" ∧ IsDirective line name value
  | .clause _ _ => IsClause line
  | .aside | .text _ => IsFree line

theorem Line.describes_ofText (line : String) : Line.Describes line (Line.ofText line) := by
  unfold Line.ofText
  split
  · rename_i rest hline
    have hdirective : IsDirective line (Text.splitWord (String.ofList rest)).1
        (Text.splitWord (String.ofList rest)).2 := isDirective_iff.mpr ⟨rest, hline, rfl⟩
    dsimp only
    split
    · rename_i hname
      rwa [hname] at hdirective
    · rename_i hname
      exact ⟨hname, hdirective⟩
  · rename_i rest hline
    have hhead : line.toList.head? ≠ some '@' := by
      rw [hline, List.head?_cons]
      decide
    have hclause := isClause_iff hline
    split
    · rename_i hcut
      refine ⟨hhead, fun h => ?_⟩
      obtain ⟨key, text, hcut', _⟩ := hclause.mp h
      rw [hcut] at hcut'
      exact absurd hcut' (by simp)
    · rename_i key text hcut
      split
      · rename_i c hc
        exact hclause.mpr ⟨key, text, hcut, isKeyword_iff.mpr ⟨c, hc⟩⟩
      · rename_i hnone
        refine ⟨hhead, fun h => ?_⟩
        obtain ⟨key', text', hcut', hkey⟩ := hclause.mp h
        rw [hcut] at hcut'
        cases hcut'
        obtain ⟨c, hc⟩ := isKeyword_iff.mp hkey
        rw [hnone] at hc
        exact absurd hc (by simp)
  · rename_i hat hplus
    refine ⟨fun hhead => ?_, fun h => ?_⟩
    · obtain ⟨rest, hrest⟩ := List.head?_eq_some_iff.mp hhead
      exact hat rest hrest
    · obtain ⟨rest, hrest⟩ := List.head?_eq_some_iff.mp h.head
      exact hplus rest hrest

/-! ## Headings and places -/

theorem Headings.append {a b ids more : List String} (ha : Headings a ids)
    (hb : Headings b more) : Headings (a ++ b) (ids ++ more) := by
  induction ha with
  | nil => exact hb
  | heading hline _ ih => exact .heading hline ih
  | other hnot _ ih => exact .other hnot ih

/-- The ids of the first lines are the first ids. -/
theorem Headings.of_append {a b ids all : List String} (ha : Headings a ids)
    (hall : Headings (a ++ b) all) : ∃ more, all = ids ++ more ∧ Headings b more := by
  induction ha generalizing all with
  | nil => exact ⟨all, rfl, hall⟩
  | heading hline _ ih =>
      cases hall with
      | heading hline' hrest =>
          obtain ⟨more, rfl, hmore⟩ := ih hrest
          obtain ⟨_, rfl⟩ := hline.unique hline'
          exact ⟨more, rfl, hmore⟩
      | other hnot _ => exact absurd hline (hnot _)
  | other hnot _ ih =>
      cases hall with
      | heading hline _ => exact absurd hline (hnot _)
      | other _ hrest => exact ih hrest

theorem Headings.unique {lines ids all : List String} (h : Headings lines ids)
    (hall : Headings lines all) : all = ids := by
  rw [← List.append_nil lines] at hall
  obtain ⟨more, rfl, hmore⟩ := h.of_append hall
  cases hmore
  exact List.append_nil ids

theorem Headings.begun_iff {lines ids : List String} (h : Headings lines ids) :
    Begun lines ↔ ids ≠ [] := by
  induction h with
  | nil => simp [Begun]
  | heading hline _ _ =>
      exact iff_of_true ⟨_, List.mem_cons_self, _, hline⟩ (List.cons_ne_nil _ _)
  | other hnot _ ih => simpa [Begun, hnot] using ih

theorem Grammatical.of_append {done more ids seen : List String}
    (h : Grammatical (done ++ more) ids) (hseen : Headings done seen) :
    "" ∉ seen ∧ seen.Nodup := by
  obtain ⟨later, rfl, _⟩ := hseen.of_append h.headings
  exact ⟨fun hmem => h.named (List.mem_append_left later hmem), h.distinct.of_append_left⟩

theorem Grammatical.inPlace_of_append {done more ids : List String} {line : String}
    (h : Grammatical (done ++ [line] ++ more) ids) : InPlace done line :=
  h.inPlace done line more (List.append_assoc done [line] more)

theorem AllInPlace.snoc {done : List String} {line : String} (h : AllInPlace done)
    (hline : InPlace done line) : AllInPlace (done ++ [line]) := by
  intro before l after hsplit
  -- it is the new line, or one of those before
  rcases List.eq_nil_or_concat after with rfl | ⟨front, last, rfl⟩
  · obtain ⟨rfl, hl⟩ := List.append_inj' hsplit rfl
    injection hl with hl
    exact hl ▸ hline
  · have hsplit' : done ++ [line] = (before ++ l :: front) ++ [last] := by
      rw [hsplit, List.concat_eq_append, List.append_assoc]
      rfl
    exact h before l front (List.append_inj' hsplit' rfl).1

theorem InPlace.of_isHeading {before : List String} {line id : String}
    (h : IsHeading line id) : InPlace before line := by
  refine ⟨fun _ hnot => absurd h (hnot id), fun _ name value hline => ?_⟩
  obtain ⟨rfl, _⟩ := h.unique hline
  exact ⟨by simp, by simp, by simp⟩

theorem IsFree.inPlace {before : List String} {line : String} (h : IsFree line) :
    InPlace before line :=
  ⟨fun _ _ => h, fun _ _ _ hline => absurd hline.head h.1⟩

theorem IsFree.not_isHeading {line : String} (h : IsFree line) (id : String) :
    ¬IsHeading line id :=
  fun hline => h.1 hline.head

theorem IsClause.not_isDirective {line : String} (h : IsClause line) (name value : String) :
    ¬IsDirective line name value := by
  intro hline
  have hsigns := h.head.symm.trans hline.head
  exact absurd hsigns (by decide)

theorem IsClause.inPlace_iff {before : List String} {line : String} (h : IsClause line) :
    InPlace before line ↔ Begun before := by
  constructor
  · intro hplace
    by_contra hbegun
    exact (hplace.introduced hbegun fun id => h.not_isDirective _ id).2 h
  · exact fun hbegun => ⟨fun hnot => absurd hbegun hnot,
      fun _ name value hline => absurd hline (h.not_isDirective name value)⟩

theorem IsDirective.inPlace_iff {before : List String} {line name value : String}
    (hline : IsDirective line name value) (hname : name ≠ "flexiarg") :
    InPlace before line ↔ Begun before ∧ Admits name value := by
  constructor
  · intro hplace
    have hbegun : Begun before := by
      by_contra hbegun
      exact (hplace.introduced hbegun fun id h => hname (hline.unique h).1).1 hline.head
    exact ⟨hbegun, hplace.admitted hbegun name value hline⟩
  · rintro ⟨hbegun, hadmits⟩
    refine ⟨fun hnot => absurd hbegun hnot, fun _ name' value' hline' => ?_⟩
    obtain ⟨rfl, rfl⟩ := hline.unique hline'
    exact hadmits

/-! ## Readings -/

/-- The ids of the patterns met so far, that of the open one included. -/
def Reading.seen (r : Reading) : List String := r.library.ids ++ (r.current.map (·.id)).toList

/-- How far a reading has come behind some lines. The open pattern may still repeat an id. -/
structure Reading.Stands (r : Reading) (done : List String) : Prop where
  headings : Headings done r.seen
  /-- No pattern is complete before one is open. -/
  started : r.current = none → r.library.ids = []
  named : "" ∉ r.seen
  distinct : r.library.ids.Nodup
  inPlace : AllInPlace done

namespace Reading

variable {r r' : Reading} {done : List String} {line : String}

theorem stands_initial : Stands {} [] := by
  refine ⟨.nil, fun _ => rfl, List.not_mem_nil, List.nodup_nil, fun before line after h => ?_⟩
  exact absurd h (by simp)

theorem Stands.begun_iff (h : r.Stands done) : Begun done ↔ r.current ≠ none := by
  rw [h.headings.begun_iff]
  cases hcurrent : r.current with
  | none => simp [seen, hcurrent, h.started hcurrent]
  | some p => simp [seen, hcurrent]

/-- Only the ids count. -/
theorem Stands.of_same_ids (h : r.Stands done) (hlibrary : r'.library = r.library)
    (hcurrent : r'.current.map (·.id) = r.current.map (·.id)) : r'.Stands done := by
  have hseen : r'.seen = r.seen := by rw [seen, seen, hlibrary, hcurrent]
  refine ⟨?_, fun hnone => ?_, ?_, ?_, h.inPlace⟩
  · rw [hseen]
    exact h.headings
  · rw [hlibrary]
    have hmap : r.current.map (·.id) = none := by
      rw [← hcurrent, hnone]
      rfl
    exact h.started (Option.map_eq_none_iff.mp hmap)
  · rw [hseen]
    exact h.named
  · rw [hlibrary]
    exact h.distinct

@[simp] theorem closeClause_id (p : Pattern) (o : OpenClause) : (closeClause p o).id = p.id := by
  unfold closeClause
  split
  · rfl
  · cases o.clause <;> rfl

theorem Stands.closed (h : r.Stands done) : r.closed.Stands done := by
  unfold Reading.closed
  split
  · rename_i p o hp _
    refine h.of_same_ids rfl ?_
    rw [hp, Option.map_some, Option.map_some, closeClause_id]
  · exact h.of_same_ids rfl rfl

/-- A line that is no heading and in its place adds nothing. -/
theorem Stands.other (h : r.Stands done) (hnot : ∀ id, ¬IsHeading line id)
    (hplace : InPlace done line) : r.Stands (done ++ [line]) := by
  refine ⟨?_, h.started, h.named, h.distinct, h.inPlace.snoc hplace⟩
  have hheadings := h.headings.append (.other hnot .nil)
  rwa [List.append_nil] at hheadings

/-! ## The end of a block -/

variable {number : Nat} {library : Library} {e : ParseError}

theorem ids_of_finished (h : r.finished number = .ok library) : library.ids = r.seen := by
  unfold finished at h
  split at h
  · rename_i hcurrent
    injection h with h
    simp [seen, hcurrent, h]
  · rename_i p hcurrent
    split at h
    · exact absurd h (by simp)
    · injection h with h
      simp [seen, hcurrent, ids, ← h]

/-- **A block ends well just if its pattern repeats no id.** -/
theorem Stands.finished_ok (h : r.Stands done) (hok : r.finished number = .ok library) :
    library.ids.Nodup := by
  unfold finished at hok
  split at hok
  · injection hok with hok
    exact hok ▸ h.distinct
  · split at hok
    · exact absurd hok (by simp)
    · rename_i p _ hnew
      injection hok with hok
      have hids : library.ids = r.library.ids ++ [p.id] := by simp [ids, ← hok]
      rw [hids]
      exact h.distinct.append (List.nodup_singleton _) (by simpa using hnew)

theorem finished_error (herror : r.finished number = .error e) : ¬r.seen.Nodup := by
  unfold finished at herror
  split at herror
  · exact absurd herror (by simp)
  · rename_i p hcurrent
    split at herror
    · rename_i hmem
      rw [seen, hcurrent]
      exact fun hnodup => (List.nodup_append.mp hnodup).2.2 _ hmem _ (by simp) rfl
    · exact absurd herror (by simp)

/-- A heading opens a new block once the old one has ended. -/
theorem Stands.heading {id : String} (h : r.Stands done) (hline : IsHeading line id)
    (hid : id ≠ "") (hok : r.finished number = .ok library) :
    Stands { library := library, current := some { id := id } } (done ++ [line]) := by
  have hids := ids_of_finished hok
  have hseen : seen { library := library, current := some { id := id } } = r.seen ++ [id] := by
    rw [seen, hids]
    rfl
  refine ⟨?_, fun hnone => absurd hnone (by simp), ?_, h.finished_ok hok,
    h.inPlace.snoc (InPlace.of_isHeading hline)⟩
  · rw [hseen]
    exact h.headings.append (.heading hline .nil)
  · rw [hseen, List.mem_append, List.mem_singleton, not_or]
    exact ⟨h.named, Ne.symm hid⟩

/-! ## Steps -/

/-- An outcome behind some lines: either the reading stands, or no library begins so. -/
structure Judges (done : List String) (outcome : Except ParseError Reading) : Prop where
  ok : ∀ r, outcome = .ok r → r.Stands done
  error : ∀ e, outcome = .error e → ∀ more ids, ¬Grammatical (done ++ more) ids

theorem judges_ok (h : r.Stands done) : Judges done (.ok r) := by
  refine ⟨fun r' hr => ?_, fun e he => absurd he (by simp)⟩
  injection hr with hr
  exact hr ▸ h

theorem judges_error (e : ParseError) (h : ∀ more ids, ¬Grammatical (done ++ more) ids) :
    Judges done (.error e) :=
  ⟨fun r hr => absurd hr (by simp), fun _ _ => h⟩

theorem judges_misplaced (e : ParseError) (h : ¬InPlace done line) :
    Judges (done ++ [line]) (.error e) :=
  judges_error e fun _ _ hgrammatical => h hgrammatical.inPlace_of_append

/-- **A line is taken in just if it may stand behind those before it.** -/
theorem Stands.step (h : r.Stands done) (number : Nat) (line : String) :
    Judges (done ++ [line]) (r.step number line) := by
  have hclosed := h.closed
  have hkind := Line.describes_ofText line
  unfold Reading.step
  cases hof : Line.ofText line with
  | heading id =>
      rw [hof] at hkind
      dsimp only
      split
      · rename_i hid
        refine judges_error _ fun more ids hgrammatical => ?_
        have hheadings := h.headings.append (.heading hkind .nil)
        exact (hgrammatical.of_append hheadings).1 (by simp [hid])
      · rename_i hid
        split
        · -- the pattern whose block ends here repeats an id, so one of two earlier headings does
          rename_i e he
          refine judges_error _ fun more ids hgrammatical => finished_error he ?_
          rw [List.append_assoc] at hgrammatical
          exact (hgrammatical.of_append hclosed.headings).2
        · rename_i library hok
          exact judges_ok (hclosed.heading hkind hid hok)
  | directive name value =>
      rw [hof] at hkind
      obtain ⟨hname, hline⟩ := hkind
      have hplace : InPlace done line ↔ Begun done ∧ Admits name value := hline.inPlace_iff hname
      have hnot : ∀ id, ¬IsHeading line id := fun id hid => hname (hline.unique hid).1
      dsimp only
      split
      · rename_i hnone
        refine judges_misplaced _ fun hin => ?_
        exact hclosed.begun_iff.mp (hplace.mp hin).1 hnone
      · -- there is a pattern, so all depends on the value
        rename_i p hp
        have hdecides := applyDirective_decides p name hline.trim_value
        have hbegun : Begun done := hclosed.begun_iff.mpr (by simp [hp])
        split
        · rename_i e he
          exact judges_misplaced _ fun hin => hdecides.error e he (hplace.mp hin).2
        · rename_i p' hp'
          obtain ⟨hid, hadmits⟩ := hdecides.ok p' hp'
          have hstands := hclosed.other hnot (hplace.mpr ⟨hbegun, hadmits⟩)
          refine judges_ok (hstands.of_same_ids rfl ?_)
          rw [hp, Option.map_some, Option.map_some, hid]
  | clause c text =>
      rw [hof] at hkind
      have hplace : InPlace done line ↔ Begun done := hkind.inPlace_iff
      dsimp only
      split
      · rename_i hnone
        refine judges_misplaced _ fun hin => ?_
        exact hclosed.begun_iff.mp (hplace.mp hin) (Option.isNone_iff_eq_none.mp hnone)
      · rename_i hsome
        have hbegun : Begun done :=
          hclosed.begun_iff.mpr fun hnone => hsome (Option.isNone_iff_eq_none.mpr hnone)
        have hstands := hclosed.other (fun id => hkind.not_isDirective _ id) (hplace.mpr hbegun)
        exact judges_ok (hstands.of_same_ids rfl rfl)
  | aside =>
      rw [hof] at hkind
      exact judges_ok (hclosed.other hkind.not_isHeading hkind.inPlace)
  | text s =>
      rw [hof] at hkind
      -- the text of a clause may go on, which is not closed for it
      have hstands : r.Stands (done ++ [line]) := h.other hkind.not_isHeading hkind.inPlace
      dsimp only
      split
      · exact judges_ok hstands
      · split
        · exact judges_ok hstands
        · exact judges_ok (hstands.of_same_ids rfl rfl)

/-- From line to line, by recursion over those that are left. -/
theorem Stands.steps : ∀ (lines : List String) {r : Reading} {done : List String},
    r.Stands done → ∀ number, Judges (done ++ lines.map Text.trim) (r.steps number lines)
  | [], _, _, h, _ => by
      rw [List.map_nil, List.append_nil]
      exact judges_ok h
  | line :: rest, r, done, h, number => by
      have hstep := h.step number (Text.trim line)
      have hlines : done ++ (line :: rest).map Text.trim
          = done ++ [Text.trim line] ++ rest.map Text.trim := by
        rw [List.append_assoc]
        rfl
      rw [hlines, Reading.steps]
      split
      · rename_i e he
        refine judges_error _ fun more ids hgrammatical => ?_
        rw [List.append_assoc] at hgrammatical
        exact hstep.error e he _ _ hgrammatical
      · rename_i r' hr'
        exact steps rest (hstep.ok r' hr') (number + 1)

end Reading

/-! ## Texts -/

/-- The library at the end of a text has the ids of the headings. -/
theorem Reading.Stands.grammatical_iff {r : Reading} {done : List String} {number : Nat}
    {library : Library} (h : r.Stands done) (hend : r.finished number = .ok library)
    (ids : List String) :
    library.ids = ids ↔ Grammatical done ids := by
  have hids := ids_of_finished hend
  constructor
  · rintro rfl
    have hdistinct := h.finished_ok hend
    rw [hids] at hdistinct ⊢
    exact ⟨h.headings, h.named, hdistinct, h.inPlace⟩
  · intro hgrammatical
    exact hids.trans (hgrammatical.headings.unique h.headings)

/-- **The texts that are read are those of the grammar**, and the patterns of the library are
those of the headings, in order. -/
theorem parse_iff_grammatical (text : String) (ids : List String) :
    (∃ l, parse text = .ok l ∧ l.ids = ids) ↔
      Grammatical ((Text.lines text).map Text.trim) ids := by
  have hsteps := Reading.Stands.steps (Text.lines text) Reading.stands_initial 1
  rw [List.nil_append] at hsteps
  cases hreading : Reading.steps {} 1 (Text.lines text) with
  | error e =>
      have hnone := hsteps.error e hreading [] ids
      rw [List.append_nil] at hnone
      simp [parse, hreading, hnone]
  | ok r =>
      have hstands := (hsteps.ok r hreading).closed
      cases hend : r.closed.finished (Text.lines text).length with
      | error e =>
          have hnone : ¬Grammatical ((Text.lines text).map Text.trim) ids := by
            intro hgrammatical
            rw [← List.append_nil ((Text.lines text).map Text.trim)] at hgrammatical
            exact Reading.finished_error hend (hgrammatical.of_append hstands.headings).2
          simp [parse, hreading, hend, hnone]
      | ok library =>
          rw [← hstands.grammatical_iff hend]
          simp [parse, hreading, hend]

end Library

end RuleWiring
