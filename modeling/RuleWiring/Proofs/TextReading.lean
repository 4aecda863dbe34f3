import Mathlib
import RuleWiring.Proofs.Drafts
import RuleWiring.Proofs.Floats
import RuleWiring.Proofs.Numerals

/-!
# Texts read back

The indented text of a value, in front of what cannot belong to it, is read as the draft of
the value, and what follows is left. Strings come back character by character from their
escapes, numerals part for part; the blanks that put every element on a line of its own are
passed over.
-/

namespace RuleWiring

namespace Draft

open Json

/-! ## Strings -/

theorem hexValue?_hexDigit : ∀ n < 16, Bytes.hexValue? (Bytes.hexDigit n) = some n := by
  decide

/-- A control character comes back from its four hexadecimal digits. -/
theorem fourHex_control {c : Char} (hc : c.toNat < 32) (rest : List Char) :
    fourHex ('0' :: '0' :: Bytes.hexDigit (c.toNat / 16) :: Bytes.hexDigit (c.toNat % 16) :: rest)
      = .found c.toNat rest := by
  have hzero : Bytes.hexValue? '0' = some 0 := rfl
  rw [fourHex, hzero, hexValue?_hexDigit _ (by omega), hexValue?_hexDigit _ (by omega)]
  simp only [Step.found.injEq, and_true]
  omega

theorem codeUnit_control {c : Char} (hc : c.toNat < 32) (rest : List Char) :
    codeUnit c.toNat rest = .found (some c) rest := by
  have hlow : isLowSurrogate c.toNat = false := by simp [isLowSurrogate]; omega
  have hhigh : isHighSurrogate c.toNat = false := by simp [isHighSurrogate]; omega
  unfold codeUnit
  rw [hlow, hhigh]
  simp [Char.ofNat_toNat]

/-- One step takes one character, however it is written. -/
theorem stringBody_escapeChar (c : Char) (fuel : Nat) (taken rest : List Char) :
    stringBody (fuel + 1) (some taken) (escapeChar c ++ rest)
      = stringBody fuel (some (c :: taken)) rest := by
  unfold escapeChar
  split
  · subst_vars; rfl
  split
  · subst_vars; rfl
  split
  · subst_vars; rfl
  split
  · subst_vars; rfl
  split
  · subst_vars; rfl
  split
  · subst_vars; rfl
  split
  · subst_vars; rfl
  split
  · -- the only escape that is read through a code unit
    rename_i hc
    have hfour := fourHex_control hc rest
    have hunit := codeUnit_control hc rest
    simp only [List.cons_append, List.nil_append]
    rw [stringBody]
    simp [hfour, hunit]
  · rename_i hquote hslash _ _ _ _ _ hc
    simp only [List.cons_append, List.nil_append]
    rw [stringBody.eq_def]
    simp [hquote, hslash, hc]

theorem stringBody_quoted : ∀ (cs : List Char) {fuel : Nat} {taken rest : List Char},
    (cs.flatMap escapeChar).length < fuel →
    stringBody fuel (some taken) (cs.flatMap escapeChar ++ '"' :: rest)
      = .found (some (String.ofList (taken.reverse ++ cs))) rest
  | _, 0, _, _, hfuel => absurd hfuel (Nat.not_lt_zero _)
  | [], fuel + 1, taken, rest, _ => by simp [stringBody]
  | c :: cs, fuel + 1, taken, rest, hfuel => by
      have hlength : (escapeChar c).length + (cs.flatMap escapeChar).length < fuel + 1 := by
        simpa using hfuel
      have hpos : 0 < (escapeChar c).length := by
        unfold escapeChar
        split_ifs
        all_goals exact Nat.succ_pos _
      rw [List.flatMap_cons, List.append_assoc, stringBody_escapeChar,
        stringBody_quoted cs (by omega)]
      simp

theorem stringAfterQuote_quoted (s : String) (rest : List Char) :
    stringAfterQuote (s.toList.flatMap escapeChar ++ '"' :: rest) = .found (some s) rest := by
  rw [stringAfterQuote, stringBody_quoted _ (by simp)]
  simp

/-! ## Blanks -/

theorem dropBlanks_lineBreak (level : Nat) (cs : List Char) :
    dropBlanks (lineBreak level ++ cs) = dropBlanks cs := by
  have hblank : ∀ c ∈ lineBreak level, isBlank c := by
    intro c hc
    rcases List.mem_cons.mp hc with hc | hc
    · rw [hc]; rfl
    · rw [List.eq_of_mem_replicate hc]; rfl
  exact List.dropWhile_append_of_pos hblank

theorem dropBlanks_of_head {c : Char} {cs : List Char} (hc : isBlank c = false) :
    dropBlanks (c :: cs) = c :: cs := List.dropWhile_cons_of_neg (by simp [hc])

theorem dropBlanks_dropBlanks (cs : List Char) : dropBlanks (dropBlanks cs) = dropBlanks cs :=
  List.dropWhile_idempotent isBlank cs

/-- Only what is left after the blanks matters to the reader of a value. -/
theorem value_congr {cs cs' : List Char} (h : dropBlanks cs = dropBlanks cs') (fuel : Nat) :
    value fuel cs = value fuel cs' := by
  cases fuel with
  | zero => rw [value, value]
  | succ fuel => rw [value, value, h]

theorem value_lineBreak (level fuel : Nat) (cs : List Char) :
    value fuel (lineBreak level ++ cs) = value fuel cs := value_congr (dropBlanks_lineBreak ..) fuel

theorem item_congr {cs cs' : List Char} (h : dropBlanks cs = dropBlanks cs') (fuel : Nat) :
    item fuel cs = item fuel cs' := by
  cases fuel with
  | zero => rw [item, item]
  | succ fuel => rw [item, item, value_congr h]

theorem member_congr {cs cs' : List Char} (h : dropBlanks cs = dropBlanks cs') (fuel : Nat) :
    member fuel cs = member fuel cs' := by
  cases fuel with
  | zero => rw [member, member]
  | succ fuel => rw [member, member, h]

/-! ## Numbers -/

section Values

variable {fuel : Nat} {rest : List Char}

theorem ne_of_isDigit {c d : Char} (hc : c.isDigit) (hd : d.isDigit = false) : c ≠ d := by
  rintro rfl
  exact absurd (hc.symm.trans hd) (by decide)

theorem isBlank_digit {c : Char} (hc : c.isDigit) : isBlank c = false := by
  have hspace : c ≠ ' ' := ne_of_isDigit hc rfl
  have hline : c ≠ '\n' := ne_of_isDigit hc rfl
  have htab : c ≠ '\t' := ne_of_isDigit hc rfl
  have hreturn : c ≠ '\r' := ne_of_isDigit hc rfl
  simp [isBlank, hspace, hline, htab, hreturn]

theorem value_digit {c : Char} (hc : c.isDigit) (cs : List Char) :
    value (fuel + 1) (c :: cs) = value.ofNumeral (numeral false (c :: cs)) := by
  have hn : c ≠ 'n' := ne_of_isDigit hc rfl
  have ht : c ≠ 't' := ne_of_isDigit hc rfl
  have hf : c ≠ 'f' := ne_of_isDigit hc rfl
  have hquote : c ≠ '"' := ne_of_isDigit hc rfl
  have hminus : c ≠ '-' := ne_of_isDigit hc rfl
  rw [value, dropBlanks_of_head (isBlank_digit hc)]
  simp [hn, ht, hf, hquote, hminus, hc]

theorem value_minus (cs : List Char) :
    value (fuel + 1) ('-' :: cs) = value.ofNumeral (numeral true cs) := by
  rw [value]
  rfl

/-- A proper numeral is a number, with or without a sign. -/
theorem value_spelling {s : Spelling} (hs : s.Proper) (hrest : Delimited rest) :
    value (fuel + 1) (s.text ++ rest)
      = (.number (amount false s.whole s.places s.exponent), rest) := by
  have hnumeral := numeral_text hs hrest false
  obtain ⟨c, cs, hwhole⟩ := List.exists_cons_of_ne_nil hs.whole.nonempty
  have hc : c.isDigit := hs.whole.all c (hwhole ▸ List.mem_cons_self ..)
  have htext : ∃ tail, s.text ++ rest = c :: tail := by
    rw [Spelling.text, hwhole]
    exact ⟨_, rfl⟩
  obtain ⟨tail, htext⟩ := htext
  rw [htext] at hnumeral ⊢
  rw [value_digit hc, hnumeral]
  rfl

theorem value_nat {n : Nat} (hn : n < 2 ^ 64) (hrest : Delimited rest) :
    value (fuel + 1) (Nat10.digits n ++ rest) = (.number (.nat n), rest) := by
  have htext : Spelling.text ⟨Nat10.digits n, none, none⟩ = Nat10.digits n := by
    simp [Spelling.text]
  rw [← htext, value_spelling (Nat10.proper_digits n) hrest, amount_digits hn]

/-- The text of a real is read as some number, or as nothing, whatever follows. -/
theorem exists_value_realText (x : Binary64) :
    ∃ d : Draft, (∀ stop, d ≠ .broken stop) ∧ ∀ (fuel : Nat) (rest : List Char), Delimited rest →
      value (fuel + 1) (realText x ++ rest) = (d, rest) := by
  rw [realText]
  split
  · rename_i hfinite
    have hnan := Binary64.isNaN_of_isFinite hfinite
    obtain ⟨s, hs, htext⟩ := (x.shortest .even).exists_spelling
    rw [Binary64.scientific, Binary64.written, hnan, hfinite, ← htext]
    simp only [Bool.false_eq_true, if_false, if_true, String.toList_ofList]
    split
    · refine ⟨.number (amount true s.whole s.places s.exponent), fun _ h => absurd h (by simp),
        fun fuel rest hrest => ?_⟩
      rw [List.cons_append, value_minus, numeral_text hs hrest true]
      rfl
    · exact ⟨.number (amount false s.whole s.places s.exponent), fun _ h => absurd h (by simp),
        fun fuel rest hrest => value_spelling hs hrest⟩
  · exact ⟨.null, fun _ h => absurd h (by simp), fun _ _ _ => rfl⟩

theorem natBelow_number {bound n : Nat} (h : n < bound) :
    Decoder.natBelow bound (.number (.nat n)) = .ok n :=
  if_pos h

/-- What is found in an indented text: objects may be one of some values, lists never. -/
def medium : Medium where
  nat n := .number (.nat n)
  real x := (ofText (String.ofList (realText x))).1
  openList := false
  openObject _ := true
  reads_nat h := natBelow_number h

theorem medium_real (x : Binary64) : medium.real x = (ofText (String.ofList (realText x))).1 := by
  rw [medium]

theorem value_real (x : Binary64) (hrest : Delimited rest) :
    value (fuel + 1) (realText x ++ rest) = (medium.real x, rest) := by
  obtain ⟨d, _, hread⟩ := exists_value_realText x
  have halone : medium.real x = d := by
    have h := hread (3 * (realText x).length + 2) [] delimited_nil
    rw [List.append_nil] at h
    rw [medium_real, ofText, String.toList_ofList]
    dsimp only
    rw [h]
  rw [halone]
  exact hread fuel rest hrest

/-- No value of a written text is broken. -/
theorem draft_ne_broken (v : Json) (stop : Stop) : v.draft medium ≠ .broken stop := by
  cases v with
  | real x =>
      obtain ⟨d, hd, hread⟩ := exists_value_realText x
      have hx : value (0 + 1) (realText x ++ []) = (medium.real x, []) := value_real x delimited_nil
      rw [hread 0 [] delimited_nil] at hx
      injection hx with hx
      exact fun h => hd stop (hx.trans h)
  | _ => exact fun h => absurd h (by simp [draft, medium])

/-! ## Strings, lists and objects -/

theorem stringAfterQuote_tail (s : String) (rest : List Char) :
    ∃ body, quoted s ++ rest = '"' :: body ∧ stringAfterQuote body = .found (some s) rest :=
  ⟨s.toList.flatMap escapeChar ++ '"' :: rest, by simp [quoted], stringAfterQuote_quoted s rest⟩

theorem value_quoted (s : String) : value (fuel + 1) (quoted s ++ rest) = (.text s, rest) := by
  obtain ⟨body, hquoted, hbody⟩ := stringAfterQuote_tail s rest
  rw [hquoted, value]
  simp [dropBlanks, isBlank, hbody]

/-- The last item of a list. -/
theorem item_last {cs after : List Char} {v : Draft} (hv : value fuel cs = (v, rest))
    (hsound : ∀ stop, v ≠ .broken stop) (hclose : dropBlanks rest = ']' :: after) :
    item (fuel + 1) cs = ([v], none, after) := by
  rw [item, hv]
  cases v with
  | broken stop => exact absurd rfl (hsound stop)
  | _ => simp only [hclose]

/-- An item that others follow. -/
theorem item_next {cs more after : List Char} {v : Draft} {vs : List Draft}
    (hv : value fuel cs = (v, rest)) (hsound : ∀ stop, v ≠ .broken stop)
    (hcomma : dropBlanks rest = ',' :: more) (hmore : item fuel more = (vs, none, after)) :
    item (fuel + 1) cs = (v :: vs, none, after) := by
  rw [item, hv]
  cases v with
  | broken stop => exact absurd rfl (hsound stop)
  | _ => simp only [hcomma, hmore]

/-- The last member of an object. -/
theorem member_last {cs tail after : List Char} {k : String} {v : Draft}
    (hk : dropBlanks cs = quoted k ++ ':' :: tail) (hv : value fuel tail = (v, rest))
    (hsound : ∀ stop, v ≠ .broken stop) (hclose : dropBlanks rest = '}' :: after) :
    member (fuel + 1) cs = ([(.name k, v)], none, after) := by
  obtain ⟨body, hquoted, hbody⟩ := stringAfterQuote_tail k (':' :: tail)
  have hcolon : dropBlanks (':' :: tail) = ':' :: tail := rfl
  rw [member, hk, hquoted]
  simp only [hbody, hcolon, hv]
  cases v with
  | broken stop => exact absurd rfl (hsound stop)
  | _ => simp only [hclose]

/-- A member that others follow. -/
theorem member_next {cs tail more after : List Char} {k : String} {v : Draft}
    {ms : List (Key × Draft)} (hk : dropBlanks cs = quoted k ++ ':' :: tail)
    (hv : value fuel tail = (v, rest)) (hsound : ∀ stop, v ≠ .broken stop)
    (hcomma : dropBlanks rest = ',' :: more) (hmore : member fuel more = (ms, none, after)) :
    member (fuel + 1) cs = ((.name k, v) :: ms, none, after) := by
  obtain ⟨body, hquoted, hbody⟩ := stringAfterQuote_tail k (':' :: tail)
  have hcolon : dropBlanks (':' :: tail) = ':' :: tail := rfl
  rw [member, hk, hquoted]
  simp only [hbody, hcolon, hv]
  cases v with
  | broken stop => exact absurd rfl (hsound stop)
  | _ => simp only [hcomma, hmore]

/-- No value starts with the end of a list, or at the end of the text. -/
theorem value_stuck {cs : List Char} (h : dropBlanks cs = [] ∨ ∃ tail, dropBlanks cs = ']' :: tail)
    (fuel : Nat) : ∃ stop left, value fuel cs = (.broken stop, left) := by
  cases fuel with
  | zero => exact ⟨_, _, by rw [value]⟩
  | succ fuel =>
      rcases h with h | ⟨tail, h⟩
      · exact ⟨_, _, by rw [value, h]⟩
      · exact ⟨_, _, by rw [value, h]; rfl⟩

/-- Items that make sense are the items of a list. -/
theorem firstItem_of_item {cs after : List Char} {v : Draft} {vs : List Draft}
    (h : item fuel cs = (v :: vs, none, after)) (hsound : ∀ stop, v ≠ .broken stop) :
    firstItem (fuel + 1) cs = (v :: vs, none, after) := by
  have hstart : ¬ (dropBlanks cs = [] ∨ ∃ tail, dropBlanks cs = ']' :: tail) := by
    intro hstuck
    cases fuel with
    | zero =>
        rw [item] at h
        exact absurd h (by simp)
    | succ fuel =>
        obtain ⟨stop, left, hv⟩ := value_stuck hstuck fuel
        rw [item, hv] at h
        injection h with h _
        injection h with h _
        exact hsound stop h.symm
  rw [firstItem]
  split
  · rename_i hnil
    exact absurd (Or.inl hnil) hstart
  · rename_i tail hclose
    exact absurd (Or.inr ⟨tail, hclose⟩) hstart
  · rw [item_congr (dropBlanks_dropBlanks cs), h]

theorem firstMember_of_quoted {cs tail : List Char} {k : String}
    (hk : dropBlanks cs = quoted k ++ tail) : firstMember (fuel + 1) cs = member fuel cs := by
  obtain ⟨body, hquoted, _⟩ := stringAfterQuote_tail k tail
  rw [← member_congr (dropBlanks_dropBlanks cs), firstMember, hk, hquoted]
  rfl

theorem value_list {body after : List Char} {vs : List Draft}
    (h : firstItem fuel body = (vs, none, after)) :
    value (fuel + 1) ('[' :: body) = (.list vs none false, after) := by
  rw [value]
  simp [dropBlanks, isBlank, h]

theorem value_object {body after : List Char} {ms : List (Key × Draft)}
    (h : firstMember fuel body = (ms, none, after)) :
    value (fuel + 1) ('{' :: body) = (.object ms none true, after) := by
  rw [value]
  simp [dropBlanks, isBlank, h]

theorem delimited_comma (cs : List Char) : Delimited (',' :: cs) := by
  intro c hc
  injection hc with hc
  rw [← hc]
  decide

theorem delimited_lineBreak (level : Nat) (cs : List Char) : Delimited (lineBreak level ++ cs) := by
  intro c hc
  injection hc with hc
  rw [← hc]
  decide

end Values

/-! ## Whole values -/

theorem dropBlanks_close (outer : Nat) {c : Char} (hc : isBlank c = false) (after : List Char) :
    dropBlanks (lineBreak outer ++ c :: after) = c :: after := by
  rw [dropBlanks_lineBreak, dropBlanks_of_head hc]

/-- The items of a list, its end, and what follows it. -/
def itemsText (level outer : Nat) (after : List Char) (items : List Json) : List Char :=
  separated [','] (indentedItems level items) ++ (lineBreak outer ++ ']' :: after)

/-- The members of an object, its end, and what follows it. -/
def membersText (level outer : Nat) (after : List Char) (members : List (String × Json)) :
    List Char :=
  separated [','] (indentedMembers level members) ++ (lineBreak outer ++ '}' :: after)

section Texts

variable (level outer : Nat) (after : List Char)

theorem indented_list (v : Json) (items : List Json) :
    indented level (.list (v :: items)) ++ after
      = '[' :: itemsText (level + 1) level after (v :: items) := by
  simp [indented, itemsText]

theorem indented_object (m : String × Json) (members : List (String × Json)) :
    indented level (.object (m :: members)) ++ after
      = '{' :: membersText (level + 1) level after (m :: members) := by
  simp [indented, membersText]

theorem itemsText_last (v : Json) : itemsText level outer after [v]
    = lineBreak level ++ (indented level v ++ (lineBreak outer ++ ']' :: after)) := by
  simp [itemsText, separated, indentedItems]

theorem itemsText_next (v w : Json) (items : List Json) :
    itemsText level outer after (v :: w :: items)
      = lineBreak level
        ++ (indented level v ++ ',' :: itemsText level outer after (w :: items)) := by
  simp [itemsText, separated, indentedItems]

theorem membersText_last (k : String) (v : Json) : membersText level outer after [(k, v)]
    = lineBreak level ++ (quoted k
      ++ ':' :: ' ' :: (indented level v ++ (lineBreak outer ++ '}' :: after))) := by
  simp [membersText, separated, indentedMembers]

theorem membersText_next (k : String) (v : Json) (m : String × Json)
    (members : List (String × Json)) : membersText level outer after ((k, v) :: m :: members)
      = lineBreak level ++ (quoted k ++ ':' :: ' '
        :: (indented level v ++ ',' :: membersText level outer after (m :: members))) := by
  simp [membersText, separated, indentedMembers]

end Texts

theorem dropBlanks_quoted (level : Nat) (k : String) (rest : List Char) :
    dropBlanks (lineBreak level ++ (quoted k ++ rest)) = quoted k ++ rest := by
  obtain ⟨body, hquoted, _⟩ := stringAfterQuote_tail k rest
  rw [dropBlanks_lineBreak, hquoted, dropBlanks_of_head rfl]

/-- The members of an object start with a name. -/
theorem dropBlanks_membersText (level outer : Nat) (after : List Char) (k : String) (v : Json)
    (members : List (String × Json)) : ∃ tail,
      dropBlanks (membersText level outer after ((k, v) :: members)) = quoted k ++ tail := by
  cases members with
  | nil => exact ⟨_, by rw [membersText_last, dropBlanks_quoted]⟩
  | cons m members => exact ⟨_, by rw [membersText_next, dropBlanks_quoted]⟩

theorem value_blank (fuel : Nat) (cs : List Char) : value fuel (' ' :: cs) = value fuel cs :=
  value_congr (List.dropWhile_cons_of_pos rfl) fuel

mutual

/-- The text of a value is read as its draft. A list or an object takes three steps before
its first element is read, and has a bracket to show for it. -/
theorem value_indented {P : Binary64 → Prop} : ∀ (v : Json) {fuel level levels : Nat}
    {rest : List Char}, v.Fits P levels → Delimited rest →
    3 * (indented level v ++ rest).length < fuel →
    value fuel (indented level v ++ rest) = (v.draft medium, rest)
  | _, 0, _, _, _, _, _, hfuel => absurd hfuel (Nat.not_lt_zero _)
  | .null, _ + 1, _, _, _, _, _, _ => rfl
  | .bool b, _ + 1, _, _, _, _, _, _ => by cases b <;> rfl
  | .nat n, _ + 1, _, _, _, hfits, hrest, _ => value_nat hfits hrest
  | .real x, _ + 1, _, _, _, _, hrest, _ => value_real x hrest
  | .text s, _ + 1, _, _, _, _, _, _ => value_quoted s
  | .list [], fuel + 1, level, _, rest, _, _, hfuel => by
      simp only [indented, List.cons_append, List.length_cons] at hfuel
      obtain ⟨fuel, rfl⟩ : ∃ n, fuel = n + 1 := ⟨fuel - 1, by omega⟩
      rfl
  | .list (v :: items), fuel + 1, level, levels, rest, hfits, _, hfuel => by
      -- what follows the list does not matter: its end is a bracket
      rw [indented_list, List.length_cons] at hfuel
      obtain ⟨fuel, rfl⟩ : ∃ n, fuel = n + 1 := ⟨fuel - 1, by omega⟩
      have hitems : item fuel (itemsText (level + 1) level rest (v :: items))
          = (draftItems medium (v :: items), none, rest) :=
        item_indented (v :: items) (by simp) hfits.2 (by omega)
      rw [indented_list, value_list (firstItem_of_item hitems (draft_ne_broken v))]
      rfl
  | .object [], fuel + 1, level, _, rest, _, _, hfuel => by
      simp only [indented, List.cons_append, List.length_cons] at hfuel
      obtain ⟨fuel, rfl⟩ : ∃ n, fuel = n + 1 := ⟨fuel - 1, by omega⟩
      rfl
  | .object ((k, v) :: members), fuel + 1, level, levels, rest, hfits, _, hfuel => by
      rw [indented_object, List.length_cons] at hfuel
      obtain ⟨fuel, rfl⟩ : ∃ n, fuel = n + 1 := ⟨fuel - 1, by omega⟩
      have hmembers : member fuel (membersText (level + 1) level rest ((k, v) :: members))
          = (draftMembers medium ((k, v) :: members), none, rest) :=
        member_indented ((k, v) :: members) (by simp) hfits.2 (by omega)
      obtain ⟨tail, htail⟩ := dropBlanks_membersText (level + 1) level rest k v members
      rw [indented_object, value_object ((firstMember_of_quoted htail).trans hmembers)]
      rfl

theorem item_indented {P : Binary64 → Prop} : ∀ (items : List Json) {fuel level levels outer : Nat}
    {after : List Char}, items ≠ [] → FitsItems P levels items →
    3 * (itemsText level outer after items).length + 1 < fuel →
    item fuel (itemsText level outer after items) = (draftItems medium items, none, after)
  | _, 0, _, _, _, _, _, _, hfuel => absurd hfuel (Nat.not_lt_zero _)
  | [], _ + 1, _, _, _, _, hne, _, _ => absurd rfl hne
  | [v], fuel + 1, level, levels, outer, after, _, hfits, hfuel => by
      rw [itemsText_last, List.length_append] at hfuel
      have hv : value fuel (lineBreak level
          ++ (indented level v ++ (lineBreak outer ++ ']' :: after)))
            = (v.draft medium, lineBreak outer ++ ']' :: after) := by
        rw [value_lineBreak]
        exact value_indented v hfits.1 (delimited_lineBreak _ _) (by omega)
      rw [itemsText_last]
      exact item_last hv (draft_ne_broken v) (dropBlanks_close outer rfl after)
  | v :: w :: items, fuel + 1, level, levels, outer, after, _, hfits, hfuel => by
      rw [itemsText_next, List.length_append] at hfuel
      have hv : value fuel (lineBreak level
          ++ (indented level v ++ ',' :: itemsText level outer after (w :: items)))
            = (v.draft medium, ',' :: itemsText level outer after (w :: items)) := by
        rw [value_lineBreak]
        exact value_indented v hfits.1 (delimited_comma _) (by omega)
      rw [List.length_append, List.length_cons] at hfuel
      have hmore : item fuel (itemsText level outer after (w :: items))
          = (draftItems medium (w :: items), none, after) :=
        item_indented (w :: items) (by simp) hfits.2 (by omega)
      rw [itemsText_next]
      exact item_next hv (draft_ne_broken v) (dropBlanks_of_head rfl) hmore

theorem member_indented {P : Binary64 → Prop} : ∀ (members : List (String × Json))
    {fuel level levels outer : Nat} {after : List Char}, members ≠ [] →
    FitsMembers P levels members →
    3 * (membersText level outer after members).length + 1 < fuel →
    member fuel (membersText level outer after members)
      = (draftMembers medium members, none, after)
  | _, 0, _, _, _, _, _, _, hfuel => absurd hfuel (Nat.not_lt_zero _)
  | [], _ + 1, _, _, _, _, hne, _, _ => absurd rfl hne
  | [(k, v)], fuel + 1, level, levels, outer, after, _, hfits, hfuel => by
      rw [membersText_last, List.length_append, List.length_append, List.length_cons,
        List.length_cons] at hfuel
      have hv : value fuel (' ' :: (indented level v ++ (lineBreak outer ++ '}' :: after)))
          = (v.draft medium, lineBreak outer ++ '}' :: after) := by
        rw [value_blank]
        exact value_indented v hfits.1 (delimited_lineBreak _ _) (by omega)
      rw [membersText_last]
      exact member_last (dropBlanks_quoted level k _) hv (draft_ne_broken v)
        (dropBlanks_close outer rfl after)
  | (k, v) :: m :: members, fuel + 1, level, levels, outer, after, _, hfits, hfuel => by
      rw [membersText_next, List.length_append, List.length_append, List.length_cons,
        List.length_cons] at hfuel
      have hv : value fuel
          (' ' :: (indented level v ++ ',' :: membersText level outer after (m :: members)))
            = (v.draft medium, ',' :: membersText level outer after (m :: members)) := by
        rw [value_blank]
        exact value_indented v hfits.1 (delimited_comma _) (by omega)
      rw [List.length_append, List.length_cons] at hfuel
      have hmore : member fuel (membersText level outer after (m :: members))
          = (draftMembers medium (m :: members), none, after) :=
        member_indented (m :: members) (by simp) hfits.2 (by omega)
      rw [membersText_next]
      exact member_next (dropBlanks_quoted level k _) hv (draft_ne_broken v)
        (dropBlanks_of_head rfl) hmore

end

/-- A whole text holds the value it was written from, and nothing else. -/
theorem ofText_toPretty {P : Binary64 → Prop} {v : Json} {levels : Nat} (h : v.Fits P levels) :
    ofText v.toPretty = (v.draft medium, true) := by
  have hvalue : value (3 * (indented 0 v).length + 3) (indented 0 v ++ [])
      = (v.draft medium, []) := value_indented v h delimited_nil (by rw [List.append_nil]; omega)
  rw [List.append_nil] at hvalue
  rw [ofText, toPretty, String.toList_ofList, hvalue]
  rfl

end Draft

end RuleWiring
