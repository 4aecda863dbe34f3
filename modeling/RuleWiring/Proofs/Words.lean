import Mathlib
import RuleWiring.Pattern.Library
import RuleWiring.Proofs.Changes
import RuleWiring.Proofs.Drafts

/-!
# Words and values in texts

The functions that cut a text are each described by what they find in it: a word and the
trimmed rest, a key before a colon, a keyword behind colons, eight binary digits. From this
follows which values a directive accepts, whatever the pattern is that it speaks of.
-/

namespace RuleWiring

/-! ## Cutting -/

namespace Text

/-- A list with a first element that fails a test is cut there. -/
theorem cut_append {p : Char → Bool} {front : List Char} (c : Char) (back : List Char)
    (hfront : ∀ x ∈ front, p x = true) (hc : p c = false) :
    (front ++ c :: back).takeWhile p = front ∧ (front ++ c :: back).dropWhile p = c :: back := by
  have hstop : ¬p c = true := by rw [hc]; decide
  rw [List.takeWhile_append_of_pos hfront, List.dropWhile_append_of_pos hfront,
    List.takeWhile_cons_of_neg hstop, List.dropWhile_cons_of_neg hstop, List.append_nil]
  exact ⟨rfl, rfl⟩

theorem toList_joined (front : String) (c : Char) (back : String) :
    (front ++ String.singleton c ++ back).toList = front.toList ++ c :: back.toList := by
  rw [String.toList_append, String.toList_append, String.toList_singleton, List.append_assoc]
  rfl

/-- Trimming twice is trimming once: what is left begins and ends with no blank. -/
theorem trimChars_trimChars (cs : List Char) : trimChars (trimChars cs) = trimChars cs := by
  have hstrip : ∀ cs, trimChars cs = (cs.dropWhile isBlank).rdropWhile isBlank := fun _ => rfl
  have hfront : (trimChars cs).dropWhile isBlank = trimChars cs := by
    rw [List.dropWhile_eq_self_iff]
    intro hlength
    -- a beginning that is left is the one that was left when the front was trimmed
    have hprefix : trimChars cs <+: cs.dropWhile isBlank := List.rdropWhile_prefix ..
    have hnonblank := List.dropWhile_get_zero_not isBlank cs
      (Nat.lt_of_lt_of_le hlength hprefix.length_le)
    rwa [List.get_eq_getElem, ← hprefix.getElem hlength] at hnonblank
  rw [hstrip (trimChars cs), hfront, hstrip, List.rdropWhile_idempotent]

theorem trim_trim (s : String) : trim (trim s) = trim s := by
  rw [trim, trim, String.toList_ofList, trimChars_trimChars]

/-- A text is a word without blanks, alone or with a blank and more text behind it, of which
the trimmed rest is what is left. -/
def SplitsInto (s word rest : String) : Prop :=
  (∀ c ∈ word.toList, isBlank c = false) ∧
    (s = word ∧ rest = "" ∨
      ∃ (blank : Char) (tail : String), isBlank blank = true
        ∧ s = word ++ String.singleton blank ++ tail ∧ rest = trim tail)

theorem splitWord_of_splitsInto {s word rest : String} (h : SplitsInto s word rest) :
    splitWord s = (word, rest) := by
  obtain ⟨hword, hs⟩ := h
  have hpos : ∀ c ∈ word.toList, (!isBlank c) = true := fun c hc => by rw [hword c hc]; rfl
  rcases hs with ⟨rfl, rfl⟩ | ⟨blank, tail, hblank, rfl, rfl⟩
  · rw [splitWord, List.takeWhile_eq_self_iff.mpr hpos, List.dropWhile_eq_nil_iff.mpr hpos,
      String.ofList_toList]
    rfl
  · obtain ⟨htake, hdrop⟩ := cut_append blank tail.toList hpos (by rw [hblank]; rfl)
    rw [splitWord, toList_joined, htake, hdrop, String.ofList_toList]
    rfl

theorem splitsInto_splitWord (s : String) :
    SplitsInto s (splitWord s).1 (splitWord s).2 := by
  have hs := List.takeWhile_append_dropWhile (p := fun c => !isBlank c) (l := s.toList)
  refine ⟨fun c hc => ?_, ?_⟩
  · rw [splitWord, String.toList_ofList] at hc
    simpa using List.mem_takeWhile_imp hc
  · cases hrest : s.toList.dropWhile fun c => !isBlank c with
    | nil =>
        rw [hrest, List.append_nil] at hs
        refine Or.inl ⟨?_, ?_⟩
        · rw [splitWord, hs, String.ofList_toList]
        · rw [splitWord, hrest]
          rfl
    | cons blank tail =>
        have hblank := List.head?_dropWhile_not (fun c => !isBlank c) s.toList
        rw [hrest] at hs hblank
        refine Or.inr ⟨blank, String.ofList tail, by simpa using hblank, ?_, ?_⟩
        · rw [← String.toList_inj, toList_joined, splitWord, String.toList_ofList,
            String.toList_ofList]
          exact hs.symm
        · rw [splitWord, hrest, trim, String.toList_ofList]
          rfl

/-- **The first word and the trimmed rest** are the only ones. -/
theorem splitWord_eq_iff {s word rest : String} :
    splitWord s = (word, rest) ↔ SplitsInto s word rest := by
  constructor
  · intro h
    have hsplits := splitsInto_splitWord s
    rwa [h] at hsplits
  · exact splitWord_of_splitsInto

theorem SplitsInto.trim_rest {s word rest : String} (h : SplitsInto s word rest) :
    trim rest = rest := by
  rcases h.2 with ⟨_, rfl⟩ | ⟨_, tail, _, _, rfl⟩
  · rfl
  · exact trim_trim tail

/-- **The cut at a character** is at the first one. -/
theorem splitAt?_eq_some_iff {separator : Char} {s key body : String} :
    splitAt? separator s = some (key, body) ↔
      s = key ++ String.singleton separator ++ body ∧ separator ∉ key.toList := by
  constructor
  · intro h
    have hs := List.takeWhile_append_dropWhile (p := (· ≠ separator)) (l := s.toList)
    simp only [splitAt?] at h
    split at h
    · exact absurd h (by simp)
    · rename_i c rest hrest
      have hc := List.head?_dropWhile_not (· ≠ separator) s.toList
      rw [hrest] at hs hc
      injection h with h
      injection h with hkey hbody
      subst hkey
      subst hbody
      have hsep : c = separator := by simpa using hc
      subst hsep
      refine ⟨?_, fun hmem => ?_⟩
      · rw [← String.toList_inj, toList_joined, String.toList_ofList, String.toList_ofList]
        exact hs.symm
      · rw [String.toList_ofList] at hmem
        exact absurd (List.mem_takeWhile_imp hmem) (by simp)
  · rintro ⟨rfl, hkey⟩
    have hpos : ∀ c ∈ key.toList, decide (c ≠ separator) = true := by
      intro c hc
      rw [decide_eq_true_iff]
      rintro rfl
      exact hkey hc
    obtain ⟨htake, hdrop⟩ := cut_append separator body.toList hpos (by simp)
    rw [splitAt?, toList_joined, htake, hdrop, String.ofList_toList]
    dsimp only
    rw [String.ofList_toList]

end Text

/-! ## Codes and tags -/

/-- A text of eight binary digits. -/
def Exocode.Spelled (s : String) : Prop :=
  s.toList.length = 8 ∧ ∀ c ∈ s.toList, c = '0' ∨ c = '1'

/-- Of the trimmed texts, just those of eight binary digits are codes. -/
theorem Exocode.parse_ok_iff {s : String} (hs : Text.trim s = s) :
    (∃ c, parse s = .ok c) ↔ Spelled s := by
  have hall : s.toList.all (fun c => c = '0' || c = '1') = true
      ↔ ∀ c ∈ s.toList, c = '0' ∨ c = '1' := by
    simp only [List.all_eq_true, Bool.or_eq_true, decide_eq_true_iff]
  rw [Spelled, ← hall, parse, hs]
  split
  · rename_i h
    exact iff_of_true ⟨_, rfl⟩ h
  · rename_i h
    refine iff_of_false ?_ h
    rintro ⟨c, hc⟩
    exact absurd hc (by simp)

/-- The name of a preservation tag, with colons in front of it or without. -/
def Preservation.Spelled (s : String) : Prop :=
  ∃ (n : Nat) (tag : String), tag ∈ ["full", "partial", "none"]
    ∧ s.toList = List.replicate n ':' ++ tag.toList

theorem Preservation.ofName?_eq_none_iff {s : String} :
    ofName? s = Option.none ↔ s ∉ ["full", "partial", "none"] := by
  simp only [ofName?, all, List.find?_eq_none, List.mem_cons, List.not_mem_nil, or_false,
    forall_eq_or_imp, forall_eq, name, decide_eq_true_iff, not_or, @eq_comm _ _ s]

/-- Dropping the colons leaves a name that does not begin with one just if it stands behind
colons. -/
theorem Text.dropColons_eq_iff {s name : String} (hname : name.toList.head? ≠ some ':') :
    dropColons s = name ↔ ∃ n, s.toList = List.replicate n ':' ++ name.toList := by
  have hs := List.takeWhile_append_dropWhile (p := (· = ':')) (l := s.toList)
  rw [dropColons, ← String.toList_inj, String.toList_ofList]
  constructor
  · intro h
    refine ⟨(s.toList.takeWhile (· = ':')).length, ?_⟩
    rw [h] at hs
    rw [← hs]
    congr 1
    rw [hs]
    exact List.eq_replicate_of_mem fun c hc => by simpa using List.mem_takeWhile_imp hc
  · rintro ⟨n, hn⟩
    have hcolons : ∀ c ∈ List.replicate n ':', decide (c = ':') = true := by
      intro c hc
      rw [List.eq_of_mem_replicate hc]
      rfl
    rw [hn, List.dropWhile_append_of_pos hcolons]
    cases hlist : name.toList with
    | nil => rfl
    | cons c cs =>
        rw [hlist, List.head?_cons] at hname
        exact List.dropWhile_cons_of_neg (by simpa using hname)

theorem Preservation.parse_ok_iff {s : String} (hs : Text.trim s = s) :
    (∃ p, parse s = .ok p) ↔ Spelled s := by
  have hparse : (∃ p, parse s = .ok p) ↔ Text.dropColons s ∈ ["full", "partial", "none"] := by
    rw [← not_iff_not, ← ofName?_eq_none_iff, parse, Text.keyword, hs]
    cases ofName? (Text.dropColons s) with
    | none => simp
    | some p => simp
  have htags : ∀ tag ∈ ["full", "partial", "none"], tag.toList.head? ≠ some ':' := by decide
  rw [hparse]
  constructor
  · intro htag
    obtain ⟨n, hn⟩ := (Text.dropColons_eq_iff (htags _ htag)).mp rfl
    exact ⟨n, _, htag, hn⟩
  · rintro ⟨n, tag, htag, hn⟩
    rwa [(Text.dropColons_eq_iff (htags tag htag)).mpr ⟨n, hn⟩]

/-! ## Parameters -/

namespace ParameterOverrides

/-- A key and a value that set a field, whatever has been set before. -/
def Accepts (key value : String) : Prop := ∀ o : ParameterOverrides, ∃ o', o.set key value = .ok o'

theorem accepts_of_set {o o' : ParameterOverrides} {key value : String}
    (h : o.set key value = .ok o') : Accepts key value := by
  obtain ⟨c, _, _, hset⟩ := change_of_set h
  exact fun q => ⟨c.apply q, hset q⟩

end ParameterOverrides

/-! ## Directives -/

namespace Library

/-- The values that a directive may have. A name that is not known allows all. -/
structure Admits (name value : String) : Prop where
  bits : name = "bits" → Exocode.Spelled value
  preservation : name = "preservation" → Preservation.Spelled value
  param : name = "param" → ∀ key v, Text.SplitsInto value key v → ParameterOverrides.Accepts key v

theorem admits_bits {value : String} : Admits "bits" value ↔ Exocode.Spelled value :=
  ⟨fun h => h.bits rfl, fun h => ⟨fun _ => h, by simp, by simp⟩⟩

theorem admits_preservation {value : String} :
    Admits "preservation" value ↔ Preservation.Spelled value :=
  ⟨fun h => h.preservation rfl, fun h => ⟨by simp, fun _ => h, by simp⟩⟩

theorem admits_param {value : String} : Admits "param" value ↔
    ParameterOverrides.Accepts (Text.splitWord value).1 (Text.splitWord value).2 := by
  refine ⟨fun h => h.param rfl _ _ (Text.splitsInto_splitWord value), fun h => ?_⟩
  refine ⟨by simp, by simp, fun _ key v hkv => ?_⟩
  rwa [Text.splitWord_of_splitsInto hkv] at h

/-- An outcome of a directive that depends on whether its value is admitted. -/
structure Decides (p : Pattern) (admitted : Prop) (outcome : Except FieldError Pattern) :
    Prop where
  /-- The pattern keeps its id. -/
  ok : ∀ p', outcome = .ok p' → p'.id = p.id ∧ admitted
  error : ∀ e, outcome = .error e → ¬admitted

/-- What is read from a value is put into the pattern, if it can be read. -/
theorem decides_map {α : Type} {p : Pattern} {m : Except FieldError α} {put : α → Pattern}
    {admitted : Prop} (hm : (∃ x, m = .ok x) ↔ admitted) (hid : ∀ x, (put x).id = p.id) :
    Decides p admitted (m.map put) := by
  refine ⟨fun p' h => ?_, fun e h hadmitted => ?_⟩
  · obtain ⟨x, hx, rfl⟩ := map_eq_ok h
    exact ⟨hid x, hm.mp ⟨x, hx⟩⟩
  · obtain ⟨x, hx⟩ := hm.mpr hadmitted
    rw [map_eq_error h] at hx
    exact absurd hx (by simp)

/-- A directive that nothing is read for. -/
theorem decides_ok {p p' : Pattern} {admitted : Prop} (hid : p'.id = p.id) (h : admitted) :
    Decides p admitted (.ok p') := by
  refine ⟨fun q hq => ?_, fun e he => absurd he (by simp)⟩
  injection hq with hq
  exact hq ▸ ⟨hid, h⟩

/-- **A directive is applied just if its value is admitted**, and leaves the id alone. -/
theorem applyDirective_decides (p : Pattern) (name : String) {value : String}
    (hvalue : Text.trim value = value) :
    Decides p (Admits name value) (applyDirective p name value) := by
  unfold applyDirective
  by_cases htitle : name = "title"
  · rw [if_pos htitle, htitle]
    exact decides_ok rfl ⟨by simp, by simp, by simp⟩
  by_cases hbits : name = "bits"
  · rw [if_neg htitle, if_pos hbits, hbits, admits_bits]
    exact decides_map (Exocode.parse_ok_iff hvalue) fun _ => rfl
  by_cases htag : name = "preservation"
  · rw [if_neg htitle, if_neg hbits, if_pos htag, htag, admits_preservation]
    exact decides_map (Preservation.parse_ok_iff hvalue) fun _ => rfl
  by_cases hparam : name = "param"
  · rw [if_neg htitle, if_neg hbits, if_neg htag, if_pos hparam, hparam, admits_param]
    refine decides_map ⟨fun ⟨o, ho⟩ => ?_, fun haccepts => ?_⟩ fun _ => rfl
    · exact ParameterOverrides.accepts_of_set ho
    · exact haccepts (p.inline.getD {})
  · rw [if_neg htitle, if_neg hbits, if_neg htag, if_neg hparam]
    exact decides_ok rfl
      ⟨fun h => absurd h hbits, fun h => absurd h htag, fun h => absurd h hparam⟩

end Library

end RuleWiring
