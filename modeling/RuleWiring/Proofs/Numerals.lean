import Mathlib
import RuleWiring.Json.Basic
import RuleWiring.Json.Reader

/-!
# Numerals read back

A `Spelling` is a numeral without its sign, in parts: the whole part, the places behind the
point and the exponent. A proper one is found by the reader part for part, in front of
anything that does not go on like a numeral, and all numerals that are ever written are
proper: decimal digits, and the shortest decimal of a finite double.
-/

namespace RuleWiring

/-! ## Digits -/

/-- Some characters, all of them digits. -/
structure Digits (ds : List Char) : Prop where
  nonempty : ds ≠ []
  all : ∀ c ∈ ds, c.isDigit

/-- Nothing that could belong to a numeral in front. -/
def Delimited (rest : List Char) : Prop :=
  ∀ c, rest.head? = some c → c.isDigit = false ∧ c ≠ '.' ∧ c ≠ 'e' ∧ c ≠ 'E'

theorem Digits.take {ds : List Char} (h : Digits ds) {n : Nat} (hn : 0 < n) :
    Digits (ds.take n) where
  nonempty he := by
    rcases List.take_eq_nil_iff.mp he with he | he
    · omega
    · exact h.nonempty he
  all c hc := h.all c (List.mem_of_mem_take hc)

theorem Digits.drop {ds : List Char} (h : Digits ds) {n : Nat} (hn : n < ds.length) :
    Digits (ds.drop n) where
  nonempty he := by
    have := List.drop_eq_nil_iff.mp he
    omega
  all c hc := h.all c (List.mem_of_mem_drop hc)

theorem digits_zero : Digits ['0'] :=
  ⟨by simp, fun c hc => by rw [List.mem_singleton.mp hc]; rfl⟩

theorem delimited_nil : Delimited [] := by
  intro c hc
  exact absurd hc (by simp)

theorem Numeral.spanDigits_append {ds rest : List Char} (hds : ∀ c ∈ ds, c.isDigit)
    (hrest : ∀ c, rest.head? = some c → c.isDigit = false) :
    spanDigits (ds ++ rest) = (ds, rest) := by
  have hstop : rest.takeWhile Char.isDigit = [] ∧ rest.dropWhile Char.isDigit = rest := by
    cases rest with
    | nil => exact ⟨rfl, rfl⟩
    | cons c rest =>
        have hc := hrest c rfl
        exact ⟨List.takeWhile_cons_of_neg (by simp [hc]), List.dropWhile_cons_of_neg (by simp [hc])⟩
  rw [spanDigits, List.takeWhile_append_of_pos hds, List.dropWhile_append_of_pos hds, hstop.1,
    hstop.2, List.append_nil]

namespace Nat10

theorem digits_digits (n : Nat) : Digits (digits n) :=
  ⟨Nat.toDigits_ne_nil, fun _ hc => Nat.isDigit_of_mem_toDigits (by decide) (by decide) hc⟩

theorem ofDigits_digits (n : Nat) : Numeral.ofDigits 0 (digits n) = n := by
  have h : Nat.ofDigitChars 10 (digits n) 0 = n := Nat.ofDigitChars_toDigits (by decide) (by decide)
  rwa [Nat.ofDigitChars_eq_foldl] at h

/-- Only zero is written with a zero in front. -/
theorem head?_digits (n : Nat) (h : (digits n).head? = some '0') : n = 0 := by
  induction n using Nat.strongRecOn with
  | _ n ih =>
      rcases Nat.lt_or_ge n 10 with hn | hn
      · rw [digits, Nat.toDigits_of_lt_base hn, List.head?_cons] at h
        exact Nat.digitChar_eq_zero.mp (Option.some.inj h)
      · rw [digits, Nat.toDigits_of_base_le (by decide) hn,
          List.head?_append_of_ne_nil _ Nat.toDigits_ne_nil] at h
        have := ih (n / 10) (by omega) h
        omega

end Nat10

/-! ## Numerals in parts -/

/-- A numeral without its sign. -/
structure Spelling where
  whole : List Char
  places : Option (List Char) := none
  /-- Whether it is negative, and its digits. -/
  exponent : Option (Bool × List Char) := none

namespace Spelling

def text (s : Spelling) : List Char :=
  s.whole ++ s.places.elim [] ('.' :: ·)
    ++ s.exponent.elim [] fun e => 'e' :: (if e.1 then '-' else '+') :: e.2

/-- Digits in every part, and none in vain in front. -/
structure Proper (s : Spelling) : Prop where
  whole : Digits s.whole
  leading : s.whole.head? = some '0' → s.whole.length = 1
  places : ∀ ds, s.places = some ds → Digits ds
  exponent : ∀ e, s.exponent = some e → Digits e.2

end Spelling

namespace Draft

theorem exponentPart_none {rest : List Char} (hrest : Delimited rest) :
    exponentPart rest = .found none rest := by
  cases rest with
  | nil => rfl
  | cons c rest =>
      obtain ⟨_, _, he, hE⟩ := hrest c rfl
      unfold exponentPart
      dsimp only
      rw [if_neg (by simp [he, hE])]

theorem exponentPart_some {negative : Bool} {ds rest : List Char} (hds : Digits ds)
    (hrest : Delimited rest) :
    exponentPart ('e' :: (if negative then '-' else '+') :: ds ++ rest)
      = .found (some (negative, ds)) rest := by
  have hspan := Numeral.spanDigits_append hds.all fun c hc => (hrest c hc).1
  have hempty : ds.isEmpty = false := by simpa using hds.nonempty
  cases negative with
  | true => simp [exponentPart, hspan, hempty]
  | false => simp [exponentPart, hspan, hempty]

section Parts

variable {exponent : Option (Bool × List Char)} {rest : List Char}

/-- The end of a numeral: its exponent, and what is no longer part of it. -/
def ending (exponent : Option (Bool × List Char)) (rest : List Char) : List Char :=
  (exponent.elim [] fun e => 'e' :: (if e.1 then '-' else '+') :: e.2) ++ rest

theorem exponentPart_ending (hexponent : ∀ e, exponent = some e → Digits e.2)
    (hrest : Delimited rest) : exponentPart (ending exponent rest) = .found exponent rest := by
  cases exponent with
  | none => exact exponentPart_none hrest
  | some e => exact exponentPart_some (hexponent e rfl) hrest

/-- An ending goes on with neither a digit nor a point. -/
theorem head?_ending (hrest : Delimited rest) {c : Char}
    (hc : (ending exponent rest).head? = some c) : c.isDigit = false ∧ c ≠ '.' := by
  cases exponent with
  | none => exact ⟨(hrest c hc).1, (hrest c hc).2.1⟩
  | some e =>
      injection hc with hc
      subst hc
      exact ⟨rfl, by decide⟩

end Parts

/-- A proper numeral is found part for part. -/
theorem numeral_text {s : Spelling} (hs : s.Proper) {rest : List Char} (hrest : Delimited rest)
    (negative : Bool) :
    numeral negative (s.text ++ rest)
      = .found (amount negative s.whole s.places s.exponent) rest := by
  obtain ⟨whole, places, exponent⟩ := s
  have hempty : whole.isEmpty = false := by simpa using hs.whole.nonempty
  have hleading : ¬ (whole.head? = some '0' ∧ 1 < whole.length) := fun h => by
    have := hs.leading h.1
    exact absurd h.2 (by simp [this])
  have hexponent := exponentPart_ending hs.exponent hrest
  cases places with
  | none =>
      have htext : Spelling.text ⟨whole, none, exponent⟩ ++ rest
          = whole ++ ending exponent rest := by
        simp [Spelling.text, ending]
      have hspan := Numeral.spanDigits_append hs.whole.all
        fun c (hc : (ending exponent rest).head? = some c) => (head?_ending hrest hc).1
      -- a point behind the whole part would be taken for the start of places
      have hplaces : ∀ r, ending exponent rest ≠ '.' :: r := fun r hr => by
        have hhead : (ending exponent rest).head? = some '.' := by rw [hr]; rfl
        exact (head?_ending hrest hhead).2 rfl
      rw [htext, numeral, hspan]
      simp only [hempty, hleading, hexponent, Bool.false_eq_true, if_false]
  | some ds =>
      have hds := hs.places ds rfl
      have hdsempty : ds.isEmpty = false := by simpa using hds.nonempty
      have htext : Spelling.text ⟨whole, some ds, exponent⟩ ++ rest
          = whole ++ '.' :: (ds ++ ending exponent rest) := by
        simp [Spelling.text, ending]
      have hspan := Numeral.spanDigits_append hs.whole.all
        fun c (hc : ('.' :: (ds ++ ending exponent rest)).head? = some c) => by
          injection hc with hc
          rw [← hc]
          rfl
      have hplaces := Numeral.spanDigits_append hds.all
        fun c (hc : (ending exponent rest).head? = some c) => (head?_ending hrest hc).1
      rw [htext, numeral, hspan]
      simp only [hempty, hleading, hplaces, hdsempty, hexponent, Bool.false_eq_true, if_false]

/-! ## Whole numbers -/

theorem le_ofDigits : ∀ (ds : List Char) (start : Nat), start ≤ Numeral.ofDigits start ds
  | [], _ => le_refl _
  | c :: ds, start => by
      have ih := le_ofDigits ds (10 * start + Numeral.digitValue c)
      exact le_trans (by omega) ih

/-- Digits that spell a number below `2^64` are all kept. -/
theorem significand_eq : ∀ {ds : List Char} {start : Nat},
    Numeral.ofDigits start ds < 2 ^ 64 → significand start ds = (Numeral.ofDigits start ds, [])
  | [], _, _ => rfl
  | c :: ds, start, h => by
      have hnext : 10 * start + Numeral.digitValue c < 2 ^ 64 := (le_ofDigits ds _).trans_lt h
      rw [significand, Nat.pow_eq, if_pos hnext]
      exact significand_eq h

theorem amount_digits {n : Nat} (hn : n < 2 ^ 64) :
    amount false (Nat10.digits n) none none = .nat n := by
  have hdigits := Nat10.ofDigits_digits n
  have hkept := significand_eq (by rwa [hdigits] : Numeral.ofDigits 0 (Nat10.digits n) < 2 ^ 64)
  rw [amount, hkept, hdigits]
  rfl

end Draft

namespace Nat10

/-- The spelling of a whole number. -/
theorem proper_digits (n : Nat) : Spelling.Proper ⟨digits n, none, none⟩ where
  whole := digits_digits n
  leading h := by
    rw [head?_digits n h]
    rfl
  places _ h := absurd h (by simp)
  exponent _ h := absurd h (by simp)

/-! ## Decimals -/

theorem digits_padded (width n : Nat) : Digits (padded width n) where
  nonempty h := (digits_digits n).nonempty (List.append_eq_nil_iff.mp h).2
  all c hc := by
    rcases List.mem_append.mp hc with hc | hc
    · rw [List.eq_of_mem_replicate hc]
      rfl
    · exact (digits_digits n).all c hc

theorem length_padded (width n : Nat) :
    (padded width n).length = max width (digits n).length := by
  rw [padded, List.length_append, List.length_replicate]
  omega

end Nat10

namespace Decimal

/-- Cut before the places, the whole part is a single zero or starts with the first digit. -/
theorem proper_cut {n k : Nat} {ds : List Char} (hn : n ≠ 0) (hk : 0 < k)
    (hds : ds = Nat10.padded (k + 1) n) :
    Spelling.Proper ⟨ds.take (ds.length - k), some (ds.drop (ds.length - k)), none⟩ := by
  have hdigits : Digits ds := hds ▸ Nat10.digits_padded (k + 1) n
  have hlength : ds.length = max (k + 1) (Nat10.digits n).length := by
    rw [hds, Nat10.length_padded]
  refine ⟨hdigits.take (by omega), fun hzero => ?_, fun ps hps => ?_, fun e he => ?_⟩
  · -- a zero in front is a padding one, and there is room for only one of those
    have hshort : (Nat10.digits n).length < k + 1 := by
      by_contra hlong
      have hplain : ds = Nat10.digits n := by
        rw [hds, Nat10.padded, Nat.sub_eq_zero_of_le (by omega)]
        rfl
      rw [List.head?_take, if_neg (by omega), hplain] at hzero
      exact hn (Nat10.head?_digits n hzero)
    rw [List.length_take]
    omega
  · injection hps with hps
    rw [← hps]
    exact hdigits.drop (by omega)
  · exact absurd he (by simp)

/-- A decimal without places, shown with a place all the same. -/
theorem proper_whole {n : Nat} (hn : n ≠ 0) (zeros : Nat) :
    Spelling.Proper ⟨Nat10.digits n ++ List.replicate zeros '0', some ['0'], none⟩ := by
  have hdigits := Nat10.digits_digits n
  refine ⟨⟨?_, fun c hc => ?_⟩, fun hzero => ?_, fun ps hps => ?_, fun e he => ?_⟩
  · exact fun he => hdigits.nonempty (List.append_eq_nil_iff.mp he).1
  · rcases List.mem_append.mp hc with hc | hc
    · exact hdigits.all c hc
    · rw [List.eq_of_mem_replicate hc]
      rfl
  · rw [List.head?_append_of_ne_nil _ hdigits.nonempty] at hzero
    exact absurd (Nat10.head?_digits n hzero) hn
  · injection hps with hps
    rw [← hps]
    exact digits_zero
  · exact absurd he (by simp)

theorem proper_exponent {c : Char} {places : Option (List Char)} (hc : Digits [c])
    (hplaces : ∀ ps, places = some ps → Digits ps) (negative : Bool) (n : Nat) :
    Spelling.Proper ⟨[c], places, some (negative, Nat10.digits n)⟩ where
  whole := hc
  leading _ := rfl
  places := hplaces
  exponent e he := by
    injection he with he
    rw [← he]
    exact Nat10.digits_digits n

/-- One digit, the others as places, and an exponent. -/
theorem exists_spelling_exponent (d : Decimal) :
    ∃ s : Spelling, s.Proper ∧ s.text = d.withExponent := by
  have hdigits := Nat10.digits_digits d.digits
  rw [withExponent]
  cases hds : Nat10.digits d.digits with
  | nil => exact absurd hds hdigits.nonempty
  | cons c cs =>
      rw [hds] at hdigits
      have hc : Digits [c] := hdigits.take (n := 1) (by decide)
      cases cs with
      | nil =>
          have hnone : ∀ ps, (none : Option (List Char)) = some ps → Digits ps :=
            fun _ h => absurd h (by simp)
          refine ⟨_, proper_exponent hc hnone (decide (d.leadingExponent < 0))
            d.leadingExponent.natAbs, ?_⟩
          simp [Spelling.text]
      | cons c' cs =>
          have hcs : Digits (c' :: cs) := hdigits.drop (n := 1) (by simp)
          refine ⟨_, proper_exponent hc (fun ps hps => Option.some.inj hps ▸ hcs)
            (decide (d.leadingExponent < 0)) d.leadingExponent.natAbs, ?_⟩
          simp [Spelling.text]

/-- The text of a decimal is a proper numeral. -/
theorem exists_spelling (d : Decimal) : ∃ s : Spelling, s.Proper ∧ s.text = d.scientific := by
  rw [scientific]
  split
  · refine ⟨⟨['0'], some ['0'], none⟩, ⟨digits_zero, fun _ => rfl, ?_, ?_⟩, rfl⟩
    · intro ps hps
      injection hps with hps
      rw [← hps]
      exact digits_zero
    · exact fun _ h => absurd h (by simp)
  · rename_i hd
    dsimp only
    split
    · split
      · rename_i he
        refine ⟨_, proper_whole hd d.exponent.toNat, ?_⟩
        rw [positional, if_pos he, if_neg hd]
        simp [Spelling.text]
      · rename_i he
        refine ⟨_, proper_cut hd (by omega : 0 < (-d.exponent).toNat) rfl, ?_⟩
        rw [positional, if_neg he]
        simp [Spelling.text]
    · exact exists_spelling_exponent d

end Decimal

end RuleWiring
