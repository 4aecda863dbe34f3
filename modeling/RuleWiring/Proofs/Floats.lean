import Mathlib
import RuleWiring.Bytes.Cbor

/-!
# Doubles in narrower formats

A word of a binary format is a number of doublings and a significand, added up with the
doublings shifted left by the bits of the fraction: `doublings * 2 ^ bits + significand`.
The significand of a finite value is below `2 ^ (bits + 1)`, and at least `2 ^ bits` if it
is doubled at all. The lemmas here take words apart and put them together in this form, for
the double as for the narrow formats, and conclude that a double stored in a format that
holds it exactly comes back with its bits.
-/

namespace RuleWiring

/-- How many doublings are left for a number once its significand is cut to `bits + 1` bits. -/
theorem log2_sub_spec (n bits : Nat) :
    n / 2 ^ (n.log2 - bits) < 2 ^ (bits + 1)
      ∧ (n.log2 - bits = 0 ∨ 2 ^ bits ≤ n / 2 ^ (n.log2 - bits)) := by
  have hlt : n < 2 ^ (n.log2 + 1) := Nat.lt_log2_self
  constructor
  · rw [Nat.div_lt_iff_lt_mul (Nat.two_pow_pos _), ← Nat.pow_add]
    exact Nat.lt_of_lt_of_le hlt (Nat.pow_le_pow_right (by decide) (by omega))
  · rcases Nat.eq_zero_or_pos (n.log2 - bits) with h | h
    · exact Or.inl h
    · refine Or.inr ?_
      have hn : n ≠ 0 := by
        rintro rfl
        simp at h
      rw [Nat.le_div_iff_mul_le (Nat.two_pow_pos _), ← Nat.pow_add,
        show bits + (n.log2 - bits) = n.log2 by omega]
      exact Nat.log2_self_le hn

/-- Cutting such a number gives the significand and the doublings back. -/
theorem log2_sub_mul {bits m p : Nat} (hm : m < 2 ^ (bits + 1)) (hp : p = 0 ∨ 2 ^ bits ≤ m) :
    (m * 2 ^ p).log2 - bits = p := by
  rcases hp with rfl | hp
  · have hlog : m.log2 < bits + 1 := by
      rcases Nat.eq_zero_or_pos m with rfl | h
      · simp
      · exact (Nat.log2_lt (by omega)).mpr hm
    rw [Nat.pow_zero, Nat.mul_one]
    omega
  · have hpos : 0 < m := Nat.lt_of_lt_of_le (Nat.two_pow_pos bits) hp
    have hlog : (m * 2 ^ p).log2 = bits + p := by
      rw [Nat.log2_eq_iff (Nat.mul_pos hpos (Nat.two_pow_pos p)).ne']
      constructor
      · rw [Nat.pow_add]
        exact Nat.mul_le_mul_right _ hp
      · rw [show bits + p + 1 = bits + 1 + p by omega, Nat.pow_add]
        exact Nat.mul_lt_mul_of_pos_right hm (Nat.two_pow_pos p)
    omega

theorem roundHalfEven_mul (q : Nat) {d : Nat} (hd : 0 < d) : roundHalfEven (q * d) d = q := by
  have hq : q * d / d = q := Nat.mul_div_cancel q hd
  have hr : q * d % d = 0 := Nat.mul_mod_left q d
  unfold roundHalfEven
  rw [hq, hr]
  simp [hd]

namespace Binary64

theorem word_lt_of_isFinite {x : Binary64} (h : x.isFinite) : x.word < infiniteWord :=
  of_decide_eq_true h

theorem isNaN_of_isFinite {x : Binary64} (h : x.isFinite) : x.isNaN = false :=
  decide_eq_false (Nat.not_lt.mpr (word_lt_of_isFinite h).le)

theorem ofWord_word (x : Binary64) : ofWord x.isNegative x.word = x := by
  obtain ⟨bits⟩ := x
  have hlt : bits.toNat < 2 ^ 64 := bits.toNat_lt
  have hword : (if decide (2 ^ 63 ≤ bits.toNat) = true then 2 ^ 63 + bits.toNat % 2 ^ 63
      else bits.toNat % 2 ^ 63) = bits.toNat := by
    split
    · rename_i h
      have h := of_decide_eq_true h
      omega
    · rename_i h
      have h : ¬ 2 ^ 63 ≤ bits.toNat := by simpa using h
      omega
  have : ofWord (isNegative ⟨bits⟩) (word ⟨bits⟩) = ⟨UInt64.ofNat bits.toNat⟩ := by
    rw [ofWord, isNegative, word]
    simp only [Nat.pow_eq]
    rw [hword]
  rw [this, UInt64.ofNat_toNat]

/-- A double is finite, infinite or no number. -/
theorem finite_or (x : Binary64) : x.isFinite ∨ x = infinity x.isNegative ∨ x.isNaN := by
  rcases Nat.lt_trichotomy x.word infiniteWord with hlt | heq | hgt
  · exact Or.inl (decide_eq_true hlt)
  · refine Or.inr (Or.inl ?_)
    rw [infinity, ← heq, ofWord_word]
  · exact Or.inr (Or.inr (decide_eq_true hgt))

/-- A number, or the quiet one of the values that are none. -/
def Settled (x : Binary64) : Prop := x.isNaN → x = nan

theorem settled_of_isFinite {x : Binary64} (h : x.isFinite) : x.Settled := by
  intro hnan
  rw [isNaN_of_isFinite h] at hnan
  exact absurd hnan (by decide)

/-- A word is its doublings and its significand. -/
theorem word_eq (x : Binary64) : x.word = x.scale * 2 ^ 52 + x.significand := by
  have hdiv : x.word = 2 ^ 52 * (x.word / 2 ^ 52) + x.word % 2 ^ 52 := (Nat.div_add_mod _ _).symm
  rw [scale, significand, exponentField, fraction]
  simp only [Nat.pow_eq]
  split <;> omega

theorem significand_lt (x : Binary64) : x.significand < 2 ^ 53 := by
  have hlt : x.word % 2 ^ 52 < 2 ^ 52 := Nat.mod_lt _ (by decide)
  rw [significand, fraction]
  simp only [Nat.pow_eq]
  split <;> omega

theorem scale_or_significand (x : Binary64) : x.scale = 0 ∨ 2 ^ 52 ≤ x.significand := by
  rw [scale, significand]
  simp only [Nat.pow_eq]
  split <;> omega

/-- Without its sign, the double nearest to a significand with its doublings is their word. -/
theorem ofMagnitude_mul {m p : Nat} (hm : m < 2 ^ 53) (hp : p = 0 ∨ 2 ^ 52 ≤ m)
    (negative : Bool) :
    ofMagnitude negative (m * 2 ^ p) 1 = ofWord negative (min (p * 2 ^ 52 + m) infiniteWord) := by
  have hlog := log2_sub_mul hm hp
  -- below `2 ^ 53` the number is its own significand, and above it the first bit tells
  have hdoublings : (if m * 2 ^ p < 2 ^ 53 then 0 else (m * 2 ^ p).log2 - 52) = p := by
    rw [hlog]
    split
    · rename_i hlt
      rcases hp with hp | hp
      · exact hp.symm
      · by_contra hne
        have hpow : 2 ^ 1 ≤ 2 ^ p := Nat.pow_le_pow_right (by decide) (by omega)
        have := Nat.mul_le_mul hp hpow
        omega
    · rfl
  rw [ofMagnitude]
  simp only [Nat.pow_eq, Nat.div_one, hdoublings, Nat.one_mul]
  rw [roundHalfEven_mul m (Nat.two_pow_pos p)]

/-- A finite double is the one nearest to its own value. -/
theorem ofMagnitude_magnitude {x : Binary64} (h : x.isFinite) :
    ofMagnitude x.isNegative x.magnitude 1 = x := by
  have hfinite := word_lt_of_isFinite h
  have hnearest := ofMagnitude_mul x.significand_lt x.scale_or_significand x.isNegative
  rw [← word_eq, Nat.min_eq_left hfinite.le, ofWord_word] at hnearest
  exact hnearest

end Binary64

/-! ## Narrow formats -/

namespace Cbor.Narrow

variable {f : Narrow}

/-- A magnitude that a format holds is the value of its word. -/
theorem word?_spec {a w : Nat} (h : f.word? a = some w) :
    ∃ d q, w = d * 2 ^ f.fractionBits + q ∧ a = q * 2 ^ d * 2 ^ f.unit
      ∧ q < 2 ^ (f.fractionBits + 1) ∧ (d = 0 ∨ 2 ^ f.fractionBits ≤ q)
      ∧ d + 1 ≤ f.largestField := by
  unfold word? at h
  simp only [Nat.pow_eq] at h
  split at h
  · rename_i hexact
    obtain ⟨hunit, hdoublings, hlargest⟩ := hexact
    injection h with h
    obtain ⟨hlt, hle⟩ := log2_sub_spec (a / 2 ^ f.unit) f.fractionBits
    refine ⟨_, _, h.symm, ?_, hlt, hle, hlargest⟩
    rw [Nat.div_mul_cancel (Nat.dvd_of_mod_eq_zero hdoublings),
      Nat.div_mul_cancel (Nat.dvd_of_mod_eq_zero hunit)]
  · exact absurd h (by simp)

/-- The exponent field and the fraction of such a word give its value. -/
theorem value_word {bits d q : Nat} (hlt : q < 2 ^ (bits + 1)) (hle : d = 0 ∨ 2 ^ bits ≤ q) :
    (if (d * 2 ^ bits + q) / 2 ^ bits = 0 then (d * 2 ^ bits + q) % 2 ^ bits
      else ((d * 2 ^ bits + q) % 2 ^ bits + 2 ^ bits) * 2 ^ ((d * 2 ^ bits + q) / 2 ^ bits - 1))
      = q * 2 ^ d ∧ (d * 2 ^ bits + q) / 2 ^ bits ≤ d + 1 := by
  have hpos := Nat.two_pow_pos bits
  rw [Nat.pow_succ] at hlt
  rw [Nat.mul_comm d, Nat.mul_add_div hpos, Nat.mul_add_mod]
  rcases Nat.lt_or_ge q (2 ^ bits) with hq | hq
  · -- only a number that is not doubled has so small a significand
    have hd : d = 0 := hle.resolve_right (Nat.not_le.mpr hq)
    subst hd
    simp [Nat.div_eq_of_lt hq, Nat.mod_eq_of_lt hq]
  · have hdiv : q / 2 ^ bits = 1 := by
      rw [Nat.div_eq_iff hpos]
      omega
    have hmod : q % 2 ^ bits + 2 ^ bits = q := by
      rw [Nat.mod_eq_sub_div_mul, hdiv]
      omega
    rw [hdiv, if_neg (by omega), hmod, Nat.add_sub_cancel]
    exact ⟨rfl, le_refl _⟩

theorem word?_lt {a w : Nat} (h : f.word? a = some w) :
    w < (f.largestField + 1) * 2 ^ f.fractionBits := by
  obtain ⟨d, q, rfl, _, hlt, _, hlargest⟩ := word?_spec h
  have := Nat.mul_le_mul_right (2 ^ f.fractionBits) (Nat.add_le_add_right hlargest 1)
  rw [Nat.pow_succ] at hlt
  linarith

/-- A finite double that a format holds exactly comes back from it. -/
theorem toBinary64_word? {x : Binary64} {w : Nat} (hx : x.isFinite)
    (h : f.word? x.magnitude = some w) : f.toBinary64 x.isNegative w = x := by
  obtain ⟨d, q, rfl, hvalue, hlt, hle, hlargest⟩ := word?_spec h
  obtain ⟨hword, hfield⟩ := value_word hlt hle
  rw [toBinary64]
  simp only [Nat.pow_eq]
  rw [if_pos (hfield.trans hlargest), hword, ← hvalue]
  exact Binary64.ofMagnitude_magnitude hx

end Cbor.Narrow

end RuleWiring
