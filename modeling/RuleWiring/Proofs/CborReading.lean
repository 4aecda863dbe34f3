import Mathlib
import RuleWiring.Proofs.Drafts
import RuleWiring.Proofs.Floats

/-!
# Bytes read back

What `Cbor.encode` writes in front of any other bytes is read as the draft of the value,
and the other bytes are left. This takes a value that is nested no deeper than the reader
goes, and fewer bytes than a length can count. Of the reals that are no numbers it takes the
one that their common bytes stand for.
-/

namespace RuleWiring

/-! ## Numbers and texts as bytes -/

namespace Bytes

theorem length_littleEndian : ∀ width n : Nat, (littleEndian width n).length = width
  | 0, _ => rfl
  | width + 1, n => by rw [littleEndian, List.length_cons, length_littleEndian]

@[simp] theorem length_bigEndian (width n : Nat) : (bigEndian width n).length = width := by
  rw [bigEndian, List.length_reverse, length_littleEndian]

theorem ofBigEndian_bigEndian : ∀ {width n : Nat}, n < 256 ^ width →
    ofBigEndian (bigEndian width n) = n
  | 0, n, h => by
      rw [Nat.pow_zero] at h
      rw [show n = 0 by omega]
      rfl
  | width + 1, n, h => by
      have hn : n / 256 < 256 ^ width := by
        rw [Nat.pow_succ] at h
        exact (Nat.div_lt_iff_lt_mul (by decide)).mpr h
      have ih := ofBigEndian_bigEndian hn
      rw [bigEndian, ofBigEndian] at ih
      rw [bigEndian, ofBigEndian, littleEndian, List.reverse_cons, List.foldl_append, ih]
      simp only [List.foldl_cons, List.foldl_nil, UInt8.toNat_ofNat']
      omega

/-- The list of some bytes, from a position on, is that of their array. -/
theorem toList_loop (bs : ByteArray) (i : Nat) (taken : List UInt8) :
    ByteArray.toList.loop bs i taken = taken.reverse ++ bs.data.toList.drop i := by
  fun_induction ByteArray.toList.loop bs i taken with
  | case1 i taken hlt ih =>
      have hi : i < bs.data.toList.length := by simpa using hlt
      have hget : bs.get! i = bs.data.toList[i] := by
        cases bs
        exact getElem!_pos _ i hlt
      rw [ih, ← List.getElem_cons_drop hi, hget, List.reverse_cons, List.append_assoc]
      rfl
  | case2 i taken hlt =>
      rw [List.drop_eq_nil_of_le (by simpa using Nat.le_of_not_lt hlt), List.append_nil]

theorem toText?_ofText (s : String) : toText? (ofText s) = some s := by
  have hbytes : ByteArray.mk s.toUTF8.toList.toArray = s.toByteArray := by
    rw [ByteArray.toList, toList_loop]
    rfl
  rw [toText?, ofText, hbytes, String.fromUTF8?, dif_pos s.isValidUTF8]
  rfl

end Bytes

namespace Cbor

/-! ## Heads -/

theorem take?_append (bs rest : List UInt8) : take? bs.length (bs ++ rest) = some (bs, rest) := by
  simp [take?]

theorem take?_bigEndian (width n : Nat) (rest : List UInt8) :
    take? width (Bytes.bigEndian width n ++ rest) = some (Bytes.bigEndian width n, rest) := by
  have h := take?_append (Bytes.bigEndian width n) rest
  rwa [Bytes.length_bigEndian] at h

/-- A number in one, two, four or eight bytes is read back. -/
theorem argument?_bigEndian {low n : Nat} (hlow : 24 ≤ low ∧ low < 28)
    (hn : n < 256 ^ 2 ^ (low - 24)) (rest : List UInt8) :
    argument? low (Bytes.bigEndian (2 ^ (low - 24)) n ++ rest) = some (.definite n, rest) := by
  rw [argument?, if_neg (by omega), if_pos hlow.2, Nat.pow_eq, take?_bigEndian, Option.map_some,
    Bytes.ofBigEndian_bigEndian hn]

/-- The number in a head is read back; it is one only if the first byte says so. -/
theorem head_spec (kind : Nat) {n : Nat} (hn : n < 2 ^ 64) :
    ∃ low bytes, head kind n = UInt8.ofNat (32 * kind + low) :: bytes ∧ low < 28
      ∧ (low = 1 ↔ n = 1) ∧ ∀ rest, argument? low (bytes ++ rest) = some (.definite n, rest) := by
  -- a number that takes bytes of its own is none of those that the first byte says by itself
  have hwide : ∀ low, 24 ≤ low → low < 28 → n < 256 ^ 2 ^ (low - 24) → 24 ≤ n →
      (low = 1 ↔ n = 1) ∧ ∀ rest, argument? low (Bytes.bigEndian (2 ^ (low - 24)) n ++ rest)
        = some (.definite n, rest) := fun low h h' hlt hle =>
    ⟨by omega, argument?_bigEndian ⟨h, h'⟩ hlt⟩
  unfold head
  simp only [Nat.pow_eq]
  split
  · rename_i h
    exact ⟨n, [], rfl, by omega, Iff.rfl, fun rest => if_pos h⟩
  · rename_i h24
    split
    · rename_i h
      exact ⟨24, _, rfl, by omega, hwide 24 (by omega) (by omega) h (by omega)⟩
    · split
      · rename_i h
        exact ⟨25, _, rfl, by omega, hwide 25 (by omega) (by omega) h (by omega)⟩
      · split
        · rename_i h
          exact ⟨26, _, rfl, by omega, hwide 26 (by omega) (by omega) h (by omega)⟩
        · exact ⟨27, _, rfl, by omega, hwide 27 (by omega) (by omega) hn (by omega)⟩

/-- The two parts of a first byte. -/
theorem toNat_first {kind low : Nat} (hkind : kind < 8) (hlow : low < 32) :
    (UInt8.ofNat (32 * kind + low)).toNat / 32 = kind
      ∧ (UInt8.ofNat (32 * kind + low)).toNat % 32 = low := by
  rw [UInt8.toNat_ofNat']
  omega

/-! ## Scalars -/

theorem item?_scalar {fuel levels kind low : Nat} {rest : List UInt8} (hkind : kind < 8)
    (hlow : low < 32) (hscalar : kind ≠ 4 ∧ kind ≠ 5 ∧ kind ≠ 6) :
    item? (fuel + 1) levels (UInt8.ofNat (32 * kind + low) :: rest) = scalar? kind low rest := by
  obtain ⟨hk, hl⟩ := toNat_first hkind hlow
  rw [item?]
  simp only [hk, hl]
  rw [if_neg (by omega)]

variable {fuel levels : Nat} {rest : List UInt8}

theorem item?_nat {n : Nat} (hn : n < 2 ^ 64) :
    item? (fuel + 1) levels (head 0 n ++ rest) = some (.place n, rest) := by
  obtain ⟨low, bytes, hhead, hlow, _, hargument⟩ := head_spec 0 hn
  rw [hhead, List.cons_append, item?_scalar (by decide) (by omega) (by decide), scalar?]
  simp only [hargument]
  rfl

theorem item?_text {s : String} (hs : (text s).length < 2 ^ 64) :
    item? (fuel + 1) levels (text s ++ rest) = some (.text s, rest) := by
  have hlength : (Bytes.ofText s).length < 2 ^ 64 := by
    rw [text, List.length_append] at hs
    omega
  obtain ⟨low, bytes, hhead, hlow, _, hargument⟩ := head_spec 3 hlength
  rw [text, hhead, List.append_assoc, List.cons_append,
    item?_scalar (by decide) (by omega) (by decide), scalar?, string?]
  simp only [hargument, take?_append, Bytes.toText?_ofText]
  rfl

/-- The sign of a word stands in its highest bit. -/
theorem signed_spec {width w : Nat} (hwidth : 0 < width) (hw : w < 2 ^ (8 * width - 1))
    (negative : Bool) :
    signed width negative w < 256 ^ width
      ∧ decide (2 ^ (8 * width - 1) ≤ signed width negative w) = negative
      ∧ signed width negative w % 2 ^ (8 * width - 1) = w := by
  have hpow : 256 ^ width = 2 * 2 ^ (8 * width - 1) := by
    have hsucc : 8 * width = (8 * width - 1) + 1 := by omega
    calc 256 ^ width = 2 ^ (8 * width) := (Nat.pow_mul 2 8 width).symm
      _ = 2 ^ ((8 * width - 1) + 1) := congrArg (2 ^ ·) hsucc
      _ = 2 * 2 ^ (8 * width - 1) := Nat.pow_succ'
  rw [hpow, signed]
  simp only [Nat.pow_eq]
  cases negative with
  | true =>
      rw [if_pos rfl, Nat.add_mod_left, Nat.mod_eq_of_lt hw]
      exact ⟨by omega, decide_eq_true (Nat.le_add_right _ _), rfl⟩
  | false =>
      rw [if_neg (by decide), Nat.mod_eq_of_lt hw]
      exact ⟨by omega, decide_eq_false (Nat.not_le.mpr hw), rfl⟩

/-- The double that some bytes stand for in a narrow format. -/
def Narrow.ofBytes (f : Narrow) (width : Nat) (bs : List UInt8) : Binary64 :=
  f.toBinary64 (decide (2 ^ (8 * width - 1) ≤ Bytes.ofBigEndian bs))
    (Bytes.ofBigEndian bs % 2 ^ (8 * width - 1))

/-- A finite double in a narrow format that holds it is read back from its bytes. -/
theorem Narrow.ofBytes_signed {f : Narrow} {w : Nat} {x : Binary64} (width : Nat)
    (hwidth : 0 < width)
    (hf : (f.largestField + 1) * 2 ^ f.fractionBits ≤ 2 ^ (8 * width - 1)) (hx : x.isFinite)
    (hw : f.word? x.magnitude = some w) :
    f.ofBytes width (Bytes.bigEndian width (signed width x.isNegative w)) = x := by
  have hlt : w < 2 ^ (8 * width - 1) := (word?_lt hw).trans_le hf
  obtain ⟨hsigned, hsign, hword⟩ := signed_spec hwidth hlt x.isNegative
  rw [ofBytes, Bytes.ofBigEndian_bigEndian hsigned, hsign, hword]
  exact toBinary64_word? hx hw

theorem scalar?_half (n : Nat) : scalar? 7 25 (Bytes.bigEndian 2 n ++ rest)
    = some (.number (.real (half.ofBytes 2 (Bytes.bigEndian 2 n))), rest) := by
  rw [scalar?, take?_bigEndian]
  rfl

theorem scalar?_single (n : Nat) : scalar? 7 26 (Bytes.bigEndian 4 n ++ rest)
    = some (.number (.real (single.ofBytes 4 (Bytes.bigEndian 4 n))), rest) := by
  rw [scalar?, take?_bigEndian]
  rfl

theorem scalar?_double (x : Binary64) : scalar? 7 27 (Bytes.bigEndian 8 x.bits.toNat ++ rest)
    = some (.number (.real x), rest) := by
  have hbits : UInt64.ofNat (Bytes.ofBigEndian (Bytes.bigEndian 8 x.bits.toNat)) = x.bits := by
    rw [Bytes.ofBigEndian_bigEndian x.bits.toNat_lt, UInt64.ofNat_toNat]
  rw [scalar?, take?_bigEndian]
  exact congrArg (fun bits => some (Draft.number (.real ⟨bits⟩), rest)) hbits

/-- The first byte of a real tells in how many bytes it stands. -/
theorem item?_float {low : Nat} {bs : List UInt8} (hlow : low < 32) :
    item? (fuel + 1) levels (UInt8.ofNat (32 * 7 + low) :: bs) = scalar? 7 low bs :=
  item?_scalar (by decide) hlow (by decide)

theorem item?_half (n : Nat) : item? (fuel + 1) levels (0xf9 :: (Bytes.bigEndian 2 n ++ rest))
    = some (.number (.real (half.ofBytes 2 (Bytes.bigEndian 2 n))), rest) := by
  have hfirst : (0xf9 : UInt8) = UInt8.ofNat (32 * 7 + 25) := rfl
  rw [hfirst, item?_float (by decide), scalar?_half]

/-- A finite double is read back with all its bits, in whichever width it was written. -/
theorem item?_finite {x : Binary64} (hx : x.isFinite) :
    item? (fuel + 1) levels (real x ++ rest) = some (.number (.real x), rest) := by
  have hsingle : (0xfa : UInt8) = UInt8.ofNat (32 * 7 + 26) := rfl
  have hdouble : (0xfb : UInt8) = UInt8.ofNat (32 * 7 + 27) := rfl
  rw [real, Binary64.isNaN_of_isFinite hx, hx]
  simp only [Bool.false_eq_true, if_false, Bool.not_true]
  split
  · rename_i w hw
    rw [List.cons_append, item?_half, Narrow.ofBytes_signed 2 (by decide) (by decide) hx hw]
  · split
    · rename_i w hw
      rw [hsingle, List.cons_append, item?_float (by decide), scalar?_single,
        Narrow.ofBytes_signed 4 (by decide) (by decide) hx hw]
    · rw [hdouble, List.cons_append, item?_float (by decide), scalar?_double]

theorem real_infinity : ∀ negative : Bool, real (Binary64.infinity negative)
    = 0xf9 :: Bytes.bigEndian 2 (if negative then 0xfc00 else 0x7c00) := by decide +kernel

theorem real_nan : real Binary64.nan = 0xf9 :: Bytes.bigEndian 2 0x7e00 := by decide +kernel

/-- Every double is read back but for the values that are no numbers: they all have the bytes
of one of them. -/
theorem item?_real {x : Binary64} (hx : x.Settled) :
    item? (fuel + 1) levels (real x ++ rest) = some (.number (.real x), rest) := by
  have hinfinity : ∀ negative : Bool,
      half.ofBytes 2 (Bytes.bigEndian 2 (if negative then 0xfc00 else 0x7c00))
        = Binary64.infinity negative := by decide +kernel
  have hnan : half.ofBytes 2 (Bytes.bigEndian 2 0x7e00) = Binary64.nan := by decide +kernel
  rcases x.finite_or with hfinite | hinfinite | hisNaN
  · exact item?_finite hfinite
  · rw [hinfinite, real_infinity, List.cons_append, item?_half, hinfinity]
  · rw [hx hisNaN, real_nan, List.cons_append, item?_half, hnan]

/-! ## Lists and objects -/

theorem item?_list {n : Nat} (hn : n < 2 ^ 64) (hlevels : 0 < levels) :
    item? (fuel + 1) levels (head 4 n ++ rest)
      = (items? fuel (levels - 1) (some n) rest).map fun p => (.list p.1 none true, p.2) := by
  obtain ⟨low, bytes, hhead, hlow, _, hargument⟩ := head_spec 4 hn
  obtain ⟨hk, hl⟩ := toNat_first (by decide : 4 < 8) (by omega : low < 32)
  rw [hhead, List.cons_append, item?]
  simp only [hk, hl, hargument, hlevels.ne', true_or, if_true, if_false]
  rfl

/-- An object of one member is open, as its first byte says how many members it has. -/
theorem item?_object {n : Nat} (hn : n < 2 ^ 64) (hlevels : 0 < levels) :
    item? (fuel + 1) levels (head 5 n ++ rest)
      = (members? fuel (levels - 1) (some n) rest).map
          fun p => (.object p.1 none (n = 1), p.2) := by
  obtain ⟨low, bytes, hhead, hlow, hone, hargument⟩ := head_spec 5 hn
  obtain ⟨hk, hl⟩ := toNat_first (by decide : 5 < 8) (by omega : low < 32)
  rw [hhead, List.cons_append, item?]
  simp only [hk, hl, hargument, hlevels.ne', hone, Nat.reduceEqDiff, true_or, or_true, if_true,
    if_false]
  rfl

/-- What is found in bytes: whole numbers may be places, and what may be open is open. -/
def medium : Medium where
  nat := .place
  real x := .number (.real x)
  openList := true
  openObject n := n = 1
  reads_nat h := if_pos h

theorem medium_carries (x : Binary64) : medium.Carries x := rfl

theorem length_head_pos (kind n : Nat) : 0 < (head kind n).length := by
  unfold head
  dsimp only
  split_ifs
  all_goals exact Nat.succ_pos _

theorem length_text_pos (s : String) : 0 < (text s).length := by
  have := length_head_pos 3 (Bytes.ofText s).length
  rw [text, List.length_append]
  omega

theorem length_encode_pos (v : Json) : 0 < (encode v).length := by
  cases v with
  | null => exact Nat.one_pos
  | bool b => exact Nat.one_pos
  | nat n => exact length_head_pos 0 n
  | real x =>
      rw [encode, real]
      repeat' split
      all_goals exact Nat.succ_pos _
  | text s => exact length_text_pos s
  | list items =>
      have := length_head_pos 4 items.length
      rw [encode, List.length_append]
      omega
  | object members =>
      have := length_head_pos 5 members.length
      rw [encode, List.length_append]
      omega

theorem length_le_encodeItems : ∀ items : List Json, items.length ≤ (encodeItems items).length
  | [] => Nat.zero_le _
  | v :: items => by
      have hv := length_encode_pos v
      have ih := length_le_encodeItems items
      rw [encodeItems, List.length_append, List.length_cons]
      omega

theorem length_le_encodeMembers : ∀ members : List (String × Json),
    members.length ≤ (encodeMembers members).length
  | [] => Nat.zero_le _
  | (k, v) :: members => by
      have hv := length_encode_pos v
      have ih := length_le_encodeMembers members
      rw [encodeMembers, List.length_append, List.length_append, List.length_cons]
      omega

/-! ## Whole values -/

theorem items?_step {n : Nat} {bs left : List UInt8} {v : Draft}
    (hv : item? fuel levels bs = some (v, left)) :
    items? (fuel + 1) levels (some (n + 1)) bs
      = (items? fuel levels (some n) left).map fun p => (v :: p.1, p.2) := by
  rw [items?, hv]
  rfl

theorem members?_step {n : Nat} {bs middle left : List UInt8} {k v : Draft}
    (hk : item? fuel levels bs = some (k, middle))
    (hv : item? fuel levels middle = some (v, left)) :
    members? (fuel + 1) levels (some (n + 1)) bs
      = (members? fuel levels (some n) left).map fun p => ((Key.ofDraft k, v) :: p.1, p.2) := by
  rw [members?, hk]
  dsimp only
  rw [hv]
  rfl

mutual

/-- A value is read as its draft. Every item takes two steps, and at least one byte. -/
theorem item?_encode : ∀ (v : Json) {fuel levels : Nat} {rest : List UInt8},
    v.Fits Binary64.Settled levels → (encode v).length < 2 ^ 64 →
    2 * (encode v ++ rest).length ≤ fuel →
    item? fuel levels (encode v ++ rest) = some (v.draft medium, rest)
  | v, 0, _, rest, _, _, hfuel => by
      have := length_encode_pos v
      rw [List.length_append] at hfuel
      omega
  | .null, _ + 1, _, _, _, _, _ => rfl
  | .bool b, _ + 1, _, _, _, _, _ => by cases b <;> rfl
  | .nat n, _ + 1, _, _, hfits, _, _ => item?_nat hfits
  | .real x, _ + 1, _, _, hfits, _, _ => item?_real hfits
  | .text s, _ + 1, _, _, _, hlength, _ => item?_text hlength
  | .list items, fuel + 1, levels, rest, hfits, hlength, hfuel => by
      -- there are no more items than bytes, so that their number fits in a head
      have hhead := length_head_pos 4 items.length
      have hcount := length_le_encodeItems items
      rw [encode, List.length_append] at hlength
      simp only [encode, List.length_append] at hfuel
      rw [encode, List.append_assoc, item?_list (by omega) hfits.1,
        items?_encode items hfits.2 (by omega) (by rw [List.length_append]; omega)]
      rfl
  | .object members, fuel + 1, levels, rest, hfits, hlength, hfuel => by
      have hhead := length_head_pos 5 members.length
      have hcount := length_le_encodeMembers members
      rw [encode, List.length_append] at hlength
      simp only [encode, List.length_append] at hfuel
      rw [encode, List.append_assoc, item?_object (by omega) hfits.1,
        members?_encode members hfits.2 (by omega) (by rw [List.length_append]; omega)]
      rfl

theorem items?_encode : ∀ (items : List Json) {fuel levels : Nat} {rest : List UInt8},
    Json.FitsItems Binary64.Settled levels items → (encodeItems items).length < 2 ^ 64 →
    2 * (encodeItems items ++ rest).length < fuel →
    items? fuel levels (some items.length) (encodeItems items ++ rest)
      = some (Json.draftItems medium items, rest)
  | _, 0, _, _, _, _, hfuel => absurd hfuel (Nat.not_lt_zero _)
  | [], _ + 1, _, _, _, _, _ => rfl
  | v :: items, fuel + 1, levels, rest, hfits, hlength, hfuel => by
      have hpos := length_encode_pos v
      rw [encodeItems, List.length_append] at hlength
      simp only [encodeItems, List.length_append] at hfuel
      have hv : item? fuel levels (encode v ++ (encodeItems items ++ rest))
          = some (v.draft medium, encodeItems items ++ rest) :=
        item?_encode v hfits.1 (by omega) (by simp only [List.length_append]; omega)
      rw [encodeItems, List.append_assoc, List.length_cons, items?_step hv,
        items?_encode items hfits.2 (by omega) (by rw [List.length_append]; omega)]
      rfl

theorem members?_encode : ∀ (members : List (String × Json)) {fuel levels : Nat}
    {rest : List UInt8}, Json.FitsMembers Binary64.Settled levels members →
    (encodeMembers members).length < 2 ^ 64 →
    2 * (encodeMembers members ++ rest).length < fuel →
    members? fuel levels (some members.length) (encodeMembers members ++ rest)
      = some (Json.draftMembers medium members, rest)
  | _, 0, _, _, _, _, hfuel => absurd hfuel (Nat.not_lt_zero _)
  | [], _ + 1, _, _, _, _, _ => rfl
  | (k, v) :: members, fuel + 1, levels, rest, hfits, hlength, hfuel => by
      have hkey := length_text_pos k
      have hpos := length_encode_pos v
      simp only [encodeMembers, List.length_append] at hlength hfuel
      obtain ⟨fuel, rfl⟩ : ∃ n, fuel = n + 1 := ⟨fuel - 1, by omega⟩
      have hk : item? (fuel + 1) levels
          (text k ++ (encode v ++ (encodeMembers members ++ rest)))
            = some (.text k, encode v ++ (encodeMembers members ++ rest)) :=
        item?_text (by omega)
      have hv : item? (fuel + 1) levels (encode v ++ (encodeMembers members ++ rest))
          = some (v.draft medium, encodeMembers members ++ rest) :=
        item?_encode v hfits.1 (by omega) (by simp only [List.length_append]; omega)
      rw [encodeMembers, List.append_assoc, List.append_assoc, List.length_cons,
        members?_step hk hv,
        members?_encode members hfits.2 (by omega) (by rw [List.length_append]; omega)]
      rfl

end

/-- The bytes of a value hold the value and nothing else. -/
theorem decode?_encode {v : Json} (hfits : v.Fits Binary64.Settled depth)
    (hlength : (encode v).length < 2 ^ 64) : decode? (encode v) = some (v.draft medium) := by
  have hitem : item? (2 * (encode v).length + 2) depth (encode v ++ [])
      = some (v.draft medium, []) :=
    item?_encode v hfits hlength (by rw [List.append_nil]; omega)
  rw [List.append_nil] at hitem
  rw [decode?, hitem]

end Cbor

end RuleWiring
