import Mathlib
import RuleWiring.Bytes.Fingerprint
import RuleWiring.Proofs.CborReading
import RuleWiring.Proofs.Normalized
import RuleWiring.Proofs.SameGraph

/-!
# The canonical bytes of a diagram

The canonical bytes have no separators: one record follows the other, and an id may contain
anything, also what looks like the beginning of another record. They can be taken apart
nevertheless, because every part shows where it ends. A text has its length in front, a literal
has nine bytes, and the number of records stands before the first. This is `Delimits`, and it
passes from the parts to the whole.

The records are sorted, so they come out as they were only up to their order. That is as it should
be: the bytes are meant to tell graphs apart and not the order in which they were written down.
-/

namespace RuleWiring

/-- A code that shows where a word ends: whatever follows, the value that was written can be read
off, and what follows is left. -/
def Delimits {α : Type} (P : α → Prop) (f : α → List UInt8) : Prop :=
  ∀ x y r s, P x → P y → f x ++ r = f y ++ s → x = y ∧ r = s

/-- So do the words one after the other, if their number is known. -/
theorem Delimits.flatten {α : Type} {P : α → Prop} {f : α → List UInt8} (hf : Delimits P f)
    {r s : List UInt8} : ∀ {l l' : List α}, l.length = l'.length → (∀ x ∈ l, P x) →
      (∀ x ∈ l', P x) → (l.map f).flatten ++ r = (l'.map f).flatten ++ s → l = l' ∧ r = s
  | [], [], _, _, _, h => ⟨rfl, h⟩
  | x :: l, y :: l', hlen, hl, hl', h => by
      simp only [List.map_cons, List.flatten_cons, List.append_assoc] at h
      obtain ⟨hx, hl⟩ := List.forall_mem_cons.mp hl
      obtain ⟨hy, hl'⟩ := List.forall_mem_cons.mp hl'
      obtain ⟨hxy, h⟩ := hf x y _ _ hx hy h
      obtain ⟨hrest, h⟩ := hf.flatten (Nat.succ.inj hlen) hl hl' h
      exact ⟨by rw [hxy, hrest], h⟩

namespace Bytes

/-! ## Numbers, texts and literals -/

theorem littleEndian_delimits (width : Nat) :
    Delimits (· < 256 ^ width) (littleEndian width) := by
  intro n m r s hn hm h
  have hlen : (littleEndian width n).length = (littleEndian width m).length := by
    rw [length_littleEndian, length_littleEndian]
  obtain ⟨hbytes, hrest⟩ := List.append_inj h hlen
  have hnm : ofBigEndian (bigEndian width n) = ofBigEndian (bigEndian width m) := by
    rw [bigEndian, bigEndian, hbytes]
  rw [ofBigEndian_bigEndian hn, ofBigEndian_bigEndian hm] at hnm
  exact ⟨hnm, hrest⟩

theorem length_ofText (s : String) : (ofText s).length = s.utf8ByteSize := by
  rw [ofText, ByteArray.toList, toList_loop]
  exact String.size_toByteArray

theorem ofText_injective : Function.Injective ofText := by
  intro s t h
  have hs := toText?_ofText s
  rw [h, toText?_ofText t] at hs
  exact (Option.some.inj hs).symm

/-- A text is as long as the number in front of it says. -/
theorem prefixedText_delimits : Delimits (·.utf8ByteSize < 2 ^ 32) prefixedText := by
  intro s t r r' hs ht h
  simp only [prefixedText, List.append_assoc] at h
  have hwidth : (256 : Nat) ^ 4 = 2 ^ 32 := by norm_num
  obtain ⟨hlen, h⟩ := littleEndian_delimits 4 _ _ _ _ (by rwa [hwidth, length_ofText])
    (by rwa [hwidth, length_ofText]) h
  obtain ⟨htext, hrest⟩ := List.append_inj h hlen
  exact ⟨ofText_injective htext, hrest⟩

end Bytes

open Bytes

namespace Literal

/-- The first byte of a literal, and the number in the bytes behind it. -/
def parts : Literal → UInt8 × Nat
  | .int n => (0, n.toNat)
  | .real x => (1, x.bits.toNat)
  | .bool b => (2, b.toNat)

theorem canonicalBytes_eq (l : Literal) :
    l.canonicalBytes = l.parts.1 :: littleEndian 8 l.parts.2 := by
  cases l <;> rfl

theorem parts_lt : ∀ l : Literal, l.parts.2 < 256 ^ 8
  | .int n => lt_trans n.toNat_lt (by norm_num)
  | .real x => lt_of_lt_of_eq x.bits.toNat_lt (by norm_num)
  | .bool b => lt_of_le_of_lt b.toNat_le (by norm_num)

theorem parts_injective : Function.Injective parts := by
  intro l m h
  cases l <;> cases m <;> simp only [parts, Prod.mk.injEq] at h
  case int.int => rw [UInt32.toNat_inj.mp h.2]
  case real.real =>
    rw [real.injEq, Binary64.mk.injEq]
    exact UInt64.toNat_inj.mp h.2
  case bool.bool b b' =>
    revert b b'
    decide
  all_goals exact absurd h.1 (by decide)

theorem canonicalBytes_delimits : Delimits (fun _ => True) canonicalBytes := by
  intro l m r s _ _ h
  rw [canonicalBytes_eq, canonicalBytes_eq] at h
  injection h with htype h
  obtain ⟨hword, hrest⟩ := littleEndian_delimits 8 _ _ _ _ l.parts_lt m.parts_lt h
  exact ⟨parts_injective (Prod.ext htype hword), hrest⟩

end Literal

/-- What is hashed shows the data, which is all of it behind a head of fixed length. -/
theorem Fingerprint.message_injective (domain : List UInt8) :
    Function.Injective (message domain) := by
  intro data data' h
  exact (List.append_inj h (by simp [length_littleEndian])).2

/-! ## Records -/

theorem Component.name_injective : Function.Injective Component.name := by
  intro c c' h
  have hc := ofName?_name c
  rw [h, ofName?_name c'] at hc
  exact (Option.some.inj hc).symm

theorem Component.name_short (c : Component) : c.name.utf8ByteSize < 2 ^ 32 := by
  cases c <;> decide

theorem Port.name_short (p : Port) : p.name.utf8ByteSize < 2 ^ 32 := by
  cases p <;> decide

namespace Diagram

theorem nodeBytes_delimits : Delimits (fun n : Node => n.id.utf8ByteSize < 2 ^ 32) nodeBytes := by
  intro n m r s hn hm h
  simp only [nodeBytes, List.append_assoc] at h
  obtain ⟨hid, h⟩ := prefixedText_delimits _ _ _ _ hn hm h
  obtain ⟨hname, hrest⟩ :=
    prefixedText_delimits _ _ _ _ n.component.name_short m.component.name_short h
  refine ⟨?_, hrest⟩
  show (⟨n.id, n.component⟩ : Node) = m
  rw [hid, Component.name_injective hname]

/-- The bytes of an edge by what it connects. -/
def connectionBytes : (String ⊕ Literal) × String × Port → List UInt8
  | (.inl id, target, p) => 0 :: prefixedText id ++ prefixedText target ++ prefixedText p.name
  | (.inr l, target, p) => 1 :: l.canonicalBytes ++ prefixedText target ++ prefixedText p.name

theorem edgeBytes_eq (d : Diagram) (e : Edge) :
    d.edgeBytes e = connectionBytes (d.connection e) := by
  obtain ⟨src, target, p⟩ := e
  cases src <;> rfl

/-- Both ids of a connection are short enough for their length to be written. -/
def ShortIds (c : (String ⊕ Literal) × String × Port) : Prop :=
  (∀ id, c.1 = .inl id → id.utf8ByteSize < 2 ^ 32) ∧ c.2.1.utf8ByteSize < 2 ^ 32

theorem connectionBytes_delimits : Delimits ShortIds connectionBytes := by
  rintro ⟨src, target, p⟩ ⟨src', target', p'⟩ r s ⟨hsrc, htarget⟩ ⟨hsrc', htarget'⟩ h
  -- both kinds of source are followed by the same two parts
  have hends : ∀ {r s : List UInt8},
      prefixedText target ++ (prefixedText p.name ++ r)
        = prefixedText target' ++ (prefixedText p'.name ++ s) →
      target = target' ∧ p = p' ∧ r = s := by
    intro r s h
    obtain ⟨htarget, h⟩ := prefixedText_delimits _ _ _ _ htarget htarget' h
    obtain ⟨hname, hrest⟩ := prefixedText_delimits _ _ _ _ p.name_short p'.name_short h
    exact ⟨htarget, Port.name_injective hname, hrest⟩
  cases src <;> cases src' <;>
    simp only [connectionBytes, List.cons_append, List.append_assoc, List.cons.injEq] at h
  case inl.inl id id' =>
    obtain ⟨hid, h⟩ := prefixedText_delimits _ _ _ _ (hsrc id rfl) (hsrc' id' rfl) h.2
    obtain ⟨htarget, hport, hrest⟩ := hends h
    exact ⟨by rw [hid, htarget, hport], hrest⟩
  case inr.inr l l' =>
    obtain ⟨hl, h⟩ := Literal.canonicalBytes_delimits _ _ _ _ trivial trivial h.2
    obtain ⟨htarget, hport, hrest⟩ := hends h
    exact ⟨by rw [hl, htarget, hport], hrest⟩
  all_goals exact absurd h.1 (by decide)

/-! ## Sorted records behind their number -/

theorem bytesLe_total : ∀ a b : List UInt8, (bytesLe a b || bytesLe b a) = true
  | [], _ => rfl
  | _ :: _, [] => rfl
  | a :: as, b :: bs => by
      rw [bytesLe, bytesLe]
      split
      · rename_i hab
        rw [if_pos hab.symm]
        exact bytesLe_total as bs
      · rename_i hab
        rw [if_neg (Ne.symm hab)]
        simpa using UInt8.lt_or_lt_of_ne hab

theorem bytesLe_antisymm : ∀ {a b : List UInt8}, bytesLe a b = true → bytesLe b a = true → a = b
  | [], [], _, _ => rfl
  | [], _ :: _, _, h => absurd h Bool.false_ne_true
  | _ :: _, [], h, _ => absurd h Bool.false_ne_true
  | a :: as, b :: bs, h, h' => by
      rw [bytesLe] at h h'
      split at h
      · rename_i hab
        rw [if_pos hab.symm] at h'
        rw [hab, bytesLe_antisymm h h']
      · rename_i hab
        rw [if_neg (Ne.symm hab)] at h'
        exact absurd (of_decide_eq_true h') (UInt8.lt_asymm (of_decide_eq_true h))

theorem bytesLe_trans : ∀ {a b c : List UInt8}, bytesLe a b = true → bytesLe b c = true →
    bytesLe a c = true
  | [], _, _, _, _ => by rw [bytesLe]
  | _ :: _, [], _, h, _ => absurd h Bool.false_ne_true
  | _ :: _, _ :: _, [], _, h => absurd h Bool.false_ne_true
  | a :: as, b :: bs, c :: cs, h, h' => by
      rw [bytesLe] at h h' ⊢
      split at h <;> split at h'
      · rename_i hab hbc
        rw [if_pos (hab.trans hbc)]
        exact bytesLe_trans h h'
      · rename_i hab hbc
        rwa [if_neg (hab ▸ hbc), hab]
      · rename_i hab hbc
        rwa [if_neg (hbc ▸ hab), ← hbc]
      · rename_i hab hbc
        have hac := UInt8.lt_trans (of_decide_eq_true h) (of_decide_eq_true h')
        rw [if_neg (UInt8.ne_of_lt hac)]
        exact decide_eq_true hac

theorem sortBytes_sorted (l : List (List UInt8)) :
    (sortBytes l).Pairwise fun a b => bytesLe a b = true :=
  @List.pairwise_mergeSort _ bytesLe (fun _ _ _ => bytesLe_trans) bytesLe_total l

theorem sortBytes_perm {l l' : List (List UInt8)} (h : l.Perm l') : sortBytes l = sortBytes l' := by
  refine List.Perm.eq_of_pairwise (fun _ _ _ _ h h' => bytesLe_antisymm h h') (sortBytes_sorted l)
    (sortBytes_sorted l') ?_
  exact (List.mergeSort_perm l _).trans (h.trans (List.mergeSort_perm l' _).symm)

theorem countedBytes_perm {l l' : List (List UInt8)} (h : l.Perm l') :
    countedBytes l = countedBytes l' := by
  rw [countedBytes, countedBytes, h.length_eq, sortBytes_perm h]

/-- Records come out of their bytes up to their order. -/
theorem perm_of_countedBytes {α : Type} {P : α → Prop} {f : α → List UInt8} (hf : Delimits P f)
    {l l' : List α} {r s : List UInt8} (hl : ∀ x ∈ l, P x) (hl' : ∀ x ∈ l', P x)
    (hlen : l.length < 2 ^ 64) (hlen' : l'.length < 2 ^ 64)
    (h : countedBytes (l.map f) ++ r = countedBytes (l'.map f) ++ s) : l.Perm l' ∧ r = s := by
  -- sorting the records is sorting the words by their records
  let le : α → α → Bool := fun x y => bytesLe (f x) (f y)
  have hsort : ∀ l : List α, sortBytes (l.map f) = (l.mergeSort le).map f :=
    fun l => (List.map_mergeSort (r := le) (f := f) fun _ _ _ _ => rfl).symm
  have hwidth : (256 : Nat) ^ 8 = 2 ^ 64 := by norm_num
  simp only [countedBytes, hsort, List.length_map, List.append_assoc] at h
  obtain ⟨hcount, h⟩ := littleEndian_delimits 8 _ _ _ _ (by rwa [hwidth]) (by rwa [hwidth]) h
  have hperm := List.mergeSort_perm l le
  have hperm' := List.mergeSort_perm l' le
  obtain ⟨hsame, hrest⟩ := hf.flatten (by rw [hperm.length_eq, hperm'.length_eq, hcount])
    (fun x hx => hl x (hperm.mem_iff.mp hx)) (fun x hx => hl' x (hperm'.mem_iff.mp hx)) h
  exact ⟨hperm.symm.trans (hsame ▸ hperm'), hrest⟩

/-! ## The whole diagram -/

variable {s s' : Sketch} {d d' : Diagram}

theorem canonicalBytes_eq (d : Diagram) : d.canonicalBytes
    = countedBytes (d.nodes.map nodeBytes)
      ++ (countedBytes ((d.edges.map d.connection).map connectionBytes)
        ++ prefixedText (d.idAt d.output)) := by
  have hedges : d.edges.map d.edgeBytes = (d.edges.map d.connection).map connectionBytes := by
    rw [List.map_map]
    exact List.map_congr_left fun e _ => d.edgeBytes_eq e
  rw [canonicalBytes, hedges, List.append_assoc]

theorem SameGraph.canonicalBytes (h : SameGraph d d') : d.canonicalBytes = d'.canonicalBytes := by
  rw [canonicalBytes_eq, canonicalBytes_eq, countedBytes_perm (h.nodes.map _),
    countedBytes_perm (h.edges.map _), h.output]

/-- A diagram has at most one edge for each port of each node. -/
theorem length_edges_le (h : s.Passed d) : d.edges.length ≤ 16 * d.nodes.length := by
  have hinside : d.edges.map Edge.slot ⊆ List.range d.nodes.length ×ˢ Port.all := by
    intro slot hslot
    obtain ⟨e, he, rfl⟩ := List.mem_map.mp hslot
    refine List.pair_mem_product.mpr ⟨List.mem_range.mpr (Sketch.fits_ends (h.fits e he)).1, ?_⟩
    cases e.port <;> decide
  have hle := (h.resolved.slots.subperm hinside).length_le
  rw [List.length_map, List.length_product, List.length_range] at hle
  calc d.edges.length ≤ d.nodes.length * 16 := hle
    _ = 16 * d.nodes.length := Nat.mul_comm ..

/-- Every length in the canonical bytes fits the bytes that it is written in. For the number of
nodes, and with it for that of edges, this is so wherever a list has to be held in memory. -/
structure Countable (d : Diagram) : Prop where
  ids : ∀ n ∈ d.nodes, n.id.utf8ByteSize < 2 ^ 32
  nodes : d.nodes.length < 2 ^ 60

namespace Countable

theorem idAt (h : d.Countable) {i : Nat} (hi : i < d.nodes.length) :
    (d.idAt i).utf8ByteSize < 2 ^ 32 := by
  rw [Document.idAt_of_getElem? (List.getElem?_eq_getElem hi)]
  exact h.ids _ (List.getElem_mem hi)

theorem connections (h : d.Countable) (hp : s.Passed d) :
    ∀ c ∈ d.edges.map d.connection, ShortIds c := by
  intro c hc
  obtain ⟨⟨src, target, p⟩, he, rfl⟩ := List.mem_map.mp hc
  obtain ⟨htarget, hsrc⟩ := Sketch.fits_ends (hp.fits _ he)
  refine ⟨fun id hid => ?_, h.idAt htarget⟩
  cases src with
  | node i =>
      injection hid with hid
      exact hid ▸ h.idAt hsrc
  | literal l => exact absurd hid (by simp [connection, sourceName])

theorem edges (h : d.Countable) (hp : s.Passed d) :
    (d.edges.map d.connection).length < 2 ^ 64 := by
  have hedges := length_edges_le hp
  have hnodes := h.nodes
  rw [List.length_map]
  omega

/-- **The graph can be read off the canonical bytes.** -/
theorem sameGraph (h : d.Countable) (h' : d'.Countable) (hp : s.Passed d) (hp' : s'.Passed d')
    (hbytes : d.canonicalBytes = d'.canonicalBytes) : SameGraph d d' := by
  rw [canonicalBytes_eq, canonicalBytes_eq] at hbytes
  obtain ⟨hnodes, hbytes⟩ := perm_of_countedBytes nodeBytes_delimits h.ids h'.ids
    (by have := h.nodes; omega) (by have := h'.nodes; omega) hbytes
  obtain ⟨hedges, hbytes⟩ := perm_of_countedBytes connectionBytes_delimits (h.connections hp)
    (h'.connections hp') (h.edges hp) (h'.edges hp') hbytes
  rw [← List.append_nil (prefixedText _), ← List.append_nil (prefixedText (d'.idAt _))] at hbytes
  obtain ⟨houtput, _⟩ := prefixedText_delimits _ _ _ _ (h.idAt hp.output_spec.1)
    (h'.idAt hp'.output_spec.1) hbytes
  exact ⟨hnodes, hedges, houtput⟩

end Countable

/--
**The canonical bytes are those of the graph.**

The two diagrams are any that were accepted, drawn in whatever order, with ids that may contain
anything. Their canonical bytes are equal exactly if they have the same nodes, the same edges and
the same output. What else is said about a diagram has no part in them. Hence equal graphs have
equal fingerprints, and where two different graphs have equal fingerprints, the two messages that
were hashed are different messages with the same hash.
-/
theorem canonicalBytes_eq_iff (h : s.finish = .ok d) (h' : s'.finish = .ok d')
    (hd : d.Countable) (hd' : d'.Countable) :
    (d.canonicalBytes = d'.canonicalBytes ↔ SameGraph d d')
      ∧ (SameGraph d d' → d.fingerprint = d'.fingerprint)
      ∧ (d.fingerprint = d'.fingerprint → SameGraph d d' ∨
          let m := Fingerprint.message Fingerprint.diagramDomain d.canonicalBytes
          let m' := Fingerprint.message Fingerprint.diagramDomain d'.canonicalBytes
          m ≠ m' ∧ Sha256.hash m = Sha256.hash m') := by
  have hiff : d.canonicalBytes = d'.canonicalBytes ↔ SameGraph d d' :=
    ⟨hd.sameGraph hd' (Sketch.finish_passed h) (Sketch.finish_passed h'), SameGraph.canonicalBytes⟩
  refine ⟨hiff, fun hg => ?_, fun hprint => ?_⟩
  · rw [fingerprint, fingerprint, hg.canonicalBytes]
  · by_cases hg : SameGraph d d'
    · exact .inl hg
    · refine .inr ⟨fun hm => hg (hiff.mp (Fingerprint.message_injective _ hm)), ?_⟩
      injection hprint

theorem canonicalBytes_eq_iff_shuffled :
    Sketch.gated.finish = .ok Sketch.gatedDiagram
      ∧ Sketch.shuffled.finish = .ok Sketch.shuffledDiagram
      ∧ Sketch.gatedDiagram.Countable ∧ Sketch.shuffledDiagram.Countable
      ∧ Sketch.gatedDiagram ≠ Sketch.shuffledDiagram
      ∧ Sketch.gatedDiagram.canonicalBytes = Sketch.shuffledDiagram.canonicalBytes := by
  have h : Sketch.gated.finish = .ok Sketch.gatedDiagram := rfl
  have h' : Sketch.shuffled.finish = .ok Sketch.shuffledDiagram := rfl
  have hd : Sketch.gatedDiagram.Countable := ⟨by decide +kernel, by decide +kernel⟩
  have hd' : Sketch.shuffledDiagram.Countable := ⟨by decide +kernel, by decide +kernel⟩
  exact ⟨h, h', hd, hd', by decide +kernel,
    (canonicalBytes_eq_iff h h' hd hd').1.mpr Sketch.sameGraph_shuffled⟩

end Diagram

end RuleWiring
