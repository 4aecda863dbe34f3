import Mathlib
import RuleWiring.Proofs.Canonical

/-!
# Messages of different domains

What is hashed shows the length of the data, but not that of the domain: the domain ends where the
tag begins, and a domain may itself contain the tag. The tag does not overlap itself. So if two
different pairs of a domain and data have one message, then one of the domains goes on behind the
tag of the other and takes in a part of the other's data, with a second tag behind it (`Overruns`).
This does happen. It does not happen to domains of which neither begins with the other and its tag,
and the domains in use are such.
-/

namespace RuleWiring

open Bytes

namespace Fingerprint

/-- The word behind a domain. -/
def tag : List UInt8 := ofText ":v1"

/-- Data behind its length. -/
def counted (data : List UInt8) : List UInt8 := littleEndian 8 data.length ++ data

/-- The second domain goes on behind the tag of the first. The word that it has there is the
beginning of the first's counted data, and the rest of them are the second's tag and data. -/
def Overruns (domain data domain' data' : List UInt8) : Prop :=
  ∃ word, domain' = domain ++ tag ++ word ∧ counted data = word ++ tag ++ counted data'

variable {domain domain' data data' : List UInt8}

theorem message_eq (domain data : List UInt8) :
    message domain data = ofText "SGW:" ++ (domain ++ (tag ++ counted data)) := by
  simp only [message, tag, counted, List.append_assoc]

theorem counted_injective : Function.Injective counted := by
  intro data data' h
  exact (List.append_inj h (by rw [length_littleEndian, length_littleEndian])).2

/-- **The tag does not overlap itself.** Where it comes a second time, it comes behind the first. -/
theorem tag_append {word r s : List UInt8} (h : tag ++ r = word ++ (tag ++ s)) :
    word = [] ∨ ∃ rest, word = tag ++ rest ∧ r = rest ++ (tag ++ s) := by
  have htag : tag = [58, 118, 49] := by decide +kernel
  rw [htag] at h ⊢
  -- a word of one or two bytes would put the beginning of the tag where its middle or its end is
  match word, h with
  | [], _ => exact .inl rfl
  | [a], h => simp at h
  | [a, b], h => simp at h
  | a :: b :: c :: rest, h =>
      simp only [List.cons_append, List.nil_append, List.cons.injEq] at h ⊢
      obtain ⟨rfl, rfl, rfl, h⟩ := h
      exact .inr ⟨rest, ⟨rfl, rfl, rfl, rfl⟩, h⟩

theorem Overruns.message_eq (h : Overruns domain data domain' data') :
    message domain data = message domain' data' := by
  obtain ⟨word, rfl, hdata⟩ := h
  rw [Fingerprint.message_eq, Fingerprint.message_eq, hdata]
  simp only [List.append_assoc]

theorem Overruns.isPrefix (h : Overruns domain data domain' data') : domain ++ tag <+: domain' := by
  obtain ⟨word, rfl, _⟩ := h
  exact List.prefix_append ..

/-- A longer domain is the same one, or overruns the shorter. -/
theorem overruns_of_append {word : List UInt8}
    (h : tag ++ counted data = word ++ (tag ++ counted data')) :
    (domain = domain ++ word ∧ data = data') ∨ Overruns domain data (domain ++ word) data' := by
  rcases tag_append h with rfl | ⟨rest, rfl, hrest⟩
  · exact .inl ⟨(List.append_nil _).symm, counted_injective (List.append_cancel_left h)⟩
  · exact .inr ⟨rest, (List.append_assoc ..).symm, by rw [hrest, List.append_assoc]⟩

/-- **When two messages are equal.** -/
theorem message_eq_iff : message domain data = message domain' data' ↔
    (domain = domain' ∧ data = data') ∨ Overruns domain data domain' data'
      ∨ Overruns domain' data' domain data := by
  constructor
  · intro h
    rw [message_eq, message_eq] at h
    rcases List.append_eq_append_iff.mp (List.append_cancel_left h) with
      ⟨word, rfl, hword⟩ | ⟨word, rfl, hword⟩
    · exact (overruns_of_append hword).imp_right .inl
    · exact (overruns_of_append hword).imp (fun hsame => ⟨hsame.1.symm, hsame.2.symm⟩) .inr
  · rintro (⟨rfl, rfl⟩ | h | h)
    · rfl
    · exact h.message_eq
    · exact h.message_eq.symm

/-- Neither of the two domains in use begins with the other. -/
theorem used_apart : ¬ diagramDomain ++ tag <+: parameterDomain
    ∧ ¬ parameterDomain ++ tag <+: diagramDomain := by
  decide +kernel

/--
**Messages are told apart unless one domain overruns the other.**

Domains and data are arbitrary words, which may contain the tag and anything that looks like a
length. Two messages are equal exactly if domain and data are the same, or if one of the domains
overruns the other. Hence different pairs have different messages if neither domain begins with the
other and its tag, as is the case with equal domains and with the two that are in use.
-/
theorem message_separates (domain domain' data data' : List UInt8) :
    (message domain data = message domain' data' ↔
      (domain = domain' ∧ data = data') ∨ Overruns domain data domain' data'
        ∨ Overruns domain' data' domain data)
      ∧ (¬ domain ++ tag <+: domain' → ¬ domain' ++ tag <+: domain →
        (domain, data) ≠ (domain', data') → message domain data ≠ message domain' data')
      ∧ (data ≠ data' → message domain data ≠ message domain data')
      ∧ message diagramDomain data ≠ message parameterDomain data' := by
  refine ⟨message_eq_iff, fun hnot hnot' hne h => ?_, fun hne h => hne ?_, fun h => ?_⟩
  · rcases message_eq_iff.mp h with ⟨rfl, rfl⟩ | h | h
    · exact hne rfl
    · exact hnot h.isPrefix
    · exact hnot' h.isPrefix
  · exact message_injective domain h
  · rcases message_eq_iff.mp h with ⟨hsame, _⟩ | h | h
    · exact absurd hsame (by decide +kernel)
    · exact used_apart.1 h.isPrefix
    · exact used_apart.2 h.isPrefix

/-- Both domains contain the tag and the longer one begins with the shorter, but not with its tag. -/
theorem message_separates_tagged :
    let domain := ofText "A:v1"
    let domain' := ofText "A:v1B:v1"
    (¬ domain ++ tag <+: domain') ∧ (¬ domain' ++ tag <+: domain)
      ∧ message domain (ofText "B:v1") ≠ message domain' [] := by
  have hnot : ¬ ofText "A:v1" ++ tag <+: ofText "A:v1B:v1" := by decide +kernel
  have hnot' : ¬ ofText "A:v1B:v1" ++ tag <+: ofText "A:v1" := by decide +kernel
  exact ⟨hnot, hnot', (message_separates (ofText "A:v1") (ofText "A:v1B:v1") (ofText "B:v1") []).2.1
    hnot hnot' (by decide +kernel)⟩

/-- The domain `A` with eleven bytes of data, and the domain that takes in the length of these and
has no data. -/
theorem message_overrun :
    let domain := ofText "A"
    let data := tag ++ littleEndian 8 0
    let domain' := ofText "A:v1" ++ littleEndian 8 11
    let data' : List UInt8 := []
    (domain, data) ≠ (domain', data') ∧ data.length < 2 ^ 64 ∧ data'.length < 2 ^ 64
      ∧ message domain data = message domain' data' := by
  decide +kernel

end Fingerprint

end RuleWiring
