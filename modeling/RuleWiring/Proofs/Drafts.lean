import Mathlib
import RuleWiring.Document.Codec

/-!
# Records read back from drafts

A document is written as a structured value, the value as a text or as bytes, and these are
read as a draft. Which draft that is differs between the two forms in a few respects only,
which a `Medium` lists: how a number is shown, and which lists and objects are open. Every
decoder gives back what was written, whatever the medium, as long as the reals come through.
-/

namespace RuleWiring

/-- How a stored form shows what it holds to those who read it. -/
structure Medium where
  nat : Nat → Draft
  real : Binary64 → Draft
  openList : Bool
  /-- Whether an object is open, by the number of its members. -/
  openObject : Nat → Bool
  /-- A whole number is read as what it is. -/
  reads_nat : ∀ {bound n : Nat}, n < bound → Decoder.natBelow bound (nat n) = .ok n

/-- A real that comes through a medium. -/
def Medium.Carries (m : Medium) (x : Binary64) : Prop := Decoder.real (m.real x) = .ok x

namespace Json

mutual

/-- What is found when the value is read. -/
def draft (m : Medium) : Json → Draft
  | .null => .null
  | .bool b => .bool b
  | .nat n => m.nat n
  | .real x => m.real x
  | .text s => .text s
  | .list items => .list (draftItems m items) none m.openList
  | .object members => .object (draftMembers m members) none (m.openObject members.length)

def draftItems (m : Medium) : List Json → List Draft
  | [] => []
  | v :: rest => draft m v :: draftItems m rest

def draftMembers (m : Medium) : List (String × Json) → List (Key × Draft)
  | [] => []
  | (k, v) :: rest => (.name k, draft m v) :: draftMembers m rest

end

mutual

/-- A value that can be stored: its whole numbers fit in sixty-four bits, its reals have a
property, and lists and objects lie within one another no deeper than a number of levels. -/
def Fits (P : Binary64 → Prop) (levels : Nat) : Json → Prop
  | .nat n => n < 2 ^ 64
  | .real x => P x
  | .list items => 0 < levels ∧ FitsItems P (levels - 1) items
  | .object members => 0 < levels ∧ FitsMembers P (levels - 1) members
  | _ => True

def FitsItems (P : Binary64 → Prop) (levels : Nat) : List Json → Prop
  | [] => True
  | v :: rest => Fits P levels v ∧ FitsItems P levels rest

def FitsMembers (P : Binary64 → Prop) (levels : Nat) : List (String × Json) → Prop
  | [] => True
  | (_, v) :: rest => Fits P levels v ∧ FitsMembers P levels rest

end

theorem draftMembers_append (m : Medium) : ∀ l l' : List (String × Json),
    draftMembers m (l ++ l') = draftMembers m l ++ draftMembers m l'
  | [], _ => rfl
  | (k, v) :: l, l' => by
      rw [List.cons_append, draftMembers, draftMembers, draftMembers_append m l l',
        List.cons_append]

end Json

variable {m : Medium}

/-! ## Members of records -/

namespace Decoder

variable {α σ : Type} {fields : List (Field σ)} {name : String} {defaulted : Bool} {s : σ}
  {rest : List (Key × Draft)}

/-- A field that is still free takes the value of the member with its name. -/
theorem members_field {get : σ → Option α} {set : σ → α → σ} {decode : Decoder α} {a : α}
    {d : Draft} (hfind : fields.find? (·.name = name) = some (field name defaulted get set decode))
    (hfree : get s = none) (hd : decode d = .ok a) :
    members fields s ((.name name, d) :: rest) none = members fields (set s a) rest none := by
  rw [members, Field.find?, hfind]
  dsimp only
  rw [field]
  dsimp only
  rw [hfree, hd]
  rfl

/-- A member that may be left out sets its field only where it is there. -/
theorem members_optional {get : σ → Option (Option α)} {set : σ → Option α → σ}
    {decode : Decoder (Option α)} {f : α → Json} (o : Option α)
    (hfind : fields.find? (·.name = name) = some (field name defaulted get set decode))
    (hfree : get s = none) (hd : ∀ a, o = some a → decode ((f a).draft m) = .ok (some a)) :
    members fields s (Json.draftMembers m (Json.optional name f o) ++ rest) none
      = members fields (o.elim s fun a => set s (some a)) rest none := by
  cases o with
  | none => rfl
  | some a =>
      have hset : members fields s ((.name name, (f a).draft m) :: rest) none
          = members fields (set s (some a)) rest none := members_field hfind hfree (hd a rfl)
      exact hset

/-- All items of a list are read back if each of them is. -/
theorem items_draft {decode : Decoder α} {f : α → Json} : ∀ (l : List α),
    (∀ a ∈ l, decode ((f a).draft m) = .ok a) →
    items decode (Json.draftItems m (l.map f)) none = .ok l
  | [], _ => rfl
  | a :: l, h => by
      rw [List.map_cons, Json.draftItems, items, h a (List.mem_cons_self ..)]
      dsimp only
      rw [items_draft l fun x hx => h x (List.mem_cons_of_mem _ hx)]
      rfl

theorem word32_draft (n : UInt32) : word32 (m.nat n.toNat) = .ok n := by
  rw [word32, m.reads_nat n.toNat_lt]
  exact congrArg Except.ok UInt32.ofNat_toNat

end Decoder

/-! ## Codes and names -/

theorem Text.dropWhile_nonblank {cs : List Char} (h : ∀ c ∈ cs, isBlank c = false) :
    cs.dropWhile isBlank = cs := by
  cases cs with
  | nil => rfl
  | cons c cs => exact List.dropWhile_cons_of_neg (by simp [h c])

theorem Text.trimChars_nonblank {cs : List Char} (h : ∀ c ∈ cs, isBlank c = false) :
    trimChars cs = cs := by
  rw [trimChars, stripChars, dropWhile_nonblank h,
    dropWhile_nonblank fun c hc => h c (List.mem_reverse.mp hc), List.reverse_reverse]

namespace Exocode

/-- The digits of a code, the highest first. -/
def bits (c : Exocode) : List Char :=
  [7, 6, 5, 4, 3, 2, 1, 0].map fun i => if c.bit i then '1' else '0'

theorem mem_bits {c : Exocode} {b : Char} (h : b ∈ c.bits) : b = '0' ∨ b = '1' := by
  obtain ⟨i, _, rfl⟩ := List.mem_map.mp h
  split
  · exact Or.inr rfl
  · exact Or.inl rfl

theorem ofDigits_bits (c : Exocode) : ofDigits c.bits = c := by
  obtain ⟨v⟩ := c
  revert v
  decide +kernel

theorem parse_text (c : Exocode) : parse c.text = .ok c := by
  have htrim : Text.trim c.text = c.text := by
    have hbits : Text.trimChars c.bits = c.bits := by
      refine Text.trimChars_nonblank fun b hb => ?_
      rcases mem_bits hb with rfl | rfl <;> rfl
    rw [Text.trim, text, String.toList_ofList]
    exact congrArg String.ofList hbits
  have hlist : c.text.toList = c.bits := String.toList_ofList
  have hall : c.bits.all (fun b => b = '0' || b = '1') := by
    refine List.all_eq_true.mpr fun b hb => ?_
    rcases mem_bits hb with rfl | rfl <;> rfl
  rw [parse, htrim]
  simp only [hlist]
  rw [if_pos ⟨rfl, hall⟩, ofDigits_bits]

theorem decoder_draft (c : Exocode) : decoder (c.toJson.draft m) = .ok c := by
  simp only [toJson, Json.draft, decoder, Decoder.parsed, Decoder.checked, Decoder.text, parse_text]
  rfl

end Exocode

theorem MixMode.decoder_draft (x : MixMode) : decoder (x.toJson.draft m) = .ok x := by
  have hname : ofText x.name = x := by cases x <;> decide
  simp only [toJson, Json.draft, decoder, Decoder.parsed, Decoder.checked, Decoder.text, hname]

theorem Provenance.decoder_draft (x : Provenance) : decoder (x.toJson.draft m) = .ok x := by
  cases x <;> rfl

/-! ## Literals -/

/-- The real numbers among what a record holds. -/
def Literal.reals : Literal → List Binary64
  | .real x => [x]
  | _ => []

namespace Literal

/-- A value behind its type is read as the type says. -/
theorem decoderAt_typed {type : String} {d : Draft} {decode : Decoder Literal} {l : Literal}
    (htype : typeDecoder (.text type) = .ok decode) (hd : decode d = .ok l) (depth : Nat)
    (isOpen : Bool) :
    decoderAt depth (.object [(.name "type", .text type), (.name "value", d)] none isOpen)
      = .ok l := by
  have hfirst : nextPart [(.name "type", .text type), (.name "value", d)] none
      = .ok (some (.type, .text type, [(.name "value", d)])) := rfl
  have hsecond : nextPart [(.name "value", d)] none = .ok (some (.value, d, [])) := rfl
  rw [decoderAt, hfirst]
  dsimp only
  rw [htype]
  dsimp only
  rw [hsecond]
  dsimp only
  rw [hd]
  rfl

theorem decoderAt_draft {l : Literal} (h : ∀ x ∈ l.reals, m.Carries x) (depth : Nat) :
    decoderAt depth (l.toJson.draft m) = .ok l := by
  cases l with
  | int n =>
      have hn : (Decoder.word32 (m.nat n.toNat)).map Literal.int = .ok (.int n) := by
        rw [Decoder.word32_draft]
        rfl
      exact decoderAt_typed rfl hn depth _
  | real x =>
      have hx : (Decoder.real (m.real x)).map Literal.real = .ok (.real x) := by
        rw [show Decoder.real (m.real x) = .ok x from h x (List.mem_singleton.mpr rfl)]
        rfl
      exact decoderAt_typed rfl hx depth _
  | bool b => exact decoderAt_typed rfl rfl depth _

end Literal

/-! ## Parameters -/

namespace ParameterRecord

def reals (r : ParameterRecord) : List Binary64 := [r.matchThreshold, r.updateProbability]

theorem decoder_draft {r : ParameterRecord} (h : ∀ x ∈ r.reals, m.Carries x) :
    decoder (r.toJson.draft m) = .ok r := by
  have hthreshold : Decoder.real (m.real r.matchThreshold) = .ok r.matchThreshold :=
    h _ (List.mem_cons_self ..)
  have hprobability : Decoder.real (m.real r.updateProbability) = .ok r.updateProbability :=
    h _ (List.mem_cons_of_mem _ (List.mem_cons_self ..))
  have hmembers : Decoder.members fields {} (Json.draftMembers m [
      ("rotation", .nat r.rotation.toNat),
      ("match-threshold", .real r.matchThreshold),
      ("update-probability", .real r.updateProbability),
      ("mix-mode", r.mixMode.toJson),
      ("invert-on-secondary", .bool r.invertOnSecondary)]) none = .ok (.ofRecord r) := by
    simp only [Json.draftMembers, Json.draft]
    rw [Decoder.members_field rfl rfl (Decoder.word32_draft _),
      Decoder.members_field rfl rfl hthreshold,
      Decoder.members_field rfl rfl hprobability,
      Decoder.members_field rfl rfl (MixMode.decoder_draft _),
      Decoder.members_field (a := r.invertOnSecondary) rfl rfl rfl]
    rfl
  rw [decoder, toJson, Json.draft, Decoder.record, hmembers]
  rfl

end ParameterRecord

/-! ## Metadata -/

theorem Exocode.optional_draft (c : Exocode) :
    Decoder.optional decoder (c.toJson.draft m) = .ok (some c) := by
  have hc : (decoder (c.toJson.draft m)).map some = .ok (some c) := by
    rw [decoder_draft]
    rfl
  exact hc

namespace Metadata

theorem decoder_draft {x : Metadata} (h : ∀ r ∈ x.params.reals, m.Carries r) :
    decoder (x.toJson.draft m) = .ok x := by
  obtain ⟨id, title, code, provenance, params, formula⟩ := x
  have hmembers : Decoder.members fields {} (Json.draftMembers m (("id", .text id)
        :: Json.optional "title" .text title
        ++ Json.optional "bits" Exocode.toJson code
        ++ [("provenance", provenance.toJson), ("params", params.toJson)]
        ++ Json.optional "formula" .text formula)) none
      = .ok ⟨some id, title.map some, code.map some, some provenance, some params,
          formula.map some⟩ := by
    simp only [Json.draftMembers, Json.draftMembers_append, List.cons_append, List.append_assoc,
      List.nil_append]
    rw [← List.append_nil (Json.draftMembers m (Json.optional "formula" _ _)),
      Decoder.members_field (a := id) rfl rfl rfl,
      Decoder.members_optional title rfl rfl fun _ _ => rfl,
      -- whether a field is free does not depend on which of the others are set
      Decoder.members_optional code rfl (by cases title <;> rfl)
        fun c _ => Exocode.optional_draft c,
      Decoder.members_field rfl (by cases title <;> cases code <;> rfl)
        (Provenance.decoder_draft provenance),
      Decoder.members_field rfl (by cases title <;> cases code <;> rfl)
        (ParameterRecord.decoder_draft h),
      Decoder.members_optional formula rfl (by cases title <;> cases code <;> rfl)
        fun _ _ => rfl]
    cases title <;> cases code <;> cases formula <;> rfl
  rw [decoder, toJson, Json.draft, Decoder.record, hmembers]
  cases title <;> cases code <;> cases formula <;> rfl

end Metadata

/-! ## Nodes and edges -/

theorem NodeEntry.decoder_draft (e : NodeEntry) : decoder (e.toJson.draft m) = .ok e := by
  obtain ⟨id, component⟩ := e
  rw [toJson, Json.draft, decoder, Decoder.record]
  simp only [Json.draftMembers, Json.draft]
  rw [Decoder.members_field (a := id) rfl rfl rfl,
    Decoder.members_field (a := component) rfl rfl rfl]
  rfl

theorem Literal.optional_draft {l : Literal} (h : ∀ x ∈ l.reals, m.Carries x) (depth : Nat) :
    Decoder.optional (decoderAt depth) (l.toJson.draft m) = .ok (some l) := by
  have hl : (decoderAt depth (l.toJson.draft m)).map some = .ok (some l) := by
    rw [decoderAt_draft h]
    rfl
  exact hl

namespace EdgeEntry

def reals (e : EdgeEntry) : List Binary64 := e.literal.elim [] Literal.reals

theorem decoder_draft {e : EdgeEntry} (h : ∀ x ∈ e.reals, m.Carries x) :
    decoder (e.toJson.draft m) = .ok e := by
  obtain ⟨source, sourcePort, literal, target, targetPort⟩ := e
  have hliteral : ∀ l, literal = some l →
      Decoder.optional (Literal.decoderAt literalDepth) (l.toJson.draft m) = .ok (some l) := by
    rintro l rfl
    exact Literal.optional_draft h literalDepth
  have hmembers : Decoder.members fields {} (Json.draftMembers m (
        Json.optional "from" .text source
        ++ Json.optional "from-port" .text sourcePort
        ++ Json.optional "literal" Literal.toJson literal
        ++ [("to", .text target)]
        ++ Json.optional "to-port" .text targetPort)) none
      = .ok ⟨source.map some, sourcePort.map some, literal.map some, some target,
          targetPort.map some⟩ := by
    simp only [Json.draftMembers, Json.draftMembers_append, List.cons_append, List.append_assoc,
      List.nil_append]
    rw [← List.append_nil (Json.draftMembers m (Json.optional "to-port" _ _)),
      Decoder.members_optional source rfl rfl fun _ _ => rfl,
      Decoder.members_optional sourcePort rfl (by cases source <;> rfl) fun _ _ => rfl,
      Decoder.members_optional literal rfl (by cases source <;> cases sourcePort <;> rfl) hliteral,
      Decoder.members_field (a := target) rfl
        (by cases source <;> cases sourcePort <;> cases literal <;> rfl) rfl,
      Decoder.members_optional targetPort rfl
        (by cases source <;> cases sourcePort <;> cases literal <;> rfl) fun _ _ => rfl]
    cases source <;> cases sourcePort <;> cases literal <;> cases targetPort <;> rfl
  rw [decoder, toJson, Json.draft, Decoder.record, hmembers]
  cases source <;> cases sourcePort <;> cases literal <;> cases targetPort <;> rfl

end EdgeEntry

/-! ## Documents -/

/-- The graph of a document as a structured value. -/
def GraphSection.toJson (g : GraphSection) : Json :=
  .object [
    ("nodes", .list (g.nodes.map NodeEntry.toJson)),
    ("edges", .list (g.edges.map EdgeEntry.toJson)),
    ("output", .text g.output)]

theorem GraphSection.decoder_draft {g : GraphSection}
    (h : ∀ e ∈ g.edges, ∀ x ∈ e.reals, m.Carries x) : decoder (g.toJson.draft m) = .ok g := by
  obtain ⟨nodes, edges, output⟩ := g
  have hnodes := Decoder.items_draft (m := m) nodes fun e _ => NodeEntry.decoder_draft e
  have hedges := Decoder.items_draft edges fun e he => EdgeEntry.decoder_draft (h e he)
  rw [toJson, Json.draft, decoder, Decoder.record]
  simp only [Json.draftMembers, Json.draft]
  rw [Decoder.members_field rfl rfl hnodes, Decoder.members_field rfl rfl hedges,
    Decoder.members_field (a := output) rfl rfl rfl]
  rfl

namespace Document

def reals (d : Document) : List Binary64 :=
  d.metadata.params.reals ++ d.edges.flatMap EdgeEntry.reals

/-- A document is read back through every medium that carries its reals. -/
theorem decoder_draft {d : Document} (h : ∀ x ∈ d.reals, m.Carries x) :
    decoder (d.toJson.draft m) = .ok d := by
  have hmetadata := Metadata.decoder_draft fun x hx => h x (List.mem_append_left _ hx)
  have hgraph := GraphSection.decoder_draft (m := m) (g := ⟨d.nodes, d.edges, d.output⟩)
    fun e he x hx => h x (List.mem_append_right _ (List.mem_flatMap.mpr ⟨e, he, hx⟩))
  have hjson : d.toJson = .object [
      ("meta", d.metadata.toJson),
      ("diagram", GraphSection.toJson ⟨d.nodes, d.edges, d.output⟩),
      ("interpretation", .text d.interpretation)] := rfl
  rw [hjson, Json.draft, decoder, Decoder.record]
  simp only [Json.draftMembers]
  rw [Decoder.members_field rfl rfl hmetadata, Decoder.members_field rfl rfl hgraph,
    Decoder.members_field (a := d.interpretation) rfl rfl rfl]
  rfl

end Document

/-! ## Documents can be stored -/

section Fits

variable {P : Binary64 → Prop}

theorem Json.fitsMembers_append {levels : Nat} : ∀ {l l' : List (String × Json)},
    FitsMembers P levels l → FitsMembers P levels l' → FitsMembers P levels (l ++ l')
  | [], _, _, h' => h'
  | _ :: _, _, h, h' => ⟨h.1, fitsMembers_append h.2 h'⟩

theorem Json.fitsMembers_optional {α : Type} {levels : Nat} {name : String} {f : α → Json}
    {o : Option α} (h : ∀ a, o = some a → (f a).Fits P levels) :
    FitsMembers P levels (optional name f o) := by
  cases o with
  | none => trivial
  | some a => exact ⟨h a rfl, trivial⟩

theorem Json.fitsItems_map {α : Type} {levels : Nat} {f : α → Json} : ∀ {l : List α},
    (∀ a ∈ l, (f a).Fits P levels) → FitsItems P levels (l.map f)
  | [], _ => trivial
  | a :: _, h => ⟨h a (List.mem_cons_self ..),
      fitsItems_map fun x hx => h x (List.mem_cons_of_mem _ hx)⟩

theorem Json.fits_word {levels : Nat} (n : UInt32) : (Json.nat n.toNat).Fits P levels := by
  have h := n.toNat_lt
  exact Nat.lt_trans h (by decide)

theorem Literal.fits {l : Literal} (h : ∀ x ∈ l.reals, P x) (levels : Nat) :
    l.toJson.Fits P (levels + 1) := by
  refine ⟨Nat.succ_pos _, trivial, ?_, trivial⟩
  cases l with
  | int n => exact Json.fits_word n
  | real x => exact h x (List.mem_singleton.mpr rfl)
  | bool b => trivial

theorem ParameterRecord.fits {r : ParameterRecord} (h : ∀ x ∈ r.reals, P x) (levels : Nat) :
    r.toJson.Fits P (levels + 1) :=
  ⟨Nat.succ_pos _, Json.fits_word _, h _ (List.mem_cons_self ..),
    h _ (List.mem_cons_of_mem _ (List.mem_cons_self ..)), trivial, trivial, trivial⟩

theorem Metadata.fits {x : Metadata} (h : ∀ r ∈ x.params.reals, P r) (levels : Nat) :
    x.toJson.Fits P (levels + 2) := by
  refine ⟨Nat.succ_pos _, trivial, ?_⟩
  refine Json.fitsMembers_append (Json.fitsMembers_append (Json.fitsMembers_append ?_ ?_) ?_) ?_
  · exact Json.fitsMembers_optional fun _ _ => trivial
  · exact Json.fitsMembers_optional fun _ _ => trivial
  · exact ⟨trivial, ParameterRecord.fits h levels, trivial⟩
  · exact Json.fitsMembers_optional fun _ _ => trivial

theorem EdgeEntry.fits {e : EdgeEntry} (h : ∀ x ∈ e.reals, P x) (levels : Nat) :
    e.toJson.Fits P (levels + 2) := by
  refine ⟨Nat.succ_pos _, ?_⟩
  refine Json.fitsMembers_append (Json.fitsMembers_append (Json.fitsMembers_append
    (Json.fitsMembers_append ?_ ?_) ?_) ?_) ?_
  · exact Json.fitsMembers_optional fun _ _ => trivial
  · exact Json.fitsMembers_optional fun _ _ => trivial
  · refine Json.fitsMembers_optional fun l hl => Literal.fits (fun x hx => h x ?_) levels
    rw [reals, hl]
    exact hx
  · exact ⟨trivial, trivial⟩
  · exact Json.fitsMembers_optional fun _ _ => trivial

/-- The values of a document lie at most five levels deep. -/
theorem Document.fits {d : Document} (h : ∀ x ∈ d.reals, P x) (levels : Nat) :
    d.toJson.Fits P (levels + 5) := by
  have hmetadata : d.metadata.toJson.Fits P (levels + 4) :=
    Metadata.fits (fun x hx => h x (List.mem_append_left _ hx)) (levels + 2)
  have hnodes : Json.FitsItems P (levels + 2) (d.nodes.map NodeEntry.toJson) :=
    Json.fitsItems_map fun _ _ => ⟨Nat.succ_pos _, trivial, trivial, trivial⟩
  have hedges : Json.FitsItems P (levels + 2) (d.edges.map EdgeEntry.toJson) := by
    refine Json.fitsItems_map fun e he => EdgeEntry.fits (fun x hx => h x ?_) levels
    exact List.mem_append_right _ (List.mem_flatMap.mpr ⟨e, he, hx⟩)
  exact ⟨Nat.succ_pos _, hmetadata, ⟨Nat.succ_pos _, ⟨Nat.succ_pos _, hnodes⟩,
    ⟨Nat.succ_pos _, hedges⟩, trivial, trivial⟩, trivial, trivial⟩

end Fits

end RuleWiring
