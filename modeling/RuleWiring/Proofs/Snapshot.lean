import Mathlib
import RuleWiring.Proofs.Calls
import RuleWiring.Proofs.CborReading
import RuleWiring.Proofs.Sessions
import RuleWiring.Proofs.TableTexts

/-!
# Frozen tables answer as before

A cache reads its tables when they are asked for; a snapshot holds both, and the cache made from
its bytes has them from the start. The tables come back entry by entry, as they are sorted and
the keys are read from what they were written as. The one thing that bytes do not keep is which
of the values that are no numbers a real was, since all of these have the same bytes. No text
gives such a real, so for tables from texts every request is served exactly as before.
-/

namespace RuleWiring

/-! ## What bytes keep of a real -/

namespace Binary64

/-- The same number, or two values that are none. -/
def Same (x y : Binary64) : Prop := x = y ∨ x.isNaN ∧ y.isNaN

/-- The double that the bytes of a double stand for. -/
def settled (x : Binary64) : Binary64 := if x.isNaN then nan else x

theorem settled_of_isNumber {x : Binary64} (h : x.isNaN = false) : x.settled = x := by
  rw [settled, h]
  rfl

theorem settled_of_isNaN {x : Binary64} (h : x.isNaN) : x.settled = nan := if_pos h

theorem settled_settled (x : Binary64) : x.settled.Settled := by
  intro h
  cases hx : x.isNaN with
  | true => exact settled_of_isNaN hx
  | false =>
      rw [settled_of_isNumber hx, hx] at h
      exact absurd h (by decide)

theorem Settled.settled_eq {x : Binary64} (h : x.Settled) : x.settled = x := by
  cases hx : x.isNaN with
  | true => exact (settled_of_isNaN hx).trans (h hx).symm
  | false => exact settled_of_isNumber hx

theorem InUnit.settled {x : Binary64} (h : x.InUnit) : x.Settled := by
  intro hnan
  rw [h.isNumber] at hnan
  exact absurd hnan (by decide)

theorem same_settled (x : Binary64) : x.Same x.settled := by
  cases hx : x.isNaN with
  | true =>
      rw [settled_of_isNaN hx]
      exact Or.inr ⟨hx, by decide +kernel⟩
  | false => exact Or.inl (settled_of_isNumber hx).symm

theorem real_settled (x : Binary64) : Cbor.real x.settled = Cbor.real x := by
  cases hx : x.isNaN with
  | true =>
      rw [settled_of_isNaN hx, Cbor.real_nan, Cbor.real, if_pos hx]
      rfl
  | false => rw [settled_of_isNumber hx]

end Binary64

/-! ## What bytes keep of a table -/

namespace ParameterRecord

/-- Records that differ at most in which of the values that are no numbers a real is. -/
structure Same (r r' : ParameterRecord) : Prop where
  rotation : r.rotation = r'.rotation
  matchThreshold : r.matchThreshold.Same r'.matchThreshold
  updateProbability : r.updateProbability.Same r'.updateProbability
  mixMode : r.mixMode = r'.mixMode
  invertOnSecondary : r.invertOnSecondary = r'.invertOnSecondary

theorem Same.refl (r : ParameterRecord) : r.Same r := ⟨rfl, .inl rfl, .inl rfl, rfl, rfl⟩

def settled (r : ParameterRecord) : ParameterRecord :=
  { r with matchThreshold := r.matchThreshold.settled
           updateProbability := r.updateProbability.settled }

theorem same_settled (r : ParameterRecord) : r.Same r.settled :=
  ⟨rfl, r.matchThreshold.same_settled, r.updateProbability.same_settled, rfl, rfl⟩

theorem settled_reals {r : ParameterRecord} : ∀ x ∈ r.settled.reals, x.Settled := by
  intro x hx
  rcases List.mem_cons.mp hx with rfl | hx
  · exact Binary64.settled_settled _
  · rw [List.mem_singleton.mp hx]
    exact Binary64.settled_settled _

theorem settled_eq {r : ParameterRecord} (h : ∀ x ∈ r.reals, x.Settled) : r.settled = r := by
  have hthreshold := (h r.matchThreshold (by simp [reals])).settled_eq
  have hprobability := (h r.updateProbability (by simp [reals])).settled_eq
  rw [settled, hthreshold, hprobability]

theorem encode_settled (r : ParameterRecord) :
    Cbor.encode r.settled.toJson = Cbor.encode r.toJson := by
  simp only [toJson, settled, Cbor.encode, Cbor.encodeMembers, Binary64.real_settled]
  rfl

end ParameterRecord

/-- Members with the same names whose values have the same bytes. -/
theorem Cbor.encodeMembers_congr {α : Type} (name : α → String) {f g : α → Json}
    (h : ∀ a, encode (f a) = encode (g a)) : ∀ l : List α,
    encodeMembers (l.map fun a => (name a, f a)) = encodeMembers (l.map fun a => (name a, g a))
  | [] => rfl
  | a :: l => by
      rw [List.map_cons, List.map_cons, encodeMembers, encodeMembers, h a,
        encodeMembers_congr name h l]

theorem Json.fitsMembers_map {α : Type} {P : Binary64 → Prop} {levels : Nat} {name : α → String}
    {f : α → Json} : ∀ {l : List α}, (∀ a ∈ l, (f a).Fits P levels) →
    FitsMembers P levels (l.map fun a => (name a, f a))
  | [], _ => trivial
  | a :: _, h => ⟨h a List.mem_cons_self,
      fitsMembers_map fun x hx => h x (List.mem_cons_of_mem _ hx)⟩

namespace ParameterTable

variable {t : ParameterTable}

def settled (t : ParameterTable) : ParameterTable := ⟨t.entries.map fun e => (e.1, e.2.settled)⟩

theorem Increasing.settled (h : t.Increasing) : t.settled.Increasing := List.pairwise_map.mpr h

theorem get?_settled (t : ParameterTable) (c : Exocode) :
    t.settled.get? c = (t.get? c).map ParameterRecord.settled :=
  Sorted.get?_map_values ParameterRecord.settled c t.entries

theorem settled_reals {x : Binary64} (h : x ∈ t.settled.reals) : x.Settled := by
  obtain ⟨e, he, hx⟩ := List.mem_flatMap.mp h
  obtain ⟨e, _, rfl⟩ := List.mem_map.mp he
  exact ParameterRecord.settled_reals x hx

theorem settled_eq (h : ∀ x ∈ t.reals, x.Settled) : t.settled = t := by
  have hentries : t.entries.map (fun e => (e.1, e.2.settled)) = t.entries := by
    refine (List.map_congr_left fun e he => ?_).trans (List.map_id _)
    have hrecord := ParameterRecord.settled_eq fun x hx =>
      h x (List.mem_flatMap.mpr ⟨e, he, hx⟩)
    rw [hrecord]
    rfl
  rw [settled, hentries]

theorem encode_settled (t : ParameterTable) :
    Cbor.encode t.settled.toJson = Cbor.encode t.toJson := by
  have hmembers := Cbor.encodeMembers_congr (fun e : Exocode × ParameterRecord => e.1.text)
    (fun e => e.2.encode_settled) t.entries
  simp only [toJson, settled, List.map_map, Function.comp_def, Cbor.encode, Cbor.encodeMembers,
    List.length_map, List.length_cons, List.length_nil, hmembers]

/-- A table is nested three levels deep. -/
theorem fits {P : Binary64 → Prop} (h : ∀ x ∈ t.reals, P x) (levels : Nat) :
    t.toJson.Fits P (levels + 3) := by
  have hentries : Json.FitsMembers P (levels + 1)
      (t.entries.map fun e => (e.1.text, e.2.toJson)) :=
    Json.fitsMembers_map fun e he => ParameterRecord.fits
      (fun x hx => h x (List.mem_flatMap.mpr ⟨e, he, hx⟩)) levels
  exact ⟨Nat.succ_pos _, ⟨Nat.succ_pos _, hentries⟩, trivial⟩

end ParameterTable

theorem BridgeTable.fits {P : Binary64 → Prop} (t : BridgeTable) (levels : Nat) :
    t.toJson.Fits P (levels + 2) := by
  have hcodes : Json.FitsMembers P levels (t.codes.map fun e => (e.1, e.2.toJson)) :=
    Json.fitsMembers_map fun _ _ => trivial
  exact ⟨Nat.succ_pos _, ⟨Nat.succ_pos _, hcodes⟩, trivial⟩

/-! ## Both tables -/

namespace TableSnapshot

variable {s : TableSnapshot}

theorem decoder_draft {m : Medium} (hparams : s.params.Increasing) (hbridge : s.bridge.Increasing)
    (hreals : ∀ x ∈ s.params.reals, m.Carries x) : decoder (s.toJson.draft m) = .ok s := by
  rw [toJson, Json.draft, decoder, Decoder.record]
  simp only [Json.draftMembers]
  rw [Decoder.members_field rfl rfl (ParameterTable.decoder_draft hparams hreals),
    Decoder.members_field rfl rfl (BridgeTable.decoder_draft hbridge)]
  rfl

theorem fits {P : Binary64 → Prop} (h : ∀ x ∈ s.params.reals, P x) (levels : Nat) :
    s.toJson.Fits P (levels + 4) :=
  ⟨Nat.succ_pos _, ParameterTable.fits h levels, s.bridge.fits (levels + 1), trivial⟩

theorem encode_settled (params : ParameterTable) (bridge : BridgeTable) :
    Cbor.encode (toJson ⟨params.settled, bridge⟩) = Cbor.encode (toJson ⟨params, bridge⟩) := by
  simp only [toJson, Cbor.encode, Cbor.encodeMembers, params.encode_settled, List.length_cons,
    List.length_nil]

end TableSnapshot

/-! ## Frozen caches -/

namespace TableCache

/-- A cache that can be: of two sources, with any of their tables read or not, or of two tables,
which are sorted. -/
inductive Built (c : TableCache) : Prop where
  | texts {ps bs : TableSource} (h : c.ReadFrom ps bs)
  | tables {params : ParameterTable} {bridge : BridgeTable} (hparams : params.Increasing)
      (hbridge : bridge.Increasing) (h : c = ofTables params bridge)

variable {c : TableCache}

theorem ReadFrom.fromText {ps bs : TableSource} (h : c.ReadFrom ps bs) :
    c.paramsTable.FromText := by
  rw [h.paramsTable, TableCache.paramsTable, ofSources]
  cases ps.contents? with
  | none => exact ParameterTable.fromText_empty
  | some text => exact ParameterTable.fromText_parse text

theorem ReadFrom.bridge_increasing {ps bs : TableSource} (h : c.ReadFrom ps bs) :
    c.bridgeTable.Increasing := by
  rw [h.bridgeTable, TableCache.bridgeTable, ofSources]
  cases bs.contents? with
  | none => exact BridgeTable.increasing_empty
  | some text => exact BridgeTable.increasing_parse text

theorem Built.increasing (h : c.Built) : c.paramsTable.Increasing ∧ c.bridgeTable.Increasing := by
  cases h with
  | texts h => exact ⟨h.fromText.increasing, h.bridge_increasing⟩
  | tables hparams hbridge h =>
      subst h
      exact ⟨hparams, hbridge⟩

/-- **The tables come back from their bytes**, but for which of the values that are no numbers a
real was. -/
theorem ofCbor?_toCbor (h : c.Built) (hlength : (toCbor c).1.length < 2 ^ 64) :
    ofCbor? (toCbor c).1 = some (ofTables c.paramsTable.settled c.bridgeTable) := by
  obtain ⟨hparams, hbridge⟩ := h.increasing
  -- the bytes of the tables are those of the tables that will be read from them
  have hbytes : (toCbor c).1
      = Cbor.encode (TableSnapshot.toJson ⟨c.paramsTable.settled, c.bridgeTable⟩) :=
    (TableSnapshot.encode_settled c.paramsTable c.bridgeTable).symm
  have hfits : (TableSnapshot.toJson ⟨c.paramsTable.settled, c.bridgeTable⟩).Fits
      Binary64.Settled Cbor.depth :=
    TableSnapshot.fits (fun _ hx => ParameterTable.settled_reals hx) 123
  have hdecode := TableSnapshot.decoder_draft (s := ⟨c.paramsTable.settled, c.bridgeTable⟩)
    hparams.settled hbridge fun x _ => Cbor.medium_carries x
  rw [hbytes] at hlength ⊢
  rw [ofCbor?, Cbor.decode?_encode hfits hlength]
  dsimp only
  rw [hdecode]

/-- Tables that have come back have records for the same codes, which differ at most in reals that
are no numbers. -/
theorem mirrors_settled (c : TableCache) :
    c.Mirrors ParameterRecord.Same (ofTables c.paramsTable.settled c.bridgeTable) := by
  refine ⟨fun code => ?_, fun _ => rfl⟩
  have hrestored : (ofTables c.paramsTable.settled c.bridgeTable).paramsTable.get? code
      = (c.paramsTable.get? code).map ParameterRecord.settled := c.paramsTable.get?_settled code
  rw [hrestored]
  cases c.paramsTable.get? code with
  | none => exact .none
  | some r => exact .some r.same_settled

theorem mirrors_settled_eq (h : ∀ x ∈ c.paramsTable.reals, x.Settled) :
    c.Mirrors Eq (ofTables c.paramsTable.settled c.bridgeTable) := by
  rw [ParameterTable.settled_eq h]
  refine ⟨fun code => ?_, fun _ => rfl⟩
  show Option.Rel Eq (c.paramsTable.get? code) (c.paramsTable.get? code)
  cases c.paramsTable.get? code with
  | none => exact .none
  | some r => exact .some rfl

/--
**A cache made from a snapshot answers like the one that was frozen.**

For any patterns and any requests in turn, both give the same provenances and codes, and leave the
same codes on the patterns. The records are the same if the tables come from texts, or hold no
real that bytes do not keep; else they differ at most in which of the values that are no numbers
a real is. It does not matter whether the frozen cache is used as it was before or after. Bytes
count lengths in sixty-four bits, which is the bound on theirs.
-/
theorem restored_answers (h : c.Built) (hlength : (toCbor c).1.length < 2 ^ 64) :
    ∃ restored, ofCbor? (toCbor c).1 = some restored ∧
      ∀ live, live = c ∨ live = (toCbor c).2 →
        ∀ {ι : Type} [DecidableEq ι] (requests : List (Request ι)) (patterns : ι → Pattern),
          RepliesAlike ParameterRecord.Same (Request.serveAll requests patterns live).1
              (Request.serveAll requests patterns restored).1
            ∧ ((∃ ps bs, c.ReadFrom ps bs) ∨ (∀ x ∈ c.paramsTable.reals, x.Settled) →
              (Request.serveAll requests patterns live).1
                = (Request.serveAll requests patterns restored).1) := by
  refine ⟨_, ofCbor?_toCbor h hlength, fun live hlive ι _ requests patterns => ?_⟩
  -- freezing reads both tables, which are the same ones then
  have hlive : ∀ {R}, c.Mirrors R (ofTables c.paramsTable.settled c.bridgeTable) →
      live.Mirrors R (ofTables c.paramsTable.settled c.bridgeTable) := by
    intro R hc
    rcases hlive with rfl | rfl
    · exact hc
    · exact ⟨hc.params, hc.bridge⟩
  constructor
  · exact (Request.serveAll_mirrored ParameterRecord.Same.refl requests patterns _ _
      (hlive c.mirrors_settled)).1
  · intro hkept
    have hsettled : ∀ x ∈ c.paramsTable.reals, x.Settled := by
      rcases hkept with ⟨ps, bs, hread⟩ | hsettled
      · exact fun x hx => (hread.fromText.inUnit x hx).settled
      · exact hsettled
    exact (Request.serveAll_mirrored (R := Eq) (fun _ => rfl) requests patterns _ _
      (hlive (mirrors_settled_eq hsettled))).1.eq

/-- Tables with a row each: the second leads from an id to the code of the first. -/
def bridged : TableCache :=
  ofSources (.text "01101010\t2\t0.7\t7\txor-neighbor\tyes\n")
    (.text "pattern_id\ttitle\texotype_8bit\nadapter\tAdapter\t01101010\n")

/-- The first request gives the pattern its code, by which the second finds the record. -/
theorem restored_answers_bridged : ∃ restored, ofCbor? (toCbor bridged).1 = some restored ∧
    let requests : List (Request Unit) := [.resolve (), .resolve ()]
    let patterns : Unit → Pattern := fun _ => { id := "adapter" }
    let record : ParameterRecord := ⟨2, ⟨0x3fe6666666666666⟩, .one, .xorNeighbor, true⟩
    (Request.serveAll requests patterns bridged).1
        = (Request.serveAll requests patterns restored).1
      ∧ (Request.serveAll requests patterns bridged).1.1
        = [.resolution ⟨record, .fallbackTable, some ⟨106⟩⟩,
            .resolution ⟨record, .table, some ⟨106⟩⟩] := by
  have hread : bridged.ReadFrom _ _ := ReadFrom.fresh _ _
  have hlength : (toCbor bridged).1.length < 2 ^ 64 := by decide +kernel
  obtain ⟨restored, hrestored, hanswers⟩ := restored_answers (.texts hread) hlength
  refine ⟨restored, hrestored, ?_, by decide +kernel⟩
  exact (hanswers bridged (.inl rfl) _ _).2 (.inl ⟨_, _, hread⟩)

end TableCache

end RuleWiring
