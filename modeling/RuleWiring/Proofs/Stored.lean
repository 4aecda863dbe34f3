import Mathlib
import RuleWiring.Proofs.CborReading
import RuleWiring.Proofs.Restored
import RuleWiring.Proofs.TextReading

/-!
# Stored diagrams come back

A diagram that was accepted is given back by its document, by its bytes and by its text. The
document is the heart of it: positions become ids and positions again, every check is made a
second time, and the order comes out the same. Bytes and texts only have to carry the
document. Bytes keep all finite reals; a text keeps those whose decimal numeral is read as
the double it was written for, which rounding may fail to do.
-/

namespace RuleWiring

/-- The numeral of a double is read back as this double. -/
def Binary64.Legible (x : Binary64) : Prop := Decoder.real.run x.scientific = .ok x

instance (x : Binary64) : Decidable x.Legible :=
  inferInstanceAs (Decidable (Decoder.real.run x.scientific = .ok x))

/-- A text carries the reals whose numerals it gives back. -/
theorem Binary64.Legible.carries {x : Binary64} (h : x.Legible) (hfinite : x.isFinite) :
    Draft.medium.Carries x := by
  have htext : String.ofList (Json.realText x) = x.scientific := by
    rw [Json.realText, if_pos hfinite, String.ofList_toList]
  rw [Medium.Carries, Draft.medium_real, htext]
  rw [Legible, Decoder.run] at h
  dsimp only at h
  split at h
  · exact absurd h (by simp)
  · rename_i y hy
    split at h
    · injection h with h
      rw [hy, h]
    · exact absurd h (by simp)

namespace Sketch

/-- A gate under a threshold of three tenths, with texts that have to be escaped and
parameters that are written with and without an exponent. -/
def graded : Sketch :=
  let params : ParameterRecord := {
    rotation := 7
    matchThreshold := ⟨0x3fd3333333333333⟩
    updateProbability := ⟨0x3e7ad7f29abcaf48⟩
    mixMode := .swapHalves }
  let s : Sketch := {
    metadata := { id := "graded", title := some "a \"graded\" rule\n", code := some ⟨110⟩, params }
    interpretation := "above → it \\ below → its neighbour" }
  let s := ((s.addNode "self\t" .self).addNode "pred" .pred).addNode "all" .neighbors
  let s := ((s.addNode "score" .diversity).addNode "gate" .thresholdSelect).addNode "out" .output
  let s := ((s.wirePositional 2 3).wire 0 4 .above).wire 1 4 .below
  ((s.wirePositional 3 4).literal (.real ⟨0x3fd3333333333333⟩) 4 none).wirePositional 4 5

/-- What becomes of `graded`. -/
def gradedDiagram : Diagram := graded.finish.toOption.get rfl

end Sketch

namespace Diagram

/-- The reals of a diagram: two of its parameters, and its real literals. -/
def reals (d : Diagram) : List Binary64 :=
  d.metadata.params.reals ++ d.edges.flatMap fun e =>
    match e.source with
    | .node _ => []
    | .literal l => l.reals

theorem reals_toDocument (d : Diagram) : d.toDocument.reals = d.reals := by
  have hedge : ∀ e : Edge, (d.edgeEntry e).reals
      = match e.source with
        | .node _ => []
        | .literal l => l.reals := by
    rintro ⟨source, target, port⟩
    cases source <;> rfl
  rw [Document.reals, reals, toDocument]
  simp only [List.flatMap_map, hedge]

theorem documentOfCbor?_toCbor {d : Diagram} (hfinite : ∀ x ∈ d.reals, x.isFinite)
    (hlength : d.toCbor.length < 2 ^ 64) : documentOfCbor? d.toCbor = some d.toDocument := by
  rw [← reals_toDocument] at hfinite
  have hfits : d.toDocument.toJson.Fits Binary64.Settled Cbor.depth :=
    Document.fits (fun x hx => Binary64.settled_of_isFinite (hfinite x hx)) 122
  have hdecode : Document.decoder (d.toDocument.toJson.draft Cbor.medium) = .ok d.toDocument :=
    Document.decoder_draft fun x _ => Cbor.medium_carries x
  rw [documentOfCbor?, toCbor, Cbor.decode?_encode hfits hlength]
  dsimp only
  rw [hdecode]
  rfl

theorem run_toText {d : Diagram} (hreals : ∀ x ∈ d.reals, x.isFinite ∧ x.Legible) :
    Document.decoder.run d.toText = .ok d.toDocument := by
  rw [← reals_toDocument] at hreals
  have hfits : d.toDocument.toJson.Fits (fun _ => True) (0 + 5) :=
    Document.fits (fun _ _ => trivial) 0
  have hdecode : Document.decoder (d.toDocument.toJson.draft Draft.medium) = .ok d.toDocument :=
    Document.decoder_draft fun x hx => (hreals x hx).2.carries (hreals x hx).1
  rw [Decoder.run, toText, Draft.ofText_toPretty hfits]
  dsimp only
  rw [hdecode]
  rfl

/--
**A stored diagram is read back as it was.**

Every diagram that a sketch becomes is the diagram of its document, in all its fields. If its
reals are finite, its bytes give it back, and so does its text if the numerals of its reals
are read back. Bytes count lengths in sixty-four bits, which is the bound on theirs.
-/
theorem stored_exact {s : Sketch} {d : Diagram} (h : s.finish = .ok d) :
    d.toDocument.toDiagram = .ok d
      ∧ ((∀ x ∈ d.reals, x.isFinite) →
          (d.toCbor.length < 2 ^ 64 → ofCbor d.toCbor = .ok d)
            ∧ ((∀ x ∈ d.reals, x.Legible) → ofText d.toText = .ok d)) := by
  have hdocument := (Sketch.finish_passed h).toDiagram_toDocument
  have hof : ofDocument d.toDocument = .ok d := by rw [ofDocument, hdocument]
  refine ⟨hdocument, fun hfinite => ⟨fun hlength => ?_, fun hlegible => ?_⟩⟩
  · rw [ofCbor, documentOfCbor?_toCbor hfinite hlength]
    exact hof
  · rw [ofText, run_toText fun x hx => ⟨hfinite x hx, hlegible x hx⟩]
    exact hof

theorem stored_exact_graded : Sketch.graded.finish = .ok Sketch.gradedDiagram
    ∧ Sketch.gradedDiagram.toDocument.toDiagram = .ok Sketch.gradedDiagram
    ∧ ofCbor Sketch.gradedDiagram.toCbor = .ok Sketch.gradedDiagram
    ∧ ofText Sketch.gradedDiagram.toText = .ok Sketch.gradedDiagram := by
  have hfinite : ∀ x ∈ Sketch.gradedDiagram.reals, x.isFinite := by decide +kernel
  have hlength : Sketch.gradedDiagram.toCbor.length < 2 ^ 64 := by decide +kernel
  have hlegible : ∀ x ∈ Sketch.gradedDiagram.reals, x.Legible := by decide +kernel
  obtain ⟨hdocument, hstored⟩ := stored_exact (s := Sketch.graded) rfl
  obtain ⟨hcbor, htext⟩ := hstored hfinite
  exact ⟨rfl, hdocument, hcbor hlength, htext hlegible⟩

end Diagram

end RuleWiring
