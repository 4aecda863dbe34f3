import Mathlib
import RuleWiring.Bytes.Fingerprint
import RuleWiring.Proofs.Scheme

/-!
# What steers a compilation

A compilation reads the whole pattern and the whole resolution, but the drawing depends on the
preservation tag and on the parameters alone. Everything else ends up in what the diagram says of
itself. This is a statement about two compilations. Each stage is shown to do the same on two
sketches that differ in their words only (`Sketch.saying`), and so do the checks and every
evaluation.
-/

namespace RuleWiring

/-! ## Sketches that say something else -/

/-- The same drawing with other words. -/
def Sketch.saying (s : Sketch) (m : Metadata) (text : String) : Sketch :=
  { s with metadata := m, interpretation := text }

/-- The same graph with other words. -/
def Diagram.saying (d : Diagram) (m : Metadata) (text : String) : Diagram :=
  { d with metadata := m, interpretation := text }

namespace Compilation

def Drawn.saying (x : Drawn) (m : Metadata) (text : String) : Drawn :=
  { x with sketch := x.sketch.saying m text }

variable (s : Sketch) (o : CompilerOptions) (q : Pattern) (p : ParameterRecord)
  (m : Metadata) (text : String)

theorem feed_saying (i : Nat) : ∀ (feeds : List (Source × Port)) (s : Sketch),
    feed (s.saying m text) i feeds = (feed s i feeds).saying m text
  | [], _ => rfl
  | f :: feeds, s => feed_saying i feeds (s.addWire ⟨f.1, i, some f.2⟩)

theorem draw_saying (id : String) (k : Component) (feeds : List (Source × Port)) :
    draw (s.saying m text) id k feeds = (draw s id k feeds).saying m text :=
  feed_saying m text s.next feeds (s.addNode id k)

/-! ## The stages -/

theorem drawCondition_saying :
    drawCondition (s.saying m text) p = (drawCondition s p).saying m text := by
  unfold drawCondition
  dsimp only
  split <;> simp only [draw_saying] <;> rfl

theorem drawMixer_saying : drawMixer (s.saying m text) o p = (drawMixer s o p).saying m text := by
  unfold drawMixer
  split
  · rfl
  · dsimp only
    split <;> simp only [draw_saying] <;> rfl

theorem drawAction_saying :
    drawAction (s.saying m text) o p = (drawAction s o p).saying m text := by
  unfold drawAction
  simp only [drawMixer_saying]
  split
  · simp only [Drawn.saying, draw_saying]
    rfl
  · rfl

theorem drawFallback_saying : ∀ tag : Preservation,
    drawFallback (s.saying m text) tag = (drawFallback s tag).saying m text
  | .full | .none => rfl
  | .partly => by
      simp only [drawFallback, draw_saying]
      rfl

theorem drawGate_saying (condition action fallback : Nat) :
    drawGate (s.saying m text) p condition action fallback
      = ((drawGate s p condition action fallback).1,
        (drawGate s p condition action fallback).2.saying m text) := by
  simp only [drawGate, draw_saying]
  rfl

theorem drawInversion_saying (fallback active : Nat) :
    drawInversion (s.saying m text) o p fallback active
      = ((drawInversion s o p fallback active).1,
        (drawInversion s o p fallback active).2.saying m text) := by
  unfold drawInversion
  split
  · have hadd : (s.saying m text).addNode "exotype" .exotype
        = (s.addNode "exotype" .exotype).saying m text := rfl
    simp only [hadd, draw_saying]
    rfl
  · rfl

theorem drawUpdate_saying (active : Nat) :
    drawUpdate (s.saying m text) p active
      = ((drawUpdate s p active).1, (drawUpdate s p active).2.saying m text) := by
  unfold drawUpdate
  split
  · simp only [draw_saying]
    rfl
  · rfl

/-- **Two sketches differ in their words only**, where the tag and the parameters are the same. -/
theorem sketch_saying {q q' : Pattern} {r r' : Resolution}
    (hq : q.effectivePreservation = q'.effectivePreservation) (hr : r.params = r'.params) :
    sketch o q' r' = (sketch o q r).saying (metadata q' r') (sketch o q' r').interpretation := by
  -- the two begin with the same extractors, and with different metadata
  let add (s : Sketch) (e : String × Component) := s.addNode e.1 e.2
  have hstart : extractors.foldl add { metadata := metadata q' r' }
      = (extractors.foldl add { metadata := metadata q r }).saying (metadata q' r') "" := rfl
  simp only [sketch, add] at hstart ⊢
  rw [hstart, ← hq, ← hr]
  simp only [drawCondition_saying, drawAction_saying, drawFallback_saying, drawGate_saying,
    drawInversion_saying, drawUpdate_saying, draw_saying, Drawn.saying]
  rfl

end Compilation

/-! ## Checks and values -/

/-- No check reads what a sketch says. -/
theorem Sketch.finish_saying (s : Sketch) (m : Metadata) (text : String) :
    (s.saying m text).finish = s.finish.map (·.saying m text) := by
  have hresolve : (s.saying m text).resolve = s.resolve := rfl
  have hnodes : (s.saying m text).nodes = s.nodes := rfl
  have hdesignated : (s.saying m text).designated = s.designated := rfl
  unfold finish
  rw [hresolve, hnodes, hdesignated]
  repeat' split
  all_goals rfl

namespace Diagram

variable {σ β : Type} (alg : BoolAlgebra σ β) (d : Diagram) (m : Metadata) (text : String)
  (inputs : Neighborhood β) (mode : EvalMode)

theorem sweep_saying : ∀ (order : List Nat) (signals : Signals β),
    sweep alg (d.saying m text) inputs order signals = sweep alg d inputs order signals
  | [], _ => rfl
  | i :: order, signals => by
      have hnodes : (d.saying m text).nodes = d.nodes := rfl
      have hsignal : ∀ n, nodeSignal alg (d.saying m text) inputs signals i n
          = nodeSignal alg d inputs signals i n := fun _ => rfl
      simp only [sweep, hnodes, hsignal, sweep_saying order]

/-- No evaluation reads what a diagram says. -/
theorem evaluate_saying :
    evaluate alg (d.saying m text) inputs mode = evaluate alg d inputs mode := by
  unfold evaluate
  have hsupported : checkSupported (d.saying m text) mode = checkSupported d mode := rfl
  have hsize : (d.saying m text).nodes.length = d.nodes.length := rfl
  have horder : (d.saying m text).order = d.order := rfl
  rw [hsupported]
  simp only [hsize, horder, sweep_saying]
  rfl

theorem evaluateBits_saying (n : Neighborhood Bool) :
    evaluateBits (d.saying m text) n mode = evaluateBits d n mode := by
  rw [evaluateBits, evaluate_saying, evaluateBits]

end Diagram

/--
**The preservation tag and the parameters alone steer a compilation.**

The two patterns need to have the same tag in effect, and the two resolutions the same parameters;
ids, titles, clauses, codes, own parameters and provenance are arbitrary. Then both compile, the
two diagrams differ in what they say of themselves and in nothing else, and they have the same
canonical bytes, the same fingerprint and, in either mode, the same outcome at every neighbourhood.
-/
theorem compile_steered (o : CompilerOptions) {q q' : Pattern} {r r' : Resolution}
    (hq : q.effectivePreservation = q'.effectivePreservation) (hr : r.params = r'.params) :
    ∃ d d', compile o q r = .ok d ∧ compile o q' r' = .ok d'
      ∧ d' = d.saying d'.metadata d'.interpretation
      ∧ d.canonicalBytes = d'.canonicalBytes ∧ d.fingerprint = d'.fingerprint
      ∧ ∀ mode n, evaluateBits d n mode = evaluateBits d' n mode := by
  obtain ⟨d, hd, _⟩ := compile_drawn o q r
  have hd' : compile o q' r' = .ok (d.saying (Compilation.metadata q' r')
      (Compilation.sketch o q' r').interpretation) := by
    rw [compile, Compilation.sketch_saying o hq hr, Sketch.finish_saying]
    rw [compile] at hd
    rw [hd]
    rfl
  exact ⟨d, _, hd, hd', rfl, rfl, rfl, fun mode n => (d.evaluateBits_saying _ _ mode n).symm⟩

/-- Two patterns with nothing in common but the tag, which one of them leaves open. -/
theorem compile_steered_reworded :
    let q : Pattern :=
      { id := "tide", title := some "Tide", condition := some "the sea is high",
        code := some ⟨30⟩, preservation := some .partly }
    let q' : Pattern :=
      { id := "gate", action := some "exotype", justification := some "output",
        inline := some { rotation := some 7 } }
    let p : ParameterRecord :=
      { rotation := 2, updateProbability := ⟨0x3FE0000000000000⟩, mixMode := .xorNeighbor,
        invertOnSecondary := true }
    let r : Resolution := { params := p, provenance := .table, code := some ⟨30⟩ }
    let r' : Resolution := { params := p, provenance := .inline }
    q.effectivePreservation = q'.effectivePreservation ∧ r.params = r'.params
      ∧ Compilation.metadata q r ≠ Compilation.metadata q' r'
      ∧ ∃ d d', compile {} q r = .ok d ∧ compile {} q' r' = .ok d'
        ∧ d' = d.saying d'.metadata d'.interpretation
        ∧ d.canonicalBytes = d'.canonicalBytes ∧ d.fingerprint = d'.fingerprint
        ∧ ∀ mode n, evaluateBits d n mode = evaluateBits d' n mode := by
  intro q q' p r r'
  exact ⟨rfl, rfl, by decide, compile_steered {} rfl rfl⟩

end RuleWiring
