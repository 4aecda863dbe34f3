import RuleWiring.Diagram.Finish
import RuleWiring.Resolution.Basic

/-!
# From a pattern to a diagram

A pattern becomes a diagram in stages. A sensor measures the condition, an action and a
fallback each make a sigil, and a gate takes the action where the measure reaches the match
threshold and the fallback elsewhere. Where the parameters ask for it, a bit of a secondary
code takes the fallback back in, and a second gate lets the cell keep its state with some
probability. Every stage leaves a note in words.

The free text of a pattern enters the metadata and the notes, never the graph.
-/

namespace RuleWiring

structure CompilerOptions where
  crossoverPoint : UInt32 := 4
  /-- The bit of the secondary code that brings the fallback in. -/
  secondaryBit : UInt32 := 0
deriving DecidableEq, Repr

/-! ## Choices -/

/-- The sensor that measures the condition. -/
def MixMode.sensor : MixMode → Component
  | .majority => .diversity
  | .xorNeighbor | .scramble | .none => .similarity
  | .rotateLeft | .rotateRight | .reverse | .swapHalves => .entropy

/-- The mixer that carries out the action; without one, the action is the cell itself. -/
def MixMode.mixer? : MixMode → Option Component
  | .none => Option.none
  | .rotateLeft => some .shiftLeft
  | .rotateRight => some .shiftRight
  | .reverse => some .bitNot
  | .xorNeighbor => some .bitXor
  | .scramble => some .mutate
  | .majority => some .majority
  | .swapHalves => some .crossover

/-- Whether the mode shifts by the rotation itself. -/
def MixMode.rotates : MixMode → Bool
  | .rotateLeft | .rotateRight => true
  | _ => false

/-! ## Stages -/

namespace Compilation

/-- The extractors that every diagram has, in the order in which they are added. -/
def extractors : List (String × Component) :=
  [("self", .self), ("pred", .pred), ("succ", .succ), ("prev", .prev), ("neighbors", .neighbors)]

/-- The position of the cell itself. -/
def self : Nat := 0

def pred : Nat := 1

def succ : Nat := 2

def prev : Nat := 3

def neighbors : Nat := 4

/-- A sketch on which a node of interest has just been drawn, with words for it. -/
structure Drawn where
  node : Nat
  words : String
  sketch : Sketch

/-- Feeds the ports of a node, in the order given. -/
def feed (s : Sketch) (i : Nat) (feeds : List (Source × Port)) : Sketch :=
  feeds.foldl (fun s f => s.addWire ⟨f.1, i, some f.2⟩) s

/-- Adds a node and feeds its ports. -/
def draw (s : Sketch) (id : String) (c : Component) (feeds : List (Source × Port)) : Sketch :=
  feed (s.addNode id c) s.next feeds

/-- What a gate is fed: the score, the threshold that it has to reach, and both branches. -/
def gateFeeds (score : Nat) (threshold : Binary64) (above below : Nat) : List (Source × Port) :=
  [(.node score, .score), (.literal (.real threshold), .threshold), (.node above, .above),
    (.node below, .below)]

/-- The sensor of the condition. -/
def drawCondition (s : Sketch) (p : ParameterRecord) : Drawn :=
  let c := p.mixMode.sensor
  let name := c.name
  let threshold := p.matchThreshold.fixed 2
  let id := s!"condition-{name}"
  if c = .similarity then
    { node := s.next
      words := s!"{name}(self, prev) >= {threshold}"
      sketch := draw s id c [(.node self, .a), (.node prev, .b)] }
  else
    { node := s.next
      words := s!"{name}(neighbors) >= {threshold}"
      sketch := draw s id c [(.node neighbors, .sigils)] }

/-- The mixer of the action. -/
def drawMixer (s : Sketch) (o : CompilerOptions) (p : ParameterRecord) : Drawn :=
  match p.mixMode.mixer? with
  | none => ⟨self, "self (identity)", s⟩
  | some c =>
      let name := c.name
      let drawn (words : String) (feeds : List (Source × Port)) : Drawn :=
        ⟨s.next, words, draw s s!"action-{name}" c feeds⟩
      match c with
      | .shiftLeft | .shiftRight =>
          let amount := max 1 p.rotation
          let n := amount.toNat
          drawn s!"{name}(self, {n})" [(.node self, .sigil), (.literal (.int amount), .amount)]
      | .bitNot => drawn s!"{name}(self)" [(.node self, .a)]
      | .bitXor => drawn s!"{name}(pred, succ)" [(.node pred, .a), (.node succ, .b)]
      | .mutate =>
          let rate := p.updateProbability.fixed 2
          drawn s!"{name}(self, {rate})"
            [(.node self, .sigil), (.literal (.real p.updateProbability), .rate)]
      | .majority => drawn s!"{name}(neighbors)" [(.node neighbors, .sigils)]
      | _ =>
          let n := o.crossoverPoint.toNat
          drawn s!"{name}(self, pred, {n})"
            [(.node self, .a), (.node pred, .b), (.literal (.int o.crossoverPoint), .point)]

/-- The action: the mixer, and a rotation behind it unless the mixer rotates itself. -/
def drawAction (s : Sketch) (o : CompilerOptions) (p : ParameterRecord) : Drawn :=
  let mixed := drawMixer s o p
  if 0 < p.rotation ∧ !p.mixMode.rotates then
    let name := Component.shiftLeft.name
    let words := mixed.words
    let n := p.rotation.toNat
    { node := mixed.sketch.next
      words := s!"{name}({words}, {n})"
      sketch := draw mixed.sketch "action-rotate" .shiftLeft
        [(.node mixed.node, .sigil), (.literal (.int p.rotation), .amount)] }
  else mixed

/-- What a cell becomes where the condition fails. -/
def drawFallback (s : Sketch) : Preservation → Drawn
  | .full => ⟨self, "self", s⟩
  | .none => ⟨prev, "prev", s⟩
  | .partly =>
      { node := s.next
        words := "sigil-avg(self, prev)"
        sketch := draw s "fallback-avg" .average [(.node self, .a), (.node prev, .b)] }

/-- The gate between action and fallback. -/
def drawGate (s : Sketch) (p : ParameterRecord) (condition action fallback : Nat) : Nat × Sketch :=
  (s.next, draw s "gate" .thresholdSelect (gateFeeds condition p.matchThreshold action fallback))

/-- The choice of the fallback by a bit of the secondary code, if it is asked for. -/
def drawInversion (s : Sketch) (o : CompilerOptions) (p : ParameterRecord)
    (fallback active : Nat) : Nat × Sketch :=
  if p.invertOnSecondary then
    let exotype := s.next
    let n := o.secondaryBit.toNat
    let s := s.addNode "exotype" .exotype
    let bit := s.next
    let s := draw s s!"exotype-bit{n}" .bitTest
      [(.node exotype, .sigil), (.literal (.int o.secondaryBit), .bit)]
    (s.next, draw s "invert-select" .conditionalSelect
      [(.node bit, .cond), (.node fallback, .thenBranch), (.node active, .elseBranch)])
  else (active, s)

/-- Whether a cell may keep its state although its pattern applies. -/
def mayKeep (p : ParameterRecord) : Bool := p.updateProbability.lt Binary64.one

/-- The gate that lets a cell keep its state, if it is asked for. -/
def drawUpdate (s : Sketch) (p : ParameterRecord) (active : Nat) : Nat × Sketch :=
  if mayKeep p then
    let balance := s.next
    let s := draw s "balance" .evenness [(.node self, .sigil)]
    let threshold := Binary64.one.sub p.updateProbability
    (s.next, draw s "update-gate" .thresholdSelect (gateFeeds balance threshold active self))
  else (active, s)

/-! ## Notes -/

/-- What a stage does, with the clause it carries out. -/
def clauseNote (q : Pattern) (c : Clause) (role words : String) : String :=
  match q.clause c with
  | some text =>
      let keyword := c.keyword
      s!"{role}: {words} -- {keyword} {text}"
  | none => s!"{role}: {words}"

def inversionNotes (o : CompilerOptions) (p : ParameterRecord) : List String :=
  let n := o.secondaryBit.toNat
  if p.invertOnSecondary then
    [s!"inversion: take the fallback when bit {n} of the secondary code is set"]
  else []

def updateNotes (p : ParameterRecord) : List String :=
  let share := p.updateProbability.fixed 2
  if mayKeep p then
    [s!"update: applies with probability {share}, otherwise the cell keeps its state"]
  else []

def justificationNotes (q : Pattern) : List String :=
  match q.justification with
  | some why => [s!"because: {why}"]
  | none => []

/-! ## The whole diagram -/

def metadata (q : Pattern) (r : Resolution) : Metadata where
  id := q.id
  title := q.title
  code := r.code
  provenance := r.provenance
  params := r.params

/-- The sketch of a pattern's diagram. -/
def sketch (o : CompilerOptions) (q : Pattern) (r : Resolution) : Sketch :=
  let p := r.params
  let start : Sketch := { metadata := metadata q r }
  let s := extractors.foldl (fun s e => s.addNode e.1 e.2) start
  let condition := drawCondition s p
  let action := drawAction condition.sketch o p
  let fallback := drawFallback action.sketch q.effectivePreservation
  let (gate, s) := drawGate fallback.sketch p condition.node action.node fallback.node
  let (active, s) := drawInversion s o p fallback.node gate
  let (active, s) := drawUpdate s p active
  let s := draw s "output" .output [(.node active, .sigil)]
  let notes :=
    [clauseNote q .condition "condition" condition.words,
      clauseNote q .action "action" action.words,
      clauseNote q .fallback "fallback" fallback.words]
    ++ inversionNotes o p ++ updateNotes p ++ justificationNotes q
  s.interpret ("\n".intercalate notes)

end Compilation

/-- The diagram of a pattern with resolved parameters. -/
def compile (o : CompilerOptions) (q : Pattern) (r : Resolution) : Except StructuralError Diagram :=
  (Compilation.sketch o q r).finish

end RuleWiring
