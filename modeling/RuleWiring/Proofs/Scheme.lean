import Mathlib
import RuleWiring.Proofs.Drawing

/-!
# The scheme of a compiled pattern

The stages of a compilation take turns at one sketch, and some nodes are used by several of them.
Unfolded from the output, the diagram is one tree, which is built here stage by stage from the
parameters alone. That it is the tree of the diagram also means that there always is a diagram:
no pattern and no parameters make a sketch that is refused.
-/

namespace RuleWiring

open Expression Piece

/-! ## The tree of each stage -/

namespace Scheme

variable (o : CompilerOptions) (q : Pattern) (p : ParameterRecord)

/-- The measure of the condition. -/
def sensor : Expression :=
  if p.mixMode.sensor = .similarity then
    .apply .similarity [(.a, leaf .self), (.b, leaf .prev)]
  else .apply p.mixMode.sensor [(.sigils, leaf .neighbors)]

/-- What the mixer makes; a mode that shifts does so at least once. -/
def mixed : Expression :=
  match p.mixMode with
  | .none => leaf .self
  | .rotateLeft =>
      .apply .shiftLeft [(.sigil, leaf .self), (.amount, .constant (.int (max 1 p.rotation)))]
  | .rotateRight =>
      .apply .shiftRight [(.sigil, leaf .self), (.amount, .constant (.int (max 1 p.rotation)))]
  | .reverse => .apply .bitNot [(.a, leaf .self)]
  | .xorNeighbor => .apply .bitXor [(.a, leaf .pred), (.b, leaf .succ)]
  | .scramble =>
      .apply .mutate [(.sigil, leaf .self), (.rate, .constant (.real p.updateProbability))]
  | .majority => .apply .majority [(.sigils, leaf .neighbors)]
  | .swapHalves =>
      .apply .crossover [(.a, leaf .self), (.b, leaf .pred),
        (.point, .constant (.int o.crossoverPoint))]

/-- Whether what the mixer makes is rotated once more. -/
def Turns : Prop := 0 < p.rotation ∧ p.mixMode ≠ .rotateLeft ∧ p.mixMode ≠ .rotateRight

instance : Decidable (Turns p) := inferInstanceAs (Decidable (_ ∧ _ ∧ _))

def rotated : Expression :=
  .apply .shiftLeft [(.sigil, mixed o p), (.amount, .constant (.int p.rotation))]

/-- The action. -/
def action : Expression := if Turns p then rotated o p else mixed o p

/-- What a cell becomes where the condition fails. -/
def fallback : Preservation → Expression
  | .full => leaf .self
  | .partly => .apply .average [(.a, leaf .self), (.b, leaf .prev)]
  | .none => leaf .prev

/-- A gate that passes on what is above where a score reaches a threshold. -/
def gate (score : Expression) (threshold : Binary64) (above below : Expression) : Expression :=
  .apply .thresholdSelect [(.score, score), (.threshold, .constant (.real threshold)),
    (.above, above), (.below, below)]

/-- The action where the condition holds, and the fallback elsewhere. -/
def chosen : Expression :=
  gate (sensor p) p.matchThreshold (action o p) (fallback q.effectivePreservation)

/-- The bit of the secondary code that decides about an inversion. -/
def secondary : Expression :=
  .apply .bitTest [(.sigil, leaf .exotype), (.bit, .constant (.int o.secondaryBit))]

def reconsidered : Expression :=
  .apply .conditionalSelect [(.cond, secondary o),
    (.thenBranch, fallback q.effectivePreservation), (.elseBranch, chosen o q p)]

/-- The same, with the fallback taken back in by the secondary code if that is asked for. -/
def inverted : Expression := if p.invertOnSecondary then reconsidered o q p else chosen o q p

def balance : Expression := .apply .evenness [(.sigil, leaf .self)]

def softened : Expression :=
  gate balance (Binary64.one.sub p.updateProbability) (inverted o q p) (leaf .self)

/-- The same, with the cell keeping its state now and then if that is asked for. -/
def updated : Expression :=
  if p.updateProbability.lt Binary64.one then softened o q p else inverted o q p

/-- **The tree of the diagram.** -/
def whole : Expression := .apply .output [(.sigil, updated o q p)]

/-! ## Types -/

variable {o q p}

theorem sensor_eq : sensor p = .apply p.mixMode.sensor (sensor p).inputs := by
  unfold sensor
  split
  · rename_i h
    rw [h]
    rfl
  · rfl

theorem sensor_type : (sensor p).type = .score := by
  rw [sensor_eq]
  show p.mixMode.sensor.outputType = .score
  cases p.mixMode <;> rfl

theorem mixed_type : (mixed o p).type = .sigil := by
  unfold mixed
  cases p.mixMode <;> rfl

theorem action_type : (action o p).type = .sigil := by
  unfold action
  split
  · rfl
  · exact mixed_type

theorem fallback_type : ∀ t : Preservation, (fallback t).type = .sigil
  | .full | .partly | .none => rfl

theorem inverted_type : (inverted o q p).type = .sigil := by
  unfold inverted
  split
  · rfl
  · rfl

theorem updated_type : (updated o q p).type = .sigil := by
  unfold updated
  split
  · rfl
  · exact inverted_type

/-! ## The nodes of each stage -/

variable (o q p)

def extractors : List Piece := Compilation.extractors.map fun e => ⟨e.1, e.2, []⟩

def conditionPiece : Piece :=
  let name := p.mixMode.sensor.name
  ⟨s!"condition-{name}", p.mixMode.sensor, (sensor p).inputs⟩

def mixerPiece (c : Component) : Piece :=
  let name := c.name
  ⟨s!"action-{name}", c, (mixed o p).inputs⟩

def rotationPiece : Piece := ⟨"action-rotate", .shiftLeft, (rotated o p).inputs⟩

def averagePiece : Piece := ⟨"fallback-avg", .average, (fallback .partly).inputs⟩

def gatePiece : Piece := ⟨"gate", .thresholdSelect, (chosen o q p).inputs⟩

def exotypePiece : Piece := ⟨"exotype", .exotype, []⟩

def bitPiece : Piece :=
  let n := o.secondaryBit.toNat
  ⟨s!"exotype-bit{n}", .bitTest, (secondary o).inputs⟩

def inversionPiece : Piece := ⟨"invert-select", .conditionalSelect, (reconsidered o q p).inputs⟩

def balancePiece : Piece := ⟨"balance", .evenness, balance.inputs⟩

def updatePiece : Piece := ⟨"update-gate", .thresholdSelect, (softened o q p).inputs⟩

def actionPieces : List Piece :=
  p.mixMode.mixer?.toList.map (mixerPiece o p) ++ if Turns p then [rotationPiece o p] else []

def fallbackPieces (t : Preservation) : List Piece := if t = .partly then [averagePiece] else []

def inversionPieces : List Piece :=
  if p.invertOnSecondary then [exotypePiece, bitPiece o, inversionPiece o q p] else []

def updatePieces : List Piece :=
  if p.updateProbability.lt Binary64.one then [balancePiece, updatePiece o q p] else []

/-- The nodes before the output. -/
def innerPieces : List Piece :=
  extractors ++ [conditionPiece p] ++ actionPieces o p ++ fallbackPieces q.effectivePreservation
    ++ [gatePiece o q p] ++ inversionPieces o q p ++ updatePieces o q p

def outputPiece : Piece := ⟨"output", .output, [(.sigil, updated o q p)]⟩

/-- All nodes of the diagram. -/
def pieces : List Piece := innerPieces o q p ++ [outputPiece o q p]

variable {o q p} in
theorem mem_innerPieces {x : Piece} : x ∈ innerPieces o q p ↔
    x ∈ extractors ∨ x = conditionPiece p
      ∨ (∃ c, p.mixMode.mixer? = some c ∧ x = mixerPiece o p c)
      ∨ (Turns p ∧ x = rotationPiece o p)
      ∨ (q.effectivePreservation = .partly ∧ x = averagePiece)
      ∨ x = gatePiece o q p
      ∨ (p.invertOnSecondary = true
        ∧ (x = exotypePiece ∨ x = bitPiece o ∨ x = inversionPiece o q p))
      ∨ (p.updateProbability.lt Binary64.one = true
        ∧ (x = balancePiece ∨ x = updatePiece o q p)) := by
  have hturn : x ∈ (if Turns p then [rotationPiece o p] else [])
      ↔ Turns p ∧ x = rotationPiece o p := by
    split <;> simp [*]
  have hback : x ∈ fallbackPieces q.effectivePreservation
      ↔ q.effectivePreservation = .partly ∧ x = averagePiece := by
    unfold fallbackPieces
    split <;> simp [*]
  have hinvert : x ∈ inversionPieces o q p ↔ p.invertOnSecondary = true
      ∧ (x = exotypePiece ∨ x = bitPiece o ∨ x = inversionPiece o q p) := by
    unfold inversionPieces
    split <;> simp [*]
  have hupdate : x ∈ updatePieces o q p ↔ p.updateProbability.lt Binary64.one = true
      ∧ (x = balancePiece ∨ x = updatePiece o q p) := by
    unfold updatePieces
    split <;> simp [*]
  have hmixer : x ∈ p.mixMode.mixer?.toList.map (mixerPiece o p)
      ↔ ∃ c, p.mixMode.mixer? = some c ∧ x = mixerPiece o p c := by
    simp [eq_comm]
  simp only [innerPieces, actionPieces, List.mem_append, List.mem_singleton, hturn, hback, hinvert,
    hupdate, hmixer, or_assoc]

/-- Only the last node is an output. -/
theorem innerPieces_ne_output : ∀ x ∈ innerPieces o q p, x.component ≠ .output := by
  intro x hx
  rcases mem_innerPieces.mp hx with hx | rfl | ⟨c, hc, rfl⟩ | ⟨_, rfl⟩ | ⟨_, rfl⟩ | rfl
    | ⟨_, rfl | rfl | rfl⟩ | ⟨_, rfl | rfl⟩
  · have hall : ∀ x ∈ extractors, x.component ≠ .output := by decide
    exact hall x hx
  · show p.mixMode.sensor ≠ .output
    cases p.mixMode <;> decide
  · show c ≠ .output
    rintro rfl
    revert hc
    cases p.mixMode <;> decide
  all_goals exact Component.noConfusion

end Scheme

/-! ## The stages -/

namespace Compilation

open Scheme Sketch

variable {s : Sketch} {pieces : List Piece} {loose : List Nat}

/-- A drawing that begins with the extractors. -/
structure Begun (s : Sketch) (pieces : List Piece) (loose : List Nat) : Prop
    extends Drawing s pieces loose where
  base : Scheme.extractors <+: pieces

/-- A drawing in which some node stands for a given tree. -/
structure Draws (s : Sketch) (pieces : List Piece) (loose : List Nat) (i : Nat) (e : Expression) :
    Prop extends Begun s pieces loose where
  tree : Piece.tree pieces i = some e

theorem Begun.tree_base (h : Begun s pieces loose) {i : Nat} {e : Expression}
    (he : tree Scheme.extractors i = some e) : tree pieces i = some e := by
  obtain ⟨rest, hrest⟩ := h.base
  exact hrest ▸ tree_append he rest

/-- A node is added to the loose ends, in place of those that it is fed. -/
theorem Begun.draw (h : Begun s pieces loose) (x : Piece) {feeds : List (Source × Port)}
    {loose' : List Nat} (hinputs : InputsStand (tree pieces) (feeds.map Prod.swap) x.inputs)
    (htyped : x.Typed) (hloose : ∀ i ∈ loose, i ∈ loose' ∨ ∃ p, (.node i, p) ∈ feeds) :
    Draws (Compilation.draw s x.id x.component feeds) (pieces ++ [x]) (s.next :: loose') s.next
      x.expression := by
  refine ⟨⟨h.toDrawing.draw x hinputs htyped (fun i hi => ?_) fun _ => List.mem_cons_self ..,
    h.base.trans (List.prefix_append ..)⟩, h.tree_draw x⟩
  exact (hloose i hi).imp_left (List.mem_cons_of_mem _)

/-- Nothing has to be added for a node that is there. -/
theorem Begun.keep (h : Begun s pieces loose) {i : Nat} {e : Expression}
    (he : tree pieces i = some e) : Draws s (pieces ++ []) (i :: loose) i e := by
  rw [List.append_nil]
  exact ⟨⟨h.loosen fun _ hj => List.mem_cons_of_mem _ hj, h.base⟩, he⟩

/-- The extractors alone. -/
theorem begun_extractors (m : Metadata) :
    Begun (extractors.foldl (fun s e => s.addNode e.1 e.2) { metadata := m }) Scheme.extractors
      [] := by
  have hsource : ∀ {s : Sketch} {pieces : List Piece}, Drawing s pieces [] →
      ∀ (id : String) (c : Component), c.inputs = [] → c.isSource = true →
      Drawing (s.addNode id c) (pieces ++ [⟨id, c, []⟩]) [] := by
    intro s pieces h id c hports hc
    have hnone : InputsStand (tree pieces) (([] : List (Source × Port)).map Prod.swap) [] := .nil
    refine h.draw ⟨id, c, []⟩ hnone ?_ (by simp) ?_
    · rw [Typed, hports]
      exact .nil
    · intro hnot
      exact absurd hc (by simp [hnot])
  have h := hsource (drawing_start m) "self" .self rfl rfl
  have h := hsource h "pred" .pred rfl rfl
  have h := hsource h "succ" .succ rfl rfl
  have h := hsource h "prev" .prev rfl rfl
  have h := hsource h "neighbors" .neighbors rfl rfl
  exact ⟨h, List.prefix_refl _⟩

theorem drawCondition_draws (h : Begun s pieces loose) (p : ParameterRecord) :
    Draws (drawCondition s p).sketch (pieces ++ [conditionPiece p])
      ((drawCondition s p).node :: loose) (drawCondition s p).node (sensor p) := by
  have hself := h.tree_base (i := self) rfl
  have hprev := h.tree_base (i := prev) rfl
  have hneighbors := h.tree_base (i := neighbors) rfl
  have hkeep : ∀ {feeds : List (Source × Port)}, ∀ i ∈ loose,
      i ∈ loose ∨ ∃ p, (.node i, p) ∈ feeds := fun _ hi => Or.inl hi
  obtain ⟨rotation, threshold, probability, mode, invert⟩ := p
  cases mode with
  | xorNeighbor | scramble | none =>
      exact h.draw (conditionPiece _) (.cons ⟨rfl, hself⟩ (.cons ⟨rfl, hprev⟩ .nil))
        (.cons ⟨rfl, rfl⟩ (.cons ⟨rfl, rfl⟩ .nil)) hkeep
  | majority | rotateLeft | rotateRight | reverse | swapHalves =>
      exact h.draw (conditionPiece _) (.cons ⟨rfl, hneighbors⟩ .nil) (.cons ⟨rfl, rfl⟩ .nil) hkeep

theorem drawMixer_draws (h : Begun s pieces loose) (o : CompilerOptions) (p : ParameterRecord) :
    Draws (drawMixer s o p).sketch (pieces ++ p.mixMode.mixer?.toList.map (mixerPiece o p))
      ((drawMixer s o p).node :: loose) (drawMixer s o p).node (mixed o p) := by
  have hself := h.tree_base (i := self) rfl
  have hpred := h.tree_base (i := pred) rfl
  have hsucc := h.tree_base (i := succ) rfl
  have hneighbors := h.tree_base (i := neighbors) rfl
  have hkeep : ∀ {feeds : List (Source × Port)}, ∀ i ∈ loose,
      i ∈ loose ∨ ∃ p, (.node i, p) ∈ feeds := fun _ hi => Or.inl hi
  obtain ⟨rotation, threshold, probability, mode, invert⟩ := p
  cases mode with
  | none => exact h.keep hself
  | rotateLeft =>
      exact h.draw (mixerPiece o _ .shiftLeft) (.cons ⟨rfl, hself⟩ (.cons ⟨rfl, rfl⟩ .nil))
        (.cons ⟨rfl, rfl⟩ (.cons ⟨rfl, rfl⟩ .nil)) hkeep
  | rotateRight =>
      exact h.draw (mixerPiece o _ .shiftRight) (.cons ⟨rfl, hself⟩ (.cons ⟨rfl, rfl⟩ .nil))
        (.cons ⟨rfl, rfl⟩ (.cons ⟨rfl, rfl⟩ .nil)) hkeep
  | reverse =>
      exact h.draw (mixerPiece o _ .bitNot) (.cons ⟨rfl, hself⟩ .nil) (.cons ⟨rfl, rfl⟩ .nil) hkeep
  | xorNeighbor =>
      exact h.draw (mixerPiece o _ .bitXor) (.cons ⟨rfl, hpred⟩ (.cons ⟨rfl, hsucc⟩ .nil))
        (.cons ⟨rfl, rfl⟩ (.cons ⟨rfl, rfl⟩ .nil)) hkeep
  | scramble =>
      exact h.draw (mixerPiece o _ .mutate) (.cons ⟨rfl, hself⟩ (.cons ⟨rfl, rfl⟩ .nil))
        (.cons ⟨rfl, rfl⟩ (.cons ⟨rfl, rfl⟩ .nil)) hkeep
  | majority =>
      exact h.draw (mixerPiece o _ .majority) (.cons ⟨rfl, hneighbors⟩ .nil)
        (.cons ⟨rfl, rfl⟩ .nil) hkeep
  | swapHalves =>
      exact h.draw (mixerPiece o _ .crossover)
        (.cons ⟨rfl, hself⟩ (.cons ⟨rfl, hpred⟩ (.cons ⟨rfl, rfl⟩ .nil)))
        (.cons ⟨rfl, rfl⟩ (.cons ⟨rfl, rfl⟩ (.cons ⟨rfl, rfl⟩ .nil))) hkeep

theorem turns_iff (p : ParameterRecord) : 0 < p.rotation ∧ !p.mixMode.rotates ↔ Turns p := by
  rw [Turns]
  cases p.mixMode <;> simp [MixMode.rotates]

theorem drawAction_draws (h : Begun s pieces loose) (o : CompilerOptions) (p : ParameterRecord) :
    Draws (drawAction s o p).sketch (pieces ++ actionPieces o p)
      ((drawAction s o p).node :: loose) (drawAction s o p).node (action o p) := by
  have hmixed := drawMixer_draws h o p
  rw [actionPieces, ← List.append_assoc]
  unfold drawAction action
  dsimp only
  by_cases ht : Turns p
  · rw [if_pos ((turns_iff p).mpr ht), if_pos ht, if_pos ht]
    -- the node of the mixer is a loose end that the rotation takes up
    refine hmixed.draw (rotationPiece o p)
      (.cons ⟨rfl, hmixed.tree⟩ (.cons ⟨rfl, rfl⟩ .nil))
      (.cons ⟨rfl, ?_⟩ (.cons ⟨rfl, rfl⟩ .nil)) fun i hi => ?_
    · show (mixed o p).type.feeds .sigil = true
      rw [mixed_type]
      rfl
    · rcases List.mem_cons.mp hi with hi | hi
      · exact Or.inr ⟨.sigil, by simp [hi]⟩
      · exact Or.inl hi
  · rw [if_neg (fun hturns => ht ((turns_iff p).mp hturns)), if_neg ht, if_neg ht, List.append_nil]
    exact hmixed

theorem drawFallback_draws (h : Begun s pieces loose) (t : Preservation) :
    Draws (drawFallback s t).sketch (pieces ++ fallbackPieces t)
      ((drawFallback s t).node :: loose) (drawFallback s t).node (fallback t) := by
  have hself := h.tree_base (i := self) rfl
  have hprev := h.tree_base (i := prev) rfl
  cases t with
  | full => exact h.keep hself
  | none => exact h.keep hprev
  | partly =>
      exact h.draw averagePiece (.cons ⟨rfl, hself⟩ (.cons ⟨rfl, hprev⟩ .nil))
        (.cons ⟨rfl, rfl⟩ (.cons ⟨rfl, rfl⟩ .nil)) fun _ hi => Or.inl hi

/-- A gate takes up the loose ends that it is fed. -/
theorem Begun.gate (h : Begun s pieces loose) (id : String) (threshold : Binary64)
    {score above below : Nat} {es ea eb : Expression} (hscore : tree pieces score = some es)
    (habove : tree pieces above = some ea) (hbelow : tree pieces below = some eb)
    (hes : es.type = .score) (hea : ea.type = .sigil) (heb : eb.type = .sigil)
    (hloose : ∀ i ∈ loose, i = score ∨ i = above ∨ i = below) :
    Draws (Compilation.draw s id .thresholdSelect (gateFeeds score threshold above below))
      (pieces ++ [⟨id, .thresholdSelect, (Scheme.gate es threshold ea eb).inputs⟩]) [s.next] s.next
      (Scheme.gate es threshold ea eb) := by
  refine h.draw ⟨id, .thresholdSelect, _⟩
    (.cons ⟨rfl, hscore⟩ (.cons ⟨rfl, rfl⟩ (.cons ⟨rfl, habove⟩ (.cons ⟨rfl, hbelow⟩ .nil))))
    (.cons ⟨rfl, ?_⟩ (.cons ⟨rfl, rfl⟩ (.cons ⟨rfl, ?_⟩ (.cons ⟨rfl, ?_⟩ .nil)))) fun i hi => ?_
  · rw [hes]
    rfl
  · rw [hea]
    rfl
  · rw [heb]
    rfl
  · rcases hloose i hi with rfl | rfl | rfl
    · exact Or.inr ⟨.score, by simp [gateFeeds]⟩
    · exact Or.inr ⟨.above, by simp [gateFeeds]⟩
    · exact Or.inr ⟨.below, by simp [gateFeeds]⟩

/-- The secondary code is read from a node of its own. -/
theorem secondary_draws (h : Begun s pieces loose) (o : CompilerOptions) :
    Draws (Compilation.draw (s.addNode "exotype" .exotype) (bitPiece o).id .bitTest
        [(.node s.next, .sigil), (.literal (.int o.secondaryBit), .bit)])
      (pieces ++ [exotypePiece] ++ [bitPiece o])
      ((s.addNode "exotype" .exotype).next :: loose) (s.addNode "exotype" .exotype).next
      (secondary o) := by
  have hnone : InputsStand (tree pieces) (([] : List (Source × Port)).map Prod.swap) [] := .nil
  have hcode := h.draw exotypePiece hnone .nil fun _ hi => Or.inl hi
  refine hcode.draw (bitPiece o) (.cons ⟨rfl, hcode.tree⟩ (.cons ⟨rfl, rfl⟩ .nil))
    (.cons ⟨rfl, rfl⟩ (.cons ⟨rfl, rfl⟩ .nil)) fun i hi => ?_
  rcases List.mem_cons.mp hi with hi | hi
  · exact Or.inr ⟨.sigil, by simp [hi]⟩
  · exact Or.inl hi

theorem drawInversion_draws (o : CompilerOptions) (q : Pattern) (p : ParameterRecord)
    {back active : Nat} (h : Draws s pieces [active] active (chosen o q p))
    (hback : tree pieces back = some (fallback q.effectivePreservation)) :
    Draws (drawInversion s o p back active).2 (pieces ++ inversionPieces o q p)
      [(drawInversion s o p back active).1] (drawInversion s o p back active).1
      (inverted o q p) := by
  unfold drawInversion inversionPieces
  dsimp only
  by_cases hinvert : p.invertOnSecondary
  · have htree : inverted o q p = reconsidered o q p := if_pos hinvert
    rw [if_pos hinvert, if_pos hinvert, List.append_cons, List.append_cons, htree]
    have hbit := secondary_draws h.toBegun o
    refine hbit.draw (inversionPiece o q p)
      (.cons ⟨rfl, hbit.tree⟩ (.cons ⟨rfl, tree_append (tree_append hback _) _⟩
        (.cons ⟨rfl, tree_append (tree_append h.tree _) _⟩ .nil)))
      (.cons ⟨rfl, rfl⟩ (.cons ⟨rfl, ?_⟩ (.cons ⟨rfl, rfl⟩ .nil))) fun i hi => ?_
    · show (fallback q.effectivePreservation).type.feeds .sigil = true
      rw [fallback_type]
      rfl
    · rcases List.mem_cons.mp hi with hi | hi
      · exact Or.inr ⟨.cond, by simp [hi]⟩
      · exact Or.inr ⟨.elseBranch, by simp [List.mem_singleton.mp hi]⟩
  · have htree : inverted o q p = chosen o q p := if_neg hinvert
    rw [if_neg hinvert, if_neg hinvert, List.append_nil, htree]
    exact h

theorem drawUpdate_draws (o : CompilerOptions) (q : Pattern) (p : ParameterRecord)
    {active : Nat} (h : Draws s pieces [active] active (inverted o q p)) :
    Draws (drawUpdate s p active).2 (pieces ++ updatePieces o q p)
      [(drawUpdate s p active).1] (drawUpdate s p active).1 (updated o q p) := by
  unfold drawUpdate updatePieces
  dsimp only
  by_cases hkeep : p.updateProbability.lt Binary64.one
  · have htree : updated o q p = softened o q p := if_pos hkeep
    have hself := h.tree_base (i := self) rfl
    rw [mayKeep, if_pos hkeep, if_pos hkeep, List.append_cons, htree]
    have hstart : InputsStand (tree pieces)
        (([(.node self, .sigil)] : List (Source × Port)).map Prod.swap) balance.inputs :=
      .cons ⟨rfl, hself⟩ .nil
    have hbalance := h.draw balancePiece hstart (.cons ⟨rfl, rfl⟩ .nil)
      fun _ hi => Or.inl hi
    refine hbalance.gate "update-gate" (Binary64.one.sub p.updateProbability) hbalance.tree
      (tree_append h.tree _) (tree_append hself _) rfl inverted_type rfl fun i hi => ?_
    rcases List.mem_cons.mp hi with hi | hi
    · exact Or.inl hi
    · exact Or.inr (Or.inl (List.mem_singleton.mp hi))
  · have htree : updated o q p = inverted o q p := if_neg hkeep
    rw [mayKeep, if_neg hkeep, if_neg hkeep, List.append_nil, htree]
    exact h

theorem output_drawing (o : CompilerOptions) (q : Pattern) (p : ParameterRecord) {active : Nat}
    (h : Draws s pieces [active] active (updated o q p)) :
    Drawing (Compilation.draw s "output" .output [(.node active, .sigil)])
      (pieces ++ [outputPiece o q p]) [pieces.length] := by
  rw [← h.next_eq]
  refine h.toDrawing.draw (outputPiece o q p) (.cons ⟨rfl, h.tree⟩ .nil) (.cons ⟨rfl, ?_⟩ .nil)
    (fun i hi => ?_) fun _ => List.mem_singleton_self _
  · rw [updated_type]
    rfl
  · exact Or.inr ⟨.sigil, by simp [List.mem_singleton.mp hi]⟩

/-- **All stages in turn.** -/
theorem sketch_drawing (o : CompilerOptions) (q : Pattern) (r : Resolution) :
    Drawing (sketch o q r) (Scheme.pieces o q r.params) [(innerPieces o q r.params).length] := by
  have hcondition := drawCondition_draws (begun_extractors (metadata q r)) r.params
  have haction := drawAction_draws hcondition.toBegun o r.params
  have hback := drawFallback_draws haction.toBegun q.effectivePreservation
  have hchosen := hback.gate "gate" r.params.matchThreshold
    (tree_append (tree_append hcondition.tree _) _) (tree_append haction.tree _) hback.tree
    sensor_type action_type (fallback_type _) fun i hi => by
      rcases List.mem_cons.mp hi with hi | hi
      · exact Or.inr (Or.inr hi)
      · rcases List.mem_cons.mp hi with hi | hi
        · exact Or.inr (Or.inl hi)
        · exact Or.inl (List.mem_singleton.mp hi)
  have hinverted := drawInversion_draws o q r.params hchosen (tree_append hback.tree _)
  have hupdated := drawUpdate_draws o q r.params hinverted
  exact (output_drawing o q r.params hupdated).interpret _

/-! ## Ids -/

/-- The ids that come before that of the bit test, of which some may be left out. -/
def idsBefore (m : MixMode) : List String :=
  let measure := m.sensor.name
  Scheme.extractors.map Piece.id ++ [s!"condition-{measure}"]
    ++ (m.mixer?.toList.map fun c => let name := c.name; s!"action-{name}")
    ++ ["action-rotate", "fallback-avg", "gate", "exotype"]

def idsAfter : List String := ["invert-select", "balance", "update-gate", "output"]

theorem ids_sublist (o : CompilerOptions) (q : Pattern) (p : ParameterRecord) :
    ((Scheme.pieces o q p).map Piece.id).Sublist
      (idsBefore p.mixMode ++ (bitPiece o).id :: idsAfter) := by
  have hturn : ((if Turns p then [rotationPiece o p] else []).map Piece.id).Sublist
      ["action-rotate"] := by
    split <;> simp [rotationPiece]
  have hback : ((fallbackPieces q.effectivePreservation).map Piece.id).Sublist
      ["fallback-avg"] := by
    unfold fallbackPieces
    split <;> simp [averagePiece]
  have hinvert : ((inversionPieces o q p).map Piece.id).Sublist
      ["exotype", (bitPiece o).id, "invert-select"] := by
    unfold inversionPieces
    split <;> simp [exotypePiece, inversionPiece]
  have hupdate : ((updatePieces o q p).map Piece.id).Sublist ["balance", "update-gate"] := by
    unfold updatePieces
    split <;> simp [balancePiece, updatePiece]
  have hmixer : p.mixMode.mixer?.toList.map (Piece.id ∘ mixerPiece o p)
      = p.mixMode.mixer?.toList.map fun c => let name := c.name; s!"action-{name}" := rfl
  have hsub := (((hturn.append hback).append (.refl ["gate"])).append hinvert).append hupdate
  simpa [Scheme.pieces, innerPieces, actionPieces, gatePiece, outputPiece, idsBefore, idsAfter,
    conditionPiece, hmixer] using hsub.append (.refl ["output"])

/-- The id of the bit test begins like no other. -/
theorem bitPiece_begins (o : CompilerOptions) :
    "exotype-bit".toList <+: (bitPiece o).id.toList := by
  show _ <+: ("exotype-bit" ++ toString o.secondaryBit.toNat).toList
  rw [String.toList_append]
  exact List.prefix_append ..

/-- **No id is given twice.** -/
theorem ids_nodup (o : CompilerOptions) (q : Pattern) (p : ParameterRecord) :
    ((Scheme.pieces o q p).map Piece.id).Nodup := by
  refine (ids_sublist o q p).nodup
    (List.nodup_middle.mpr (List.nodup_cons.mpr ⟨fun hmem => ?_, ?_⟩))
  · have hother : ∀ id ∈ idsBefore p.mixMode ++ idsAfter, ¬ "exotype-bit".toList <+: id.toList := by
      cases p.mixMode <;> decide
    exact hother _ hmem (bitPiece_begins o)
  · cases p.mixMode <;> decide

end Compilation

open Compilation Scheme

/-- The diagram of a pattern: its nodes, what they stand for, and the tree of the output. -/
theorem compile_drawn (o : CompilerOptions) (q : Pattern) (r : Resolution) :
    ∃ d, compile o q r = .ok d ∧ d.nodes = (pieces o q r.params).map Piece.node
      ∧ d.Spelled (tree (pieces o q r.params)) ∧ d.expression = some (whole o q r.params) := by
  exact (sketch_drawing o q r).finish (ids_nodup o q r.params) rfl (innerPieces_ne_output o q _)

/--
**Every pattern compiles, and its diagram realises the scheme.**

Patterns, parameters and options are arbitrary. The diagram begins with the five extractors, and
unfolded from its output it is the tree of the scheme.
-/
theorem compile_scheme (o : CompilerOptions) (q : Pattern) (r : Resolution) :
    ∃ d, compile o q r = .ok d
      ∧ [⟨"self", .self⟩, ⟨"pred", .pred⟩, ⟨"succ", .succ⟩, ⟨"prev", .prev⟩,
        ⟨"neighbors", .neighbors⟩] <+: d.nodes
      ∧ d.expression = some (whole o q r.params) := by
  obtain ⟨d, hd, hnodes, _, htree⟩ := compile_drawn o q r
  refine ⟨d, hd, ?_, htree⟩
  rw [hnodes, pieces, innerPieces]
  simp only [List.append_assoc, List.map_append]
  exact List.prefix_append ..

end RuleWiring
