import Mathlib
import RuleWiring.Analysis.Synthesis
import RuleWiring.Proofs.Analysis
import RuleWiring.Proofs.Support

/-!
# Formulas can be read

The formula of a circuit is put together from those of its operands, with brackets around every
pair. So it is a text of a small grammar, and since a formula shows where it ends, there is only one
way to read it. What is read is the term at the root, written out, and its value is that of the
root: at every neighbourhood, the bit of the table.

No term is stored twice, so two terms with one formula, and therefore with one tree, are the same.
-/

namespace RuleWiring

/-! ## The grammar -/

inductive Connective where
  | and
  | or
  | xor
deriving DecidableEq, Repr

/-- The way a formula is put together: it is `0`, `1`, `L`, `C`, `R`, `NOT(e)`, `(e AND e)`,
`(e OR e)` or `(e XOR e)`. -/
inductive Formula where
  | const (b : Bool)
  | cell (c : Cell)
  | not (e : Formula)
  | joined (o : Connective) (e f : Formula)
deriving DecidableEq, Repr

def Cell.name : Cell → String
  | .left => "L"
  | .center => "C"
  | .right => "R"

def Connective.word : Connective → String
  | .and => "AND"
  | .or => "OR"
  | .xor => "XOR"

def Cell.value (n : Neighborhood Bool) : Cell → Bool
  | .left => n.left
  | .center => n.center
  | .right => n.right

def Connective.value : Connective → Bool → Bool → Bool
  | .and => Bool.and
  | .or => Bool.or
  | .xor => Bool.xor

namespace Formula

def text : Formula → String
  | .const b => if b then "1" else "0"
  | .cell c => c.name
  | .not e =>
      let inner := e.text
      s!"NOT({inner})"
  | .joined o e f =>
      let first := e.text
      let word := o.word
      let second := f.text
      s!"({first} {word} {second})"

def value (n : Neighborhood Bool) : Formula → Bool
  | .const b => b
  | .cell c => c.value n
  | .not e => !e.value n
  | .joined o e f => o.value (e.value n) (f.value n)

/-! ## A formula shows where it ends -/

theorem toList_const (b : Bool) : (const b).text.toList = [if b then '1' else '0'] := by
  cases b <;> rfl

theorem toList_cell (c : Cell) : (cell c).text.toList
    = [match c with | .left => 'L' | .center => 'C' | .right => 'R'] := by
  cases c <;> rfl

theorem toList_not (e : Formula) :
    (Formula.not e).text.toList = 'N' :: 'O' :: 'T' :: '(' :: (e.text.toList ++ [')']) := by
  simp [text, toString]

theorem toList_joined (o : Connective) (e f : Formula) : (joined o e f).text.toList
    = '(' :: (e.text.toList ++ ' ' :: (o.word.toList ++ ' ' :: (f.text.toList ++ [')']))) := by
  simp [text, toString]

/-- The words begin with different letters. -/
theorem word_append {o o' : Connective} {r s : List Char}
    (h : o.word.toList ++ r = o'.word.toList ++ s) : o = o' ∧ r = s := by
  have hword : ∀ o : Connective, o.word.toList
      = match o with | .and => ['A', 'N', 'D'] | .or => ['O', 'R'] | .xor => ['X', 'O', 'R'] := by
    intro o
    cases o <;> rfl
  rw [hword, hword] at h
  cases o <;> cases o' <;> simp at h <;> exact ⟨rfl, h⟩

/-- **What follows a formula is not read as a part of it.** The induction is on the formula: the
first character says how it was put together, and the operands show where they end. -/
theorem text_append (e : Formula) : ∀ {f : Formula} {r s : List Char},
    e.text.toList ++ r = f.text.toList ++ s → e = f ∧ r = s := by
  induction e with
  | const b =>
      intro f r s h
      cases f with
      | const b' => cases b <;> cases b' <;> simp_all [toList_const]
      | cell c => cases b <;> cases c <;> simp [toList_const, toList_cell] at h
      | not _ => cases b <;> simp [toList_const, toList_not] at h
      | joined _ _ _ => cases b <;> simp [toList_const, toList_joined] at h
  | cell c =>
      intro f r s h
      cases f with
      | const b => cases b <;> cases c <;> simp [toList_const, toList_cell] at h
      | cell c' => cases c <;> cases c' <;> simp_all [toList_cell]
      | not _ => cases c <;> simp [toList_cell, toList_not] at h
      | joined _ _ _ => cases c <;> simp [toList_cell, toList_joined] at h
  | not e ih =>
      intro f r s h
      cases f with
      | const b => cases b <;> simp [toList_const, toList_not] at h
      | cell c => cases c <;> simp [toList_cell, toList_not] at h
      | not f =>
          simp only [toList_not, List.cons_append, List.append_assoc, List.cons.injEq,
            true_and] at h
          obtain ⟨hef, hrest⟩ := ih h
          exact ⟨congrArg _ hef, (List.cons.inj hrest).2⟩
      | joined _ _ _ => simp [toList_not, toList_joined] at h
  | joined o e f ihe ihf =>
      intro g r s h
      cases g with
      | const b => cases b <;> simp [toList_const, toList_joined] at h
      | cell c => cases c <;> simp [toList_cell, toList_joined] at h
      | not _ => simp [toList_not, toList_joined] at h
      | joined o' e' f' =>
          simp only [toList_joined, List.cons_append, List.append_assoc, List.cons.injEq,
            true_and] at h
          obtain ⟨hfirst, hrest⟩ := ihe h
          obtain ⟨hword, hrest⟩ := word_append (List.cons.inj hrest).2
          obtain ⟨hsecond, hrest⟩ := ihf (List.cons.inj hrest).2
          exact ⟨by rw [hfirst, hword, hsecond], (List.cons.inj hrest).2⟩

/-- **A text has at most one reading.** -/
theorem text_injective : Function.Injective text := by
  intro e f h
  refine (text_append e (r := []) (s := []) ?_).1
  rw [h]

end Formula

/-! ## Trees -/

def Cell.index : Cell → Nat
  | .left => 0
  | .center => 1
  | .right => 2

def Connective.tree : Connective → TermTree → TermTree → TermTree
  | .and => .and
  | .or => .or
  | .xor => .xor

def Connective.term : Connective → Nat → Nat → Term
  | .and => .and
  | .or => .or
  | .xor => .xor

/-- A formula as a term, written out. -/
def Formula.tree : Formula → TermTree
  | .const b => .const b
  | .cell c => .var c.index
  | .not e => .not e.tree
  | .joined o e f => o.tree e.tree f.tree

/-- A tree over three variables is that of a formula. -/
theorem TermTree.exists_formula : ∀ {t : TermTree}, t.Within 3 → ∃ e : Formula, e.tree = t
  | .const b, _ => ⟨.const b, rfl⟩
  | .var 0, _ => ⟨.cell .left, rfl⟩
  | .var 1, _ => ⟨.cell .center, rfl⟩
  | .var 2, _ => ⟨.cell .right, rfl⟩
  | .var (k + 3), h => absurd h (by simp [Within])
  | .not t, h => by
      obtain ⟨e, rfl⟩ := exists_formula (t := t) h
      exact ⟨.not e, rfl⟩
  | .and t u, h => by
      obtain ⟨e, rfl⟩ := exists_formula (t := t) h.1
      obtain ⟨f, rfl⟩ := exists_formula (t := u) h.2
      exact ⟨.joined .and e f, rfl⟩
  | .or t u, h => by
      obtain ⟨e, rfl⟩ := exists_formula (t := t) h.1
      obtain ⟨f, rfl⟩ := exists_formula (t := u) h.2
      exact ⟨.joined .or e f, rfl⟩
  | .xor t u, h => by
      obtain ⟨e, rfl⟩ := exists_formula (t := t) h.1
      obtain ⟨f, rfl⟩ := exists_formula (t := u) h.2
      exact ⟨.joined .xor e f, rfl⟩

namespace TermArena

variable {a : TermArena}

/-- A pair has a term with two older operands. -/
theorem unfolds_joined (ha : a.Valid) {i : Nat} {o : Connective} {t u : TermTree}
    (h : a.Unfolds i (o.tree t u)) : ∃ j k, j < i ∧ k < i ∧ a.get? i = some (o.term j k)
      ∧ a.Unfolds j t ∧ a.Unfolds k u := by
  cases o with
  | and =>
      cases h with
      | and h ht hu => exact ⟨_, _, (ha.operands i _ h).1, (ha.operands i _ h).2, h, ht, hu⟩
  | or =>
      cases h with
      | or h ht hu => exact ⟨_, _, (ha.operands i _ h).1, (ha.operands i _ h).2, h, ht, hu⟩
  | xor =>
      cases h with
      | xor h ht hu => exact ⟨_, _, (ha.operands i _ h).1, (ha.operands i _ h).2, h, ht, hu⟩

/-- **The formula of a term is that of its tree**, as operands are older than their terms. -/
theorem formula_of_unfolds (ha : a.Valid) {e : Formula} : ∀ {i fuel : Nat}, a.Unfolds i e.tree →
    i < fuel → a.formula SymbolicCircuit.names fuel i = e.text.toList := by
  induction e with
  | const b =>
      rintro i (_ | fuel) hunfolds hlt
      · cases hlt
      · cases hunfolds with
        | const hi => simp only [formula, hi, Formula.toList_const]
  | cell c =>
      rintro i (_ | fuel) hunfolds hlt
      · cases hlt
      · cases hunfolds with
        | var hi =>
            simp only [formula, hi]
            cases c <;> rfl
  | not e ih =>
      rintro i (_ | fuel) hunfolds hlt
      · cases hlt
      · cases hunfolds with
        | not hi he =>
            have hold := ha.operands i _ hi
            simp only [formula, hi, ih he (Nat.lt_of_lt_of_le hold (Nat.le_of_lt_succ hlt)),
              Formula.toList_not, negated]
            rfl
  | joined o e f ihe ihf =>
      rintro i (_ | fuel) hunfolds hlt
      · cases hlt
      · obtain ⟨j, k, hj, hk, hi, he, hf⟩ := unfolds_joined ha hunfolds
        have hj := ihe he (Nat.lt_of_lt_of_le hj (Nat.le_of_lt_succ hlt))
        have hk := ihf hf (Nat.lt_of_lt_of_le hk (Nat.le_of_lt_succ hlt))
        cases o <;> simp only [formula, hi, Connective.term, hj, hk, Formula.toList_joined, joined]
          <;> simp [Connective.word]

theorem render_of_unfolds (ha : a.Valid) {e : Formula} {i : Nat} (h : a.Unfolds i e.tree) :
    a.render i SymbolicCircuit.names = e.text := by
  rw [render, formula_of_unfolds ha h (Nat.lt_succ_self i), String.ofList_toList]

/-- **The value of a term is that of its tree.** -/
theorem evalWith_of_unfolds (ha : a.Valid) (s : Nat → Bool) {e : Formula} :
    ∀ {i : Nat}, a.Unfolds i e.tree → a.evalWith i s = e.value (Neighborhood.first s) := by
  induction e with
  | const b =>
      intro i h
      cases h with
      | const h => exact evalWith_eq h trivial s
  | cell c =>
      intro i h
      cases h with
      | var h =>
          rw [evalWith_eq h trivial s]
          cases c <;> rfl
  | not e ih =>
      intro i h
      cases h with
      | not h he =>
          rw [evalWith_eq h (ha.operands i _ h) s, Formula.value, ← ih he]
          rfl
  | joined o e f ihe ihf =>
      intro i h
      obtain ⟨j, k, _, _, hi, he, hf⟩ := unfolds_joined ha h
      rw [evalWith_eq hi (ha.operands i _ hi) s, Formula.value, ← ihe he, ← ihf hf]
      cases o <;> rfl

/-- A term over the first three variables is a formula. -/
theorem Over.exists_formula {i : Nat} (h : a.Over 3 i) : ∃ e : Formula, a.Unfolds i e.tree := by
  obtain ⟨t, ht, hwithin⟩ := h
  obtain ⟨e, rfl⟩ := t.exists_formula hwithin
  exact ⟨e, ht⟩

/-- **Terms with one formula are one term.** -/
theorem eq_of_render_eq (ha : a.Canonical) {i j : Nat} (hi : a.Over 3 i) (hj : a.Over 3 j)
    (h : a.render i SymbolicCircuit.names = a.render j SymbolicCircuit.names) : i = j := by
  obtain ⟨e, he⟩ := hi.exists_formula
  obtain ⟨f, hf⟩ := hj.exists_formula
  rw [render_of_unfolds ha.toValid he, render_of_unfolds ha.toValid hf] at h
  exact unfolds_injective ha he (Formula.text_injective h ▸ hf)

end TermArena

/-! ## The formula of a report -/

/-- The right cell joined with the centre, and the left one added to them. -/
def Sketch.thirty : Sketch :=
  { metadata := { id := "thirty" }
    nodes := [⟨"left", .pred⟩, ⟨"center", .self⟩, ⟨"right", .succ⟩, ⟨"either", .bitOr⟩,
      ⟨"sum", .bitXor⟩, ⟨"output", .output⟩]
    wires := [⟨.node 1, 3, some .a⟩, ⟨.node 2, 3, some .b⟩, ⟨.node 0, 4, some .a⟩,
      ⟨.node 3, 4, some .b⟩, ⟨.node 4, 5, some .sigil⟩] }

def Sketch.thirtyDiagram : Diagram := thirty.finish.toOption.get rfl

namespace Analyzer

variable {z : Analyzer} {d : Diagram} {c : Clock} {r : Analysis}

/-- The formula of a report is that of the circuit's root. -/
theorem exists_formula_of_ok (h : (z.analyze d c).1 = .ok r) (hnone : d.metadata.formula = none) :
    ∃ e : Formula, r.formula = some e.text ∧ ∀ n, e.value n = r.table.eval n := by
  obtain ⟨t, elapsed, ht, rfl⟩ := analyze_ok h
  obtain ⟨k, hk, hexact, a, hrun, hext⟩ :=
    SymbolicCircuit.ofDiagram_built (TruthTable.ofDiagram_ok ht)
  obtain ⟨e, he⟩ := (SymbolicCircuit.root_over hrun hext).exists_formula
  refine ⟨e, ?_, fun n => ?_⟩
  · rw [confirm_eq hk]
    simp only [report, hnone, Option.none_or, SymbolicCircuit.formula,
      TermArena.render_of_unfolds hexact.valid he]
  · obtain ⟨s, hs, _⟩ := Neighborhood.exists_spelled n n
    have hvalue := TermArena.evalWith_of_unfolds hexact.valid s he
    rw [hs] at hvalue
    exact hvalue.symm.trans ((hexact.root.2 s).trans (congrArg t.eval hs))

/--
**The formula of a report can be read, in one way, and is that of the rule.**

The diagram is any that has no formula of its own and is analysed with success, in either mode, by
any prover and with any clock. Then the report has a formula, which is a text of the grammar with
exactly one reading, and at every neighbourhood the value of this is the bit of the report's table.
And of any arena that calls have made, two terms over the first three variables have the same
formula only if they are the same term.
-/
theorem analyze_readable :
    (∀ z d c r, (analyze z d c).1 = .ok r → d.metadata.formula = none →
      ∃ text, r.formula = some text ∧ (∃! e : Formula, e.text = text)
        ∧ ∀ e : Formula, e.text = text → ∀ n, e.value n = r.table.eval n)
    ∧ ∀ cs a, MadeBy cs a → ∀ i j, a.Over 3 i → a.Over 3 j →
      (a.render i SymbolicCircuit.names = a.render j SymbolicCircuit.names ↔ i = j) := by
  constructor
  · intro z d c r h hnone
    obtain ⟨e, hformula, hvalue⟩ := exists_formula_of_ok h hnone
    refine ⟨e.text, hformula, ⟨e, rfl, fun f hf => Formula.text_injective hf⟩, fun f hf => ?_⟩
    rwa [Formula.text_injective hf]
  · intro cs a ha i j hi hj
    exact ⟨TermArena.eq_of_render_eq ha.canonical.1 hi hj, fun hij => by rw [hij]⟩

/-- Of two variables the sum and its negation have different formulas. -/
theorem analyze_readable_thirty :
    (∃ r, (analyze ⟨.strict, .null⟩ Sketch.thirtyDiagram .still).1 = .ok r
      ∧ r.formula = some "(L XOR (C OR R))" ∧ (∃! e : Formula, e.text = "(L XOR (C OR R))")
      ∧ ∀ n : Neighborhood Bool, (n.left ^^ (n.center || n.right)) = r.table.eval n)
    ∧ let calls : List Construction := [.not 2, .xor 0 1, .var 1, .var 0]
      let a : TermArena := calls.foldr (fun c a => (c.run a).2) .empty
      MadeBy calls a ∧ a.Over 3 2 ∧ a.Over 3 3
        ∧ a.render 2 SymbolicCircuit.names ≠ a.render 3 SymbolicCircuit.names := by
  constructor
  · have hrun : (analyze ⟨.strict, .null⟩ Sketch.thirtyDiagram .still).1.toOption.map (·.formula)
        = some (some "(L XOR (C OR R))") := by
      decide +kernel
    cases hr : (analyze ⟨.strict, .null⟩ Sketch.thirtyDiagram .still).1 with
    | error e =>
        rw [hr] at hrun
        cases hrun
    | ok r =>
        rw [hr] at hrun
        have hformula : r.formula = some "(L XOR (C OR R))" := Option.some.inj hrun
        obtain ⟨text, htext, hunique, hvalue⟩ := analyze_readable.1 _ _ _ r hr rfl
        cases hformula.symm.trans htext
        exact ⟨r, rfl, hformula, hunique,
          hvalue (.joined .xor (.cell .left) (.joined .or (.cell .center) (.cell .right))) rfl⟩
  · intro calls a
    have hmade : MadeBy calls a := by
      refine .call _ (.call _ (.call _ (.call _ .nothing ?_) ?_) ?_) ?_
      all_goals decide +kernel
    have hvar : ∀ i, i < 2 → a.Over 3 i := by
      intro i hi
      have hget : ∀ i, i < 2 → a.get? i = some (.var i) := by decide +kernel
      exact TermArena.over_of_get? (hget i hi) (Nat.lt_of_lt_of_le hi (by decide))
    have hsum : a.Over 3 2 := TermArena.over_of_get? (t := .xor 0 1) (by decide +kernel)
      ⟨hvar 0 (by decide), hvar 1 (by decide)⟩
    have hnot : a.Over 3 3 := TermArena.over_of_get? (t := .not 2) (by decide +kernel) hsum
    exact ⟨hmade, hsum, hnot, fun h => absurd
      ((analyze_readable.2 calls a hmade 2 3 hsum hnot).mp h) (by decide)⟩

end Analyzer

end RuleWiring
