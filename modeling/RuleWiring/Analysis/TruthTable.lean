import RuleWiring.Evaluation.Basic

/-!
# Truth tables

An elementary rule says, for each of the eight neighbourhoods, what becomes of the cell.
The rule's number has the answer for neighbourhood `n` as its bit `n`, and a truth table is
known by that number. Its entries are listed from neighbourhood seven down to zero.
-/

namespace RuleWiring

/-- An elementary rule, by its number. -/
structure TruthTable where
  rule : UInt8
deriving DecidableEq, Repr

/-- Why some entries are no truth table. -/
inductive TableFlaw where
  | length (found : Nat)
  | entry (value : Nat)
deriving DecidableEq, Repr

def TableFlaw.message : TableFlaw → String
  | .length found => s!"truth table needs 8 entries, found {found}"
  | .entry value => s!"truth table entry {value} is not 0 or 1"

namespace TruthTable

/-- The answer for the neighbourhood of an index. -/
def output (t : TruthTable) (n : Nat) : Bool := t.rule.toNat.testBit n

def eval (t : TruthTable) (n : Neighborhood Bool) : Bool := t.output n.index

/-- The indices in the order of the entries. -/
def indices : List Nat := [7, 6, 5, 4, 3, 2, 1, 0]

def entries (t : TruthTable) : List Bool := indices.map t.output

/-- The rule whose bits are listed from the highest to the lowest. -/
def ofBits (bs : List Bool) : TruthTable :=
  ⟨UInt8.ofNat (bs.foldl (fun n b => 2 * n + b.toNat) 0)⟩

/-- The rule of eight entries, each zero or one. -/
def ofEntries (es : List Nat) : Except TableFlaw TruthTable :=
  if es.length ≠ 8 then .error (.length es.length)
  else
    match es.find? (1 < ·) with
    | some e => .error (.entry e)
    | none => .ok (ofBits (es.map (· = 1)))

/-- How many neighbourhoods give a one. -/
def ones (t : TruthTable) : Nat := t.entries.count true

def text (t : TruthTable) : String :=
  String.ofList (t.entries.map fun b => if b then '1' else '0')

/-- The outputs of a diagram at some neighbourhoods; the first failure decides. -/
def outputs (d : Diagram) (mode : EvalMode) : List Nat → Except EvalError (List Bool)
  | [] => .ok []
  | n :: rest =>
      match evaluateBits d (Neighborhood.ofIndex n) mode with
      | .error e => .error e
      | .ok b => (outputs d mode rest).map (b :: ·)

/-- The rule that a diagram describes. -/
def ofDiagram (d : Diagram) (mode : EvalMode) : Except EvalError TruthTable :=
  (outputs d mode (List.range 8)).map fun bs => ofBits bs.reverse

end TruthTable

end RuleWiring
