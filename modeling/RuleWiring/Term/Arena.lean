import RuleWiring.Evaluation.Algebra
import RuleWiring.Number.Layout

/-!
# Terms

A term is a Boolean expression whose operands are other terms of one arena. The arena
holds every term once: making a term that is there already gives the old one back. The
constructors simplify what they are given, so that no operand is a constant, no negation
stands under another, and the operands of a binary term are in ascending order.

An operand is always older than the term it belongs to, so that one sweep from the oldest
term to the newest evaluates them all.

The variables are numbered by bytes, and the counter of the variables is a byte as well. It is one
more than the largest variable asked for, but for variable 255, for which it has no room.
-/

namespace RuleWiring

/-- A term; operands are positions in the arena. -/
inductive Term where
  | const (b : Bool)
  | var (k : Nat)
  | not (a : Nat)
  | and (a b : Nat)
  | or (a b : Nat)
  | xor (a b : Nat)
deriving DecidableEq, Repr

/-- The value of a term, from those of the terms before it and of the variables. -/
def Term.value (vs : Array Bool) (s : Nat → Bool) : Term → Bool
  | .const b => b
  | .var k => s k
  | .not a => !vs.getD a false
  | .and a b => vs.getD a false && vs.getD b false
  | .or a b => vs.getD a false || vs.getD b false
  | .xor a b => vs.getD a false ^^ vs.getD b false

/-- The terms made so far, and a counter of the variables asked for. -/
structure TermArena where
  terms : Array Term := #[]
  counter : UInt8 := 0
deriving DecidableEq, Repr

namespace TermArena

def empty : TermArena := {}

def size (a : TermArena) : Nat := a.terms.size

def get? (a : TermArena) (i : Nat) : Option Term := a.terms[i]?

/-- The bound of the variables asked for. -/
def varCount (a : TermArena) : Nat := a.counter.toNat

/-- The position of a term, if it has been made. -/
def find? (a : TermArena) (t : Term) : Option Nat := a.terms.findIdx? (· = t)

/-! ## Making terms -/

/-- The position of a term, which is added unless it is there. -/
def intern (t : Term) : StateM TermArena Nat := fun a =>
  match a.find? t with
  | some i => (i, a)
  | none => (a.size, { a with terms := a.terms.push t })

/-- The bound covers a variable from now on, unless it is variable 255: one more than that is no
byte, and wraps to zero, which leaves the counter as it is. -/
def covering (k : UInt8) (a : TermArena) : TermArena :=
  { a with counter := max a.counter (k + 1) }

/-- A variable. -/
def var (k : UInt8) : StateM TermArena Nat := fun a => intern (.var k.toNat) (a.covering k)

/-- The variable of a number, which is written as a byte. -/
def mkVar (k : Nat) : StateM TermArena Nat := var (UInt8.ofNat k)

def mkConst (b : Bool) : StateM TermArena Nat := intern (.const b)

/-- The value of a term that is a constant. -/
def const? (a : TermArena) (i : Nat) : Option Bool :=
  match a.get? i with
  | some (.const b) => some b
  | _ => none

def mkNot (i : Nat) : StateM TermArena Nat := fun a =>
  match a.get? i with
  | some (.const b) => intern (.const (!b)) a
  | some (.not j) => (j, a)
  | _ => intern (.not i) a

def mkAnd (i j : Nat) : StateM TermArena Nat := fun a =>
  let ci := a.const? i
  let cj := a.const? j
  if ci = some false ∨ cj = some false then intern (.const false) a
  else if ci = some true then (j, a)
  else if cj = some true then (i, a)
  else if i = j then (i, a)
  else intern (.and (min i j) (max i j)) a

def mkOr (i j : Nat) : StateM TermArena Nat := fun a =>
  let ci := a.const? i
  let cj := a.const? j
  if ci = some true ∨ cj = some true then intern (.const true) a
  else if ci = some false then (j, a)
  else if cj = some false then (i, a)
  else if i = j then (i, a)
  else intern (.or (min i j) (max i j)) a

def mkXor (i j : Nat) : StateM TermArena Nat := fun a =>
  match a.const? i, a.const? j with
  | some x, some y => intern (.const (x ^^ y)) a
  | some false, none => (j, a)
  | none, some false => (i, a)
  | some true, none => mkNot j a
  | none, some true => mkNot i a
  | none, none =>
      if i = j then intern (.const false) a else intern (.xor (min i j) (max i j)) a

/-! ## Evaluation -/

/-- The values of all terms, from the oldest to the newest. -/
def values (a : TermArena) (s : Nat → Bool) : Array Bool :=
  a.terms.foldl (fun vs t => vs.push (t.value vs s)) #[]

/-- The value of a term under any assignment of the variables. -/
def evalWith (a : TermArena) (i : Nat) (s : Nat → Bool) : Bool := (a.values s).getD i false

/-- The value of a term under a list of values; variables beyond its end are false. -/
def eval (a : TermArena) (i : Nat) (s : List Bool) : Bool := a.evalWith i fun k => s.getD k false

/-- The assignment of the first `n` variables that a number spells, the lowest bit first. -/
def assignment (n bits : Nat) : List Bool := (List.range n).map bits.testBit

/-- How many variables at most are enumerated to compare two terms. -/
def maxDecidedVars : Nat := 16

/-- Whether two terms agree under every assignment, unless there are too many variables to
tell. -/
def equivalent? (a : TermArena) (i j : Nat) : Option Bool :=
  if i = j then some true
  else if maxDecidedVars < a.varCount then none
  else
    some ((List.range (Nat.pow 2 a.varCount)).all fun n =>
      let vs := a.values n.testBit
      vs.getD i false == vs.getD j false)

/-- Whether two terms are known to agree. -/
def same (a : TermArena) (i j : Nat) : Bool := i = j || a.equivalent? i j = some true

/-- The algebra of the terms of an arena. -/
def algebra : BoolAlgebra TermArena Nat where
  constant := mkConst
  not := mkNot
  and := mkAnd
  or := mkOr
  xor := mkXor
  same := same

/-! ## Formulas -/

/-- The name of a variable, or its number where there are not enough names. -/
def varName (names : List String) (k : Nat) : List Char :=
  match names[k]? with
  | some s => s.toList
  | none => 'v' :: Nat10.digits k

def negated (a : List Char) : List Char := ['N', 'O', 'T', '('] ++ a ++ [')']

def joined (a word b : List Char) : List Char := '(' :: a ++ ' ' :: word ++ ' ' :: b ++ [')']

/-- The formula of a term whose operands are all met within the fuel. -/
def formula (a : TermArena) (names : List String) : Nat → Nat → List Char
  | 0, _ => []
  | fuel + 1, i =>
      match a.get? i with
      | none => []
      | some (.const b) => [if b then '1' else '0']
      | some (.var k) => varName names k
      | some (.not x) => negated (formula a names fuel x)
      | some (.and x y) => joined (formula a names fuel x) ['A', 'N', 'D'] (formula a names fuel y)
      | some (.or x y) => joined (formula a names fuel x) ['O', 'R'] (formula a names fuel y)
      | some (.xor x y) => joined (formula a names fuel x) ['X', 'O', 'R'] (formula a names fuel y)

/-- A term as a formula over named variables. Operands being older, the fuel suffices. -/
def render (a : TermArena) (i : Nat) (names : List String) : String :=
  String.ofList (a.formula names (i + 1) i)

end TermArena

end RuleWiring
