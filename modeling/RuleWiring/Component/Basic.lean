/-!
# Components

A wiring diagram is built from components of twenty-six kinds. A kind has input ports,
each with the type of value it takes, and one output. Context extractors read the cell
and its surroundings and have no inputs; sensors measure; mixers make a new sigil; gates
choose between two sigils; the output terminal ends the diagram.
-/

namespace RuleWiring

/-! ## Types of values -/

/-- What travels along a wire. -/
inductive ValueType where
  | sigil
  | sigils
  | score
  | real
  | int
  | bool
deriving DecidableEq, Repr

namespace ValueType

def all : List ValueType := [.sigil, .sigils, .score, .real, .int, .bool]

def name : ValueType → String
  | .sigil => "sigil"
  | .sigils => "sigils"
  | .score => "score"
  | .real => "real"
  | .int => "int"
  | .bool => "bool"

def ofName? (s : String) : Option ValueType := all.find? (·.name = s)

/-- Whether a value of the first type may enter a port of the second: scores and whole
numbers count as reals, and otherwise the types have to agree. -/
def feeds (source port : ValueType) : Bool :=
  source = port || (port = .real && (source = .score || source = .int))

end ValueType

/-! ## Ports -/

/-- The name of an input port, or of the output. -/
inductive Port where
  | a
  | b
  | sigil
  | sigils
  | amount
  | rate
  | point
  | bit
  | score
  | threshold
  | above
  | below
  | cond
  | thenBranch
  | elseBranch
  | out
deriving DecidableEq, Repr

namespace Port

def all : List Port :=
  [.a, .b, .sigil, .sigils, .amount, .rate, .point, .bit, .score, .threshold, .above, .below,
   .cond, .thenBranch, .elseBranch, .out]

def name : Port → String
  | .a => "a"
  | .b => "b"
  | .sigil => "sigil"
  | .sigils => "sigils"
  | .amount => "amount"
  | .rate => "rate"
  | .point => "point"
  | .bit => "bit"
  | .score => "score"
  | .threshold => "threshold"
  | .above => "above"
  | .below => "below"
  | .cond => "cond"
  | .thenBranch => "then"
  | .elseBranch => "else"
  | .out => "out"

def ofName? (s : String) : Option Port := all.find? (·.name = s)

end Port

/-! ## Kinds of components -/

inductive Family where
  | context
  | sensor
  | mixer
  | gate
  | terminal
deriving DecidableEq, Repr

inductive Component where
  | self
  | pred
  | succ
  | prev
  | neighbors
  | exotype
  | diversity
  | entropy
  | similarity
  | evenness
  | dominance
  | autocorrelation
  | bitXor
  | bitAnd
  | bitOr
  | bitNot
  | shiftLeft
  | shiftRight
  | majority
  | crossover
  | mutate
  | average
  | bitTest
  | thresholdSelect
  | conditionalSelect
  | output
deriving DecidableEq, Repr

namespace Component

/-- All kinds, in the order in which a census lists them. -/
def all : List Component :=
  [.self, .pred, .succ, .prev, .neighbors, .exotype, .diversity, .entropy, .similarity, .evenness,
   .dominance, .autocorrelation, .bitXor, .bitAnd, .bitOr, .bitNot, .shiftLeft, .shiftRight,
   .majority, .crossover, .mutate, .average, .bitTest, .thresholdSelect, .conditionalSelect,
   .output]

def name : Component → String
  | .self => "context-self"
  | .pred => "context-pred"
  | .succ => "context-succ"
  | .prev => "context-prev"
  | .neighbors => "context-neighbors"
  | .exotype => "context-exotype"
  | .diversity => "diversity"
  | .entropy => "entropy"
  | .similarity => "similarity"
  | .evenness => "evenness"
  | .dominance => "dominance"
  | .autocorrelation => "autocorrelation"
  | .bitXor => "bit-xor"
  | .bitAnd => "bit-and"
  | .bitOr => "bit-or"
  | .bitNot => "bit-not"
  | .shiftLeft => "bit-shift-left"
  | .shiftRight => "bit-shift-right"
  | .majority => "majority"
  | .crossover => "crossover"
  | .mutate => "mutate"
  | .average => "sigil-avg"
  | .bitTest => "bit-test"
  | .thresholdSelect => "threshold-select"
  | .conditionalSelect => "conditional-select"
  | .output => "output-sigil"

/-- The kind of a name. The output terminal has a second name. -/
def ofName? (s : String) : Option Component :=
  if s = "output-with-state" then some .output else all.find? (·.name = s)

def family : Component → Family
  | .self | .pred | .succ | .prev | .neighbors | .exotype => .context
  | .diversity | .entropy | .similarity | .evenness | .dominance | .autocorrelation => .sensor
  | .bitXor | .bitAnd | .bitOr | .bitNot | .shiftLeft | .shiftRight | .majority | .crossover
  | .mutate | .average | .bitTest => .mixer
  | .thresholdSelect | .conditionalSelect => .gate
  | .output => .terminal

/-- Context extractors need no input. -/
def isSource (c : Component) : Bool := c.family = .context

/-- The input ports with their types, in declared order. -/
def inputs : Component → List (Port × ValueType)
  | .self | .pred | .succ | .prev | .neighbors | .exotype => []
  | .diversity | .entropy | .dominance | .autocorrelation | .majority => [(.sigils, .sigils)]
  | .similarity | .bitXor | .bitAnd | .bitOr | .average => [(.a, .sigil), (.b, .sigil)]
  | .evenness | .output => [(.sigil, .sigil)]
  | .bitNot => [(.a, .sigil)]
  | .shiftLeft | .shiftRight => [(.sigil, .sigil), (.amount, .int)]
  | .crossover => [(.a, .sigil), (.b, .sigil), (.point, .int)]
  | .mutate => [(.sigil, .sigil), (.rate, .real)]
  | .bitTest => [(.sigil, .sigil), (.bit, .int)]
  | .thresholdSelect => [(.score, .score), (.threshold, .real), (.above, .sigil), (.below, .sigil)]
  | .conditionalSelect => [(.cond, .bool), (.thenBranch, .sigil), (.elseBranch, .sigil)]

/-- The declared ports without their types. -/
def ports (c : Component) : List Port := c.inputs.map Prod.fst

/-- The type of a declared input port. -/
def inputType? (c : Component) (p : Port) : Option ValueType :=
  (c.inputs.find? (·.1 = p)).map Prod.snd

def outputType (c : Component) : ValueType :=
  match c with
  | .neighbors => .sigils
  | .bitTest => .bool
  | _ => if c.family = .sensor then .score else .sigil

/-- What is said about a name that is no kind of component. -/
def unknownMessage (s : String) : String := s!"unknown component kind `{s}`"

end Component

end RuleWiring
