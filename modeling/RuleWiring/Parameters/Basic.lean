import RuleWiring.Number.Numeral
import RuleWiring.Bytes.Encoding
import RuleWiring.Text.Blank

/-!
# Parameters

What steers the compilation of a pattern: a rotation, two reals between zero and one, a
mix mode and a switch. A complete set is a `ParameterRecord`; `ParameterOverrides` is a
partial one, filled in field by field from texts and completed with defaults.

Setting a field checks its text first, so that a refused text changes nothing.
-/

namespace RuleWiring

/-! ## Codes -/

/-- The eight-bit code of a pattern, written as eight binary digits, the highest first. -/
structure Exocode where
  value : UInt8
deriving DecidableEq, Inhabited, Repr

/-- Why a row or a field of a text is refused. Line zero means that no line is known. -/
inductive FieldError where
  | badCode (line : Nat) (value : String)
  | badField (line : Nat) (field value : String)
  | unknownParameter (name : String)
deriving DecidableEq, Repr

namespace FieldError

/-- The same error, found on a line. -/
def atLine (line : Nat) : FieldError → FieldError
  | .badCode _ value => .badCode line value
  | .badField _ field value => .badField line field value
  | .unknownParameter name => .unknownParameter name

def message : FieldError → String
  | .badCode line value => s!"line {line}: invalid 8-bit code `{value}`"
  | .badField line field value => s!"line {line}: invalid value `{value}` for `{field}`"
  | .unknownParameter name => s!"unknown parameter `{name}`"

end FieldError

namespace Exocode

/-- A bit of the code, the lowest being bit zero; positions count modulo eight. -/
def bit (c : Exocode) (i : Nat) : Bool := c.value.toNat.testBit (i % 8)

def text (c : Exocode) : String :=
  String.ofList ([7, 6, 5, 4, 3, 2, 1, 0].map fun i => if c.bit i then '1' else '0')

def ofDigits (cs : List Char) : Exocode :=
  ⟨UInt8.ofNat (cs.foldl (fun n c => 2 * n + if c = '1' then 1 else 0) 0)⟩

def parse (s : String) : Except FieldError Exocode :=
  let s := Text.trim s
  let cs := s.toList
  if cs.length = 8 ∧ cs.all fun c => c = '0' || c = '1' then .ok (ofDigits cs)
  else .error (.badCode 0 s)

def before (a b : Exocode) : Bool := a.value < b.value

end Exocode

/-! ## Mix modes -/

/-- Which mixer carries out the action of a pattern. -/
inductive MixMode where
  | none
  | rotateLeft
  | rotateRight
  | reverse
  | xorNeighbor
  | scramble
  | majority
  | swapHalves
deriving DecidableEq, Repr

namespace MixMode

def all : List MixMode :=
  [.none, .rotateLeft, .rotateRight, .reverse, .xorNeighbor, .scramble, .majority, .swapHalves]

def name : MixMode → String
  | .none => "none"
  | .rotateLeft => "rotate-left"
  | .rotateRight => "rotate-right"
  | .reverse => "reverse"
  | .xorNeighbor => "xor-neighbor"
  | .scramble => "scramble"
  | .majority => "majority"
  | .swapHalves => "swap-halves"

/-- The mode of a name; a name nobody knows stands for no mixing. -/
def ofText (s : String) : MixMode := (all.find? (·.name = Text.keyword s)).getD .none

end MixMode

/-! ## Preservation and provenance -/

/-- How much of its present state a pattern keeps where it does not apply. -/
inductive Preservation where
  | full
  | partly
  | none
deriving DecidableEq, Repr

namespace Preservation

def name : Preservation → String
  | .full => "full"
  | .partly => "partial"
  | .none => "none"

def all : List Preservation := [.full, .partly, .none]

def ofName? (s : String) : Option Preservation := all.find? (·.name = s)

def parse (s : String) : Except FieldError Preservation :=
  let key := Text.keyword s
  match ofName? key with
  | some p => .ok p
  | Option.none => .error (.badField 0 "preservation" key)

end Preservation

/-- Where the parameters of a pattern came from. -/
inductive Provenance where
  | inline
  | table
  | fallbackTable
  | default
deriving DecidableEq, Repr

namespace Provenance

def all : List Provenance := [.inline, .table, .fallbackTable, .default]

def name : Provenance → String
  | .inline => "inline"
  | .table => "table"
  | .fallbackTable => "fallback-table"
  | .default => "default"

end Provenance

/-! ## Records -/

/-- A complete set of parameters; a field that is not given has its default. -/
structure ParameterRecord where
  rotation : UInt32 := 0
  matchThreshold : Binary64 := Binary64.half
  updateProbability : Binary64 := Binary64.one
  mixMode : MixMode := .none
  invertOnSecondary : Bool := false
deriving DecidableEq, Repr

namespace ParameterRecord

/-- The parameters of a pattern about which nothing is said. -/
def defaults : ParameterRecord := {}

/-- A byte form in which different records differ; reals count by their bits. -/
def canonicalBytes (r : ParameterRecord) : List UInt8 :=
  Bytes.littleEndian 4 r.rotation.toNat
    ++ Bytes.littleEndian 8 r.matchThreshold.bits.toNat
    ++ Bytes.littleEndian 8 r.updateProbability.bits.toNat
    ++ Bytes.prefixedText r.mixMode.name
    ++ Bytes.ofBool r.invertOnSecondary

end ParameterRecord

/-- A partial set of parameters. -/
structure ParameterOverrides where
  rotation : Option UInt32 := none
  matchThreshold : Option Binary64 := none
  updateProbability : Option Binary64 := none
  mixMode : Option MixMode := none
  invertOnSecondary : Option Bool := none
deriving DecidableEq, Repr

namespace ParameterOverrides

def isEmpty (o : ParameterOverrides) : Bool :=
  o.rotation.isNone && o.matchThreshold.isNone && o.updateProbability.isNone && o.mixMode.isNone
    && o.invertOnSecondary.isNone

/-- The words for the two truth values. -/
def bool? (s : String) : Option Bool :=
  if s = "true" ∨ s = "yes" ∨ s = "1" then some true
  else if s = "false" ∨ s = "no" ∨ s = "0" then some false
  else none

/-- A real as a text gives it, moved into the unit interval. -/
def unitReal? (s : String) : Option Binary64 := (Numeral.real? s).map Binary64.clampUnit

/-- Sets the field of a name from a text. -/
def set (o : ParameterOverrides) (key value : String) : Except FieldError ParameterOverrides :=
  let value := Text.trim value
  let name := Text.keyword key
  let bad : FieldError := .badField 0 name value
  if name = "rotation" then
    match Numeral.natBelow? UInt32.size value with
    | some n => .ok { o with rotation := some (UInt32.ofNat n) }
    | none => .error bad
  else if name = "match-threshold" then
    match unitReal? value with
    | some x => .ok { o with matchThreshold := some x }
    | none => .error bad
  else if name = "update-probability" then
    match unitReal? value with
    | some x => .ok { o with updateProbability := some x }
    | none => .error bad
  else if name = "mix-mode" then .ok { o with mixMode := some (MixMode.ofText value) }
  else if name = "invert-on-secondary" then
    match bool? value with
    | some b => .ok { o with invertOnSecondary := some b }
    | none => .error bad
  else .error (.unknownParameter name)

/-- Fills the fields that are not set with their defaults. -/
def complete (o : ParameterOverrides) : ParameterRecord :=
  let d := ParameterRecord.defaults
  { rotation := o.rotation.getD d.rotation
    matchThreshold := o.matchThreshold.getD d.matchThreshold
    updateProbability := o.updateProbability.getD d.updateProbability
    mixMode := o.mixMode.getD d.mixMode
    invertOnSecondary := o.invertOnSecondary.getD d.invertOnSecondary }

/-- All fields of a record as set. -/
def ofRecord (r : ParameterRecord) : ParameterOverrides where
  rotation := some r.rotation
  matchThreshold := some r.matchThreshold
  updateProbability := some r.updateProbability
  mixMode := some r.mixMode
  invertOnSecondary := some r.invertOnSecondary

end ParameterOverrides

end RuleWiring
