import RuleWiring.Number.Binary64

/-!
# What was found in a text

A `Draft` is a structured value as a text yields it, before anyone asks it to be a record.
It may be incomplete: where the text stops making sense, the draft holds a marker saying
so, and nothing behind that place is kept. A reader that walks a draft from left to right
therefore meets the first problem of the text first, be it a marker or a value of the
wrong kind.

A value nobody asks for is skipped, and skipping is more lenient than reading: a numeral
too large for a double, or a string with half a surrogate pair, hurts only its reader.
-/

namespace RuleWiring

/-- Why a text cannot be read. -/
inductive Fault where
  /-- The text is not well formed. -/
  | malformed
  /-- The text ends too early. -/
  | truncated
  /-- The text is well formed and means something else. -/
  | mismatched
deriving DecidableEq, Repr

def Fault.message : Fault → String
  | .malformed => "malformed text"
  | .truncated => "unexpected end of text"
  | .mismatched => "unexpected value"

/-- The place where a text stops making sense, for who reads a value there, for who skips
it, and for who expects a name. -/
structure Stop where
  reading : Fault
  skipping : Fault
  naming : Fault
  /-- Whether the place is inside the word `null`, which a reader of an optional value
  takes for the word whatever else it expects. -/
  inNull : Bool := false
deriving DecidableEq, Repr

namespace Stop

def malformed : Stop := ⟨.malformed, .malformed, .malformed, false⟩

def truncated : Stop := ⟨.truncated, .truncated, .truncated, false⟩

/-- The end of the text inside a word; no name starts like a word. -/
def truncatedWord : Stop := ⟨.truncated, .truncated, .malformed, false⟩

/-- The end of the text inside the word `null`. -/
def truncatedNull : Stop := { truncatedWord with inNull := true }

/-- The end of the text inside a numeral. -/
def truncatedNumeral : Stop := ⟨.truncated, .malformed, .malformed, false⟩

/-- The end of the text is an early end, anything else is out of place. -/
def before (cs : List Char) : Stop := if cs.isEmpty then truncated else malformed

end Stop

/-- A number as found: whole numbers and reals are told apart. -/
inductive Amount where
  | nat (n : Nat)
  /-- The number `-n`. -/
  | minus (n : Nat)
  | real (x : Binary64)
  | tooLarge
deriving DecidableEq, Repr

/-- The name of a member as found. A place counts the fields of the record read. -/
inductive Key where
  | name (s : String)
  | place (n : Nat)
  /-- Bytes that are no text, and so the name of no field. -/
  | bytes
  | unreadable
  | foreign
  | broken (stop : Stop)
deriving DecidableEq, Repr

/-- A structured value as found. A list or an object is open if it may also be read as
one of some values together with what it holds. -/
inductive Draft where
  | null
  /-- Nothing, but not what an optional value may be in its absence. -/
  | void
  | bool (b : Bool)
  | number (a : Amount)
  /-- A whole number that may also stand for one of some values by its place. -/
  | place (n : Nat)
  | text (s : String)
  /-- Bytes that are no text. -/
  | bytes
  /-- A string that stands for no text. -/
  | unreadable
  /-- A value of a kind that no record of this library uses. -/
  | foreign
  | list (items : List Draft) (closing : Option Stop) (isOpen : Bool)
  | object (members : List (Key × Draft)) (closing : Option Stop) (isOpen : Bool)
  | broken (stop : Stop)
deriving Inhabited

namespace Draft

/-- Why a value is refused by a reader of another kind. -/
def refusal : Draft → Fault
  | .broken stop => stop.reading
  | .unreadable => .malformed
  | .number .tooLarge => .malformed
  | _ => .mismatched

/-- Nothing more may follow, and the value has to be closed. -/
def close (closing : Option Stop) : Except Fault Unit :=
  match closing with
  | none => .ok ()
  | some stop => .error stop.reading

mutual

/-- The problem met when the value is skipped. -/
def skip : Draft → Except Fault Unit
  | .list items closing _ => skipItems items closing
  | .object members closing _ => skipMembers members closing
  | .broken stop => .error stop.skipping
  | _ => .ok ()

def skipItems : List Draft → Option Stop → Except Fault Unit
  | [], none => .ok ()
  | [], some stop => .error stop.skipping
  | v :: rest, closing =>
      match skip v with
      | .ok _ => skipItems rest closing
      | .error e => .error e

def skipMembers : List (Key × Draft) → Option Stop → Except Fault Unit
  | [], none => .ok ()
  | [], some stop => .error stop.skipping
  | (.broken stop, _) :: _, _ => .error stop.skipping
  | (_, v) :: rest, closing =>
      match skip v with
      | .ok _ => skipMembers rest closing
      | .error e => .error e

end

mutual

/-- The problem met when the value is read without regard to its kind, no deeper than a
number of levels. -/
def hold (levels : Nat) : Draft → Except Fault Unit
  | .list items closing _ =>
      if levels = 0 then .error .malformed else holdItems (levels - 1) items closing
  | .object members closing _ =>
      if levels = 0 then .error .malformed else holdMembers (levels - 1) members closing
  | .broken stop => .error stop.reading
  | .unreadable => .error .malformed
  | .number .tooLarge => .error .malformed
  | _ => .ok ()

def holdItems (levels : Nat) : List Draft → Option Stop → Except Fault Unit
  | [], none => .ok ()
  | [], some stop => .error stop.reading
  | v :: rest, closing =>
      match hold levels v with
      | .ok _ => holdItems levels rest closing
      | .error e => .error e

def holdMembers (levels : Nat) : List (Key × Draft) → Option Stop → Except Fault Unit
  | [], none => .ok ()
  | [], some stop => .error stop.reading
  | (.broken stop, _) :: _, _ => .error stop.reading
  | (.unreadable, _) :: _, _ => .error .malformed
  | (_, v) :: rest, closing =>
      match hold levels v with
      | .ok _ => holdMembers levels rest closing
      | .error e => .error e

end

end Draft

end RuleWiring
