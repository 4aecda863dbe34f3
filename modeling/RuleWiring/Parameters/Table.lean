import RuleWiring.Parameters.Codec
import RuleWiring.Text.Lines

/-!
# Tables of parameters

Two tables are read from tab-separated texts. A parameter table gives the record of a
code, and a bridge table the code of a pattern's id. Both are read row by row: blank rows,
comments, the heading and rows that cannot be read are passed over, and the first row for
a key wins. A table keeps its entries sorted by key.
-/

namespace RuleWiring

/-! ## Sorted association lists -/

namespace Sorted

variable {α β : Type} [DecidableEq α]

/-- Adds an entry, in place of one with the same key. -/
def insert (before : α → α → Bool) (a : α) (b : β) : List (α × β) → List (α × β)
  | [] => [(a, b)]
  | (k, v) :: rest =>
      if a = k then (a, b) :: rest
      else if before a k then (a, b) :: (k, v) :: rest
      else (k, v) :: insert before a b rest

def get? (a : α) : List (α × β) → Option β
  | [] => none
  | (k, v) :: rest => if a = k then some v else get? a rest

/-- Adds an entry unless there is one with the same key. -/
def insertNew (before : α → α → Bool) (a : α) (b : β) (l : List (α × β)) : List (α × β) :=
  if (get? a l).isSome then l else insert before a b l

end Sorted

/-- Whether a row says nothing: it is blank, a comment, or starts like the heading. -/
def isSilentRow (heading row : String) : Bool :=
  let cs := Text.trimChars row.toList
  cs.isEmpty || cs.head? = some '#' || heading.toList.isPrefixOf cs

/-! ## Records by code -/

/-- The parameter records of some codes. -/
structure ParameterTable where
  entries : List (Exocode × ParameterRecord) := []
deriving DecidableEq, Repr

namespace ParameterTable

def get? (t : ParameterTable) (c : Exocode) : Option ParameterRecord := Sorted.get? c t.entries

/-- Adds a record, in place of the one its code had. -/
def insert (t : ParameterTable) (c : Exocode) (r : ParameterRecord) : ParameterTable :=
  ⟨Sorted.insert Exocode.before c r t.entries⟩

/-- Adds a record unless its code has one. -/
def insertNew (t : ParameterTable) (c : Exocode) (r : ParameterRecord) : ParameterTable :=
  ⟨Sorted.insertNew Exocode.before c r t.entries⟩

/-- The names of the columns behind the code. -/
def columnNames : List String :=
  ["rotation", "match-threshold", "update-probability", "mix-mode", "invert-on-secondary"]

/-- Sets the fields of a row's cells; an empty cell or a dash leaves the default. -/
def setCells (o : ParameterOverrides) : List (String × String) →
    Except FieldError ParameterOverrides
  | [] => .ok o
  | (name, cell) :: rest =>
      if cell = "" ∨ cell = "-" then setCells o rest
      else
        match o.set name cell with
        | .ok o => setCells o rest
        | .error e => .error e

/-- The code and the record of a row, if it has any. -/
def parseRow (line : Nat) (row : String) :
    Except FieldError (Option (Exocode × ParameterRecord)) :=
  if isSilentRow "bits" row then .ok none
  else
    match Text.columns row with
    | [] => .ok none
    | code :: cells =>
        match Exocode.parse code with
        | .error e => .error (e.atLine line)
        | .ok c =>
            match setCells {} (columnNames.zip cells) with
            | .error e => .error (e.atLine line)
            | .ok o => .ok (some (c, o.complete))

/-- Adds what a row says, if it can be read. -/
def addRow (t : ParameterTable) (row : String) : ParameterTable :=
  match parseRow 0 row with
  | .ok (some (c, r)) => t.insertNew c r
  | _ => t

def parse (text : String) : ParameterTable := (Text.lines text).foldl addRow {}

def toJson (t : ParameterTable) : Json :=
  .object [("entries", .object (t.entries.map fun e => (e.1.text, e.2.toJson)))]

/-- The entries, read from an object whose keys are codes. -/
def entriesDecoder : Decoder ParameterTable :=
  Decoder.map (fun s => (Exocode.parse s).toOption) ParameterRecord.decoder {} insert

def decoder : Decoder ParameterTable :=
  Decoder.record
    [Decoder.field "entries" false id (fun _ t => some t) entriesDecoder] none Decoder.required

end ParameterTable

/-! ## Codes by id -/

/-- The codes of some pattern ids. -/
structure BridgeTable where
  codes : List (String × Exocode) := []
deriving DecidableEq, Repr

namespace BridgeTable

def before (a b : String) : Bool := a < b

def get? (t : BridgeTable) (id : String) : Option Exocode := Sorted.get? id t.codes

/-- Adds a code, in place of the one its id had. -/
def insert (t : BridgeTable) (id : String) (c : Exocode) : BridgeTable :=
  ⟨Sorted.insert before id c t.codes⟩

/-- Adds a code unless its id has one. -/
def insertNew (t : BridgeTable) (id : String) (c : Exocode) : BridgeTable :=
  ⟨Sorted.insertNew before id c t.codes⟩

/-- The id and the code of a row: its first and third columns. -/
def parseRow? (row : String) : Option (String × Exocode) :=
  if isSilentRow "pattern_id" row then none
  else
    match Text.columns row with
    | id :: _ :: code :: _ => (Exocode.parse code).toOption.map fun c => (id, c)
    | _ => none

def addRow (t : BridgeTable) (row : String) : BridgeTable :=
  match parseRow? row with
  | some (id, c) => t.insertNew id c
  | none => t

def parse (text : String) : BridgeTable := (Text.lines text).foldl addRow {}

def toJson (t : BridgeTable) : Json :=
  .object [("codes", .object (t.codes.map fun e => (e.1, e.2.toJson)))]

def decoder : Decoder BridgeTable :=
  Decoder.record
    [Decoder.field "codes" false id (fun _ t => some t)
      (Decoder.map some Exocode.decoder {} insert)] none Decoder.required

end BridgeTable

end RuleWiring
