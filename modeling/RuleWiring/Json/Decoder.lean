import RuleWiring.Json.Reader

/-!
# From a draft to a record

A `Decoder` turns a draft into a value of some type or names the first problem. Records
are read member by member in the order of the text: a member nobody knows is skipped, a
known one may come only once. A record may also be written as the list of its fields.

`Decoder.record` reads members into a partial record `σ`, whose fields are optional, and a
last step turns that into the record, refusing it if a field is missing.
-/

namespace RuleWiring

/-- How a value of a type is read from a draft. -/
abbrev Decoder (α : Type) := Draft → Except Fault α

namespace Decoder

variable {α β σ : Type}

/-! ## Plain values -/

def text : Decoder String
  | .text s => .ok s
  | d => .error d.refusal

def bool : Decoder Bool
  | .bool b => .ok b
  | d => .error d.refusal

/-- A whole number below a bound. -/
def natBelow (bound : Nat) : Decoder Nat
  | .number (.nat n) | .place n => if n < bound then .ok n else .error .mismatched
  | d => .error d.refusal

def word32 : Decoder UInt32 := fun d => (natBelow UInt32.size d).map UInt32.ofNat

def word64 : Decoder Nat := natBelow UInt64.size

def byte : Decoder UInt8 := fun d => (natBelow UInt8.size d).map UInt8.ofNat

/-- A real; a whole number is taken for the double nearest to it. -/
def real : Decoder Binary64
  | .number (.nat n) | .place n => .ok (Binary64.ofNat n)
  | .number (.minus n) => .ok (Binary64.ofNat n).neg
  | .number (.real x) => .ok x
  | d => .error d.refusal

/-- A value or `null`. -/
def optional (decode : Decoder α) : Decoder (Option α)
  | .null => .ok none
  | .broken stop =>
      if stop.inNull then .error stop.reading else (decode (.broken stop)).map some
  | d => (decode d).map some

/-- A value that a further check may refuse. -/
def checked (decode : Decoder α) (check : α → Option β) : Decoder β := fun d =>
  match decode d with
  | .error e => .error e
  | .ok a =>
      match check a with
      | some b => .ok b
      | none => .error .mismatched

/-- A text that a further check may refuse. -/
def parsed (parse : String → Option α) : Decoder α := checked text parse

/-! ## Lists -/

/-- All items of a list. -/
def items (decode : Decoder α) : List Draft → Option Stop → Except Fault (List α)
  | [], closing => (Draft.close closing).map fun _ => []
  | d :: rest, closing =>
      match decode d with
      | .error e => .error e
      | .ok a => (items decode rest closing).map (a :: ·)

def list (decode : Decoder α) : Decoder (List α)
  | .list ds closing _ => items decode ds closing
  | d => .error d.refusal

/-- The first items of a list that must not have more. -/
def firstItems (decode : Decoder α) : Nat → List Draft → Option Stop → Except Fault (List α)
  | 0, [], closing => (Draft.close closing).map fun _ => []
  | 0, _ :: _, _ => .error .malformed
  | _ + 1, [], closing =>
      match Draft.close closing with
      | .error e => .error e
      | .ok _ => .error .mismatched
  | n + 1, d :: rest, closing =>
      match decode d with
      | .error e => .error e
      | .ok a => (firstItems decode n rest closing).map (a :: ·)

/-- A list of a given length. -/
def listOf (decode : Decoder α) (length : Nat) : Decoder (List α)
  | .list ds closing _ => firstItems decode length ds closing
  | d => .error d.refusal

/-! ## Choices -/

/-- Whether a value is nothing at all. -/
def isNothing : Draft → Bool
  | .null | .void => true
  | _ => false

def orMismatched : Option α → Except Fault α
  | some a => .ok a
  | none => .error .mismatched

/-- The one of some values that has a name. -/
def withName (values : List α) (name : α → String) (s : String) : Except Fault α :=
  orMismatched (values.find? fun a => name a = s)

/-- One of some values, by its name or its place. -/
def named (values : List α) (name : α → String) : Decoder α
  | .text s => withName values name s
  | .place n => orMismatched values[n]?
  | d => .error d.refusal

/-- The one of some values that the key of a member stands for. -/
def ofKey (values : List α) (name : α → String) : Key → Except Fault α
  | .name s => withName values name s
  | .place n => orMismatched values[n]?
  | .unreadable => .error .malformed
  | .bytes | .foreign => .error .mismatched
  | .broken stop => .error stop.naming

/-- One of some values that holds nothing: its name or its place, an open object that maps
either to nothing, or an open list of either and nothing. -/
def choice (values : List α) (name : α → String) : Decoder α
  | .text s => withName values name s
  | .place n => orMismatched values[n]?
  | .object [] closing true =>
      match Draft.close closing with
      | .error e => .error e
      | .ok _ => .error .malformed
  | .object ((key, v) :: rest) closing true =>
      match ofKey values name key with
      | .error e => .error e
      | .ok a =>
          if isNothing v then
            match rest, closing with
            | [], none => .ok a
            | [], some stop => .error stop.reading
            | _ :: _, _ => .error .malformed
          else .error v.refusal
  | .list [d, v] none true => if isNothing v then named values name d else .error .mismatched
  | .broken stop => .error stop.naming
  | _ => .error .malformed

/-! ## Records -/

/-- A field of a record: its name, how its value is put into the partial record, and
whether a list of the fields may end before it. -/
structure Field (σ : Type) where
  name : String
  defaulted : Bool
  put : σ → Draft → Except Fault σ

/-- A field held in an optional slot of the partial record. It is refused the second time,
before its value is looked at. -/
def field (name : String) (defaulted : Bool) (get : σ → Option α) (set : σ → α → σ)
    (decode : Decoder α) : Field σ where
  name := name
  defaulted := defaulted
  put s d := if (get s).isSome then .error .mismatched else (decode d).map (set s)

/-- The field a key names, if any. -/
def Field.find? (fields : List (Field σ)) : Key → Except Fault (Option (Field σ))
  | .name s => .ok (fields.find? (·.name = s))
  | .place n => .ok fields[n]?
  | .bytes => .ok none
  | .unreadable => .error .malformed
  | .foreign => .error .mismatched
  | .broken stop => .error stop.reading

/-- Puts the members of an object into a partial record. -/
def members (fields : List (Field σ)) : σ → List (Key × Draft) → Option Stop → Except Fault σ
  | s, [], closing => (Draft.close closing).map fun _ => s
  | s, (key, d) :: rest, closing =>
      match Field.find? fields key with
      | .error e => .error e
      | .ok none =>
          match d.skip with
          | .error e => .error e
          | .ok _ => members fields s rest closing
      | .ok (some f) =>
          match f.put s d with
          | .error e => .error e
          | .ok s => members fields s rest closing

/-- Puts the items of a list into a partial record, one for each field. -/
def places : List (Field σ) → σ → List Draft → Option Stop → Except Fault σ
  | [], s, [], closing => (Draft.close closing).map fun _ => s
  | [], _, _ :: _, _ => .error .malformed
  | f :: fields, s, [], closing =>
      match Draft.close closing with
      | .error e => .error e
      | .ok _ => if f.defaulted then places fields s [] none else .error .mismatched
  | f :: fields, s, d :: rest, closing =>
      match f.put s d with
      | .error e => .error e
      | .ok s => places fields s rest closing

/-- A record from its members or from the list of its fields. -/
def record (fields : List (Field σ)) (start : σ) (finish : σ → Except Fault α) : Decoder α
  | .object ms closing _ =>
      match members fields start ms closing with
      | .error e => .error e
      | .ok s => finish s
  | .list ds closing _ =>
      match places fields start ds closing with
      | .error e => .error e
      | .ok s => finish s
  | d => .error d.refusal

/-- A field that must not be missing. -/
def required : Option α → Except Fault α
  | some a => .ok a
  | none => .error .mismatched

/-! ## Maps -/

/-- The entries of an object whose keys are all read, folded into a collection. -/
def entries (key : String → Option α) (decode : Decoder β) (insert : σ → α → β → σ) :
    σ → List (Key × Draft) → Option Stop → Except Fault σ
  | s, [], closing => (Draft.close closing).map fun _ => s
  | s, (k, d) :: rest, closing =>
      match k with
      | .name name =>
          match key name with
          | none => .error .mismatched
          | some a =>
              match decode d with
              | .error e => .error e
              | .ok b => entries key decode insert (insert s a b) rest closing
      | .place _ | .bytes | .foreign => .error .mismatched
      | .unreadable => .error .malformed
      | .broken stop => .error stop.reading

/-- A collection written as an object. -/
def map (key : String → Option α) (decode : Decoder β) (start : σ) (insert : σ → α → β → σ) :
    Decoder σ
  | .object ms closing _ => entries key decode insert start ms closing
  | d => .error d.refusal

/-! ## Whole texts -/

/-- Reads a whole text: the value first, and then nothing but blanks. -/
def run (decode : Decoder α) (s : String) : Except Fault α :=
  let (d, complete) := Draft.ofText s
  match decode d with
  | .error e => .error e
  | .ok a => if complete then .ok a else .error .malformed

end Decoder

end RuleWiring
