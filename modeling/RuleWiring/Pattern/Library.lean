import RuleWiring.Pattern.Basic
import RuleWiring.Text.Lines

/-!
# Pattern libraries

A library is an ordered collection of patterns with distinct ids. Its text is read line by
line, each line trimmed:

* `@flexiarg ID` is the heading of a pattern, and all up to the next heading is its block;
* other lines `@NAME VALUE` set something about the pattern, or nothing if the name is
  unknown;
* `+ KEY: TEXT` opens a clause if the key is one of the four keywords; the lines after it
  continue its text, up to the next line that starts with `@` or `+`.

A pattern enters the library when its block ends, that is, when the next heading or the
end of the text is met.
-/

namespace RuleWiring

/-- Patterns in order, found by id. -/
structure Library where
  patterns : List Pattern := []
deriving Repr

namespace Library

def ids (l : Library) : List String := l.patterns.map (·.id)

def get? (l : Library) (id : String) : Option Pattern := l.patterns.find? (·.id = id)

/-- Replaces the pattern of the same id where it stands, or adds the pattern at the end. -/
def insert (l : Library) (p : Pattern) : Library :=
  if p.id ∈ l.ids then ⟨l.patterns.map fun q => if q.id = p.id then p else q⟩
  else ⟨l.patterns ++ [p]⟩

/-! ## Errors -/

inductive ParseError where
  | orphan (line : Nat) (text : String)
  | missingId (line : Nat)
  | duplicate (line : Nat) (id : String)
  | value (line : Nat) (source : FieldError)
deriving DecidableEq, Repr

def ParseError.message : ParseError → String
  | .orphan line text => s!"line {line}: `{text}` appears before any @flexiarg header"
  | .missingId line => s!"line {line}: @flexiarg needs a pattern id"
  | .duplicate line id => s!"line {line}: duplicate pattern `{id}`"
  | .value line source =>
      let reason := source.message
      s!"line {line}: {reason}"

/-! ## Lines -/

/-- What a trimmed line is. -/
inductive Line where
  | heading (id : String)
  | directive (name value : String)
  | clause (c : Clause) (text : String)
  /-- A line that starts like a clause and has none of the keywords. -/
  | aside
  | text (s : String)

/-- The kind of a trimmed line. -/
def Line.ofText (line : String) : Line :=
  match line.toList with
  | '@' :: rest =>
      let (name, value) := Text.splitWord (String.ofList rest)
      if name = "flexiarg" then .heading value else .directive name value
  | '+' :: rest =>
      match Text.splitAt? ':' (String.ofList rest) with
      | none => .aside
      | some (key, body) =>
          match Clause.ofKeyword? key with
          | some c => .clause c (Text.trim body)
          | none => .aside
  | _ => .text line

/-- What a directive says about a pattern. -/
def applyDirective (p : Pattern) (name value : String) : Except FieldError Pattern :=
  if name = "title" then
    .ok { p with title := some (String.ofList (Text.stripChars (· = '"') value.toList)) }
  else if name = "bits" then (Exocode.parse value).map fun c => { p with code := some c }
  else if name = "preservation" then
    (Preservation.parse value).map fun tag => { p with preservation := some tag }
  else if name = "param" then
    let (key, v) := Text.splitWord value
    ((p.inline.getD {}).set key v).map fun o => { p with inline := some o }
  else .ok p

/-! ## Blocks -/

/-- A clause whose text may go on, with its pieces so far. -/
structure OpenClause where
  clause : Clause
  pieces : List String

/-- The state between two lines: the patterns that are complete, the pattern whose block
is open, and the clause that is open in it. -/
structure Reading where
  library : Library := {}
  current : Option Pattern := none
  opened : Option OpenClause := none

/-- The pieces of a clause's text with blanks between them. -/
def OpenClause.text (o : OpenClause) : String := " ".intercalate o.pieces

/-- Gives an open clause its text, unless there is none. -/
def closeClause (p : Pattern) (o : OpenClause) : Pattern :=
  if o.text = "" then p else p.withClause o.clause o.text

/-- Ends the open clause. -/
def Reading.closed (r : Reading) : Reading :=
  match r.current, r.opened with
  | some p, some o => { r with current := some (closeClause p o), opened := none }
  | _, _ => { r with opened := none }

/-- Puts the pattern whose block has ended into the library; `line` is where that was
noticed. -/
def Reading.finished (r : Reading) (line : Nat) : Except ParseError Library :=
  match r.current with
  | none => .ok r.library
  | some p =>
      if p.id ∈ r.library.ids then .error (.duplicate line p.id)
      else .ok ⟨r.library.patterns ++ [p]⟩

/-- Takes in a trimmed line. -/
def Reading.step (r : Reading) (number : Nat) (line : String) : Except ParseError Reading :=
  match Line.ofText line with
  | .heading id =>
      if id = "" then .error (.missingId number)
      else
        match r.closed.finished number with
        | .error e => .error e
        | .ok library => .ok { library := library, current := some { id := id } }
  | .directive name value =>
      let r := r.closed
      match r.current with
      | none => .error (.orphan number line)
      | some p =>
          match applyDirective p name value with
          | .error e => .error (.value number (e.atLine number))
          | .ok p => .ok { r with current := some p }
  | .clause c text =>
      let r := r.closed
      if r.current.isNone then .error (.orphan number line)
      else .ok { r with opened := some ⟨c, if text = "" then [] else [text]⟩ }
  | .aside => .ok r.closed
  | .text s =>
      match r.opened with
      | none => .ok r
      | some o =>
          if s = "" then .ok r
          else .ok { r with opened := some { o with pieces := o.pieces ++ [s] } }

/-- Takes in lines, the first of which has a given number. -/
def Reading.steps (r : Reading) (number : Nat) : List String → Except ParseError Reading
  | [] => .ok r
  | line :: rest =>
      match r.step number (Text.trim line) with
      | .error e => .error e
      | .ok r => r.steps (number + 1) rest

def parse (text : String) : Except ParseError Library :=
  let lines := Text.lines text
  match Reading.steps {} 1 lines with
  | .error e => .error e
  | .ok r => r.closed.finished lines.length

end Library

end RuleWiring
