import RuleWiring.Parameters.Codec

/-!
# Patterns

A pattern is an argument in four clauses, with an optional code, optional parameters of
its own and an optional preservation tag.
-/

namespace RuleWiring

/-- The four clauses of an argument. -/
inductive Clause where
  | condition
  | fallback
  | action
  | justification
deriving DecidableEq, Repr

namespace Clause

def all : List Clause := [.condition, .fallback, .action, .justification]

def keyword : Clause → String
  | .condition => "IF"
  | .fallback => "HOWEVER"
  | .action => "THEN"
  | .justification => "BECAUSE"

/-- The clause of a keyword, in capitals or not, with blanks around it or not. -/
def ofKeyword? (s : String) : Option Clause :=
  let key := String.ofList ((Text.trimChars s.toList).map Char.toUpper)
  all.find? (·.keyword = key)

end Clause

structure Pattern where
  id : String
  title : Option String := none
  condition : Option String := none
  fallback : Option String := none
  action : Option String := none
  justification : Option String := none
  /-- The pattern's own code, or the one a bridge table gave it. -/
  code : Option Exocode := none
  inline : Option ParameterOverrides := none
  preservation : Option Preservation := none
deriving DecidableEq, Repr

namespace Pattern

/-- The tag in effect: without one, a pattern is partly preserved. -/
def effectivePreservation (p : Pattern) : Preservation := p.preservation.getD .partly

def clause (p : Pattern) : Clause → Option String
  | .condition => p.condition
  | .fallback => p.fallback
  | .action => p.action
  | .justification => p.justification

def withClause (p : Pattern) (c : Clause) (text : String) : Pattern :=
  match c with
  | .condition => { p with condition := some text }
  | .fallback => { p with fallback := some text }
  | .action => { p with action := some text }
  | .justification => { p with justification := some text }

/-! ## Structured values -/

def toJson (p : Pattern) : Json :=
  .object (("id", .text p.id)
    :: Json.optional "title" .text p.title
    ++ Json.optional "condition" .text p.condition
    ++ Json.optional "fallback" .text p.fallback
    ++ Json.optional "action" .text p.action
    ++ Json.optional "justification" .text p.justification
    ++ Json.optional "code" Exocode.toJson p.code
    ++ Json.optional "inline" ParameterOverrides.toJson p.inline
    ++ Json.optional "preservation" Preservation.toJson p.preservation)

/-- The fields met so far; an optional field may be met as `null`. -/
structure Met where
  id : Option String := none
  title : Option (Option String) := none
  condition : Option (Option String) := none
  fallback : Option (Option String) := none
  action : Option (Option String) := none
  justification : Option (Option String) := none
  code : Option (Option Exocode) := none
  inline : Option (Option ParameterOverrides) := none
  preservation : Option (Option Preservation) := none

def Met.pattern (m : Met) : Except Fault Pattern :=
  (Decoder.required m.id).map fun id =>
    { id := id
      title := m.title.join
      condition := m.condition.join
      fallback := m.fallback.join
      action := m.action.join
      justification := m.justification.join
      code := m.code.join
      inline := m.inline.join
      preservation := m.preservation.join }

def fields : List (Decoder.Field Met) :=
  let text := Decoder.optional Decoder.text
  [ Decoder.field "id" false (·.id) (fun m x => { m with id := some x }) Decoder.text,
    Decoder.field "title" true (·.title) (fun m x => { m with title := some x }) text,
    Decoder.field "condition" true (·.condition) (fun m x => { m with condition := some x }) text,
    Decoder.field "fallback" true (·.fallback) (fun m x => { m with fallback := some x }) text,
    Decoder.field "action" true (·.action) (fun m x => { m with action := some x }) text,
    Decoder.field "justification" true (·.justification)
      (fun m x => { m with justification := some x }) text,
    Decoder.field "code" true (·.code) (fun m x => { m with code := some x })
      (Decoder.optional Exocode.decoder),
    Decoder.field "inline" true (·.inline) (fun m x => { m with inline := some x })
      (Decoder.optional ParameterOverrides.decoder),
    Decoder.field "preservation" true (·.preservation)
      (fun m x => { m with preservation := some x }) (Decoder.optional Preservation.decoder)]

def decoder : Decoder Pattern := Decoder.record fields {} Met.pattern

end Pattern

end RuleWiring
