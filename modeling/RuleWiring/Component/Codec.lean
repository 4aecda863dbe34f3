import RuleWiring.Component.Literal
import RuleWiring.Json.Basic
import RuleWiring.Json.Decoder

/-!
# Components as structured values

Ports, types and kinds are written by their names. A literal is an object with the name
of its type and its value, in either order when read.
-/

namespace RuleWiring

def ValueType.toJson (t : ValueType) : Json := .text t.name

def ValueType.decoder : Decoder ValueType := Decoder.choice all name

def Port.toJson (p : Port) : Json := .text p.name

def Port.decoder : Decoder Port := Decoder.choice all name

def Component.toJson (c : Component) : Json := .text c.name

def Component.decoder : Decoder Component := Decoder.parsed ofName?

namespace Literal

def toJson (l : Literal) : Json :=
  let value := match l with
    | .int n => .nat n.toNat
    | .real x => .real x
    | .bool b => .bool b
  .object [("type", .text l.valueType.name), ("value", value)]

/-- The types that have literals, with how their values are read. -/
def valueDecoders : List (ValueType × Decoder Literal) := [
  (.int, fun d => (Decoder.word32 d).map Literal.int),
  (.real, fun d => (Decoder.real d).map Literal.real),
  (.bool, fun d => (Decoder.bool d).map Literal.bool)]

/-- The decoder that the type of a member chooses. -/
def typeDecoder : Decoder (Decoder Literal) := fun d =>
  (Decoder.choice valueDecoders (·.1.name) d).map Prod.snd

/-- The decoder that the type in a list chooses, which is a mere name there. -/
def typeNameDecoder : Decoder (Decoder Literal) := fun d =>
  (Decoder.named valueDecoders (·.1.name) d).map Prod.snd

/-- The two names of interest among the members of a literal. -/
inductive Part where
  | type
  | value
deriving DecidableEq

def Part.ofKey : Key → Except Fault (Option Part)
  | .name s =>
      .ok (if s = "type" then some .type else if s = "value" then some .value else none)
  | .place n => .ok (if n = 0 then some .type else if n = 1 then some .value else none)
  | .bytes => .ok none
  | .unreadable => .error .malformed
  | .foreign => .error .mismatched
  | .broken stop => .error stop.reading

/-- Skips members up to the next one of interest; gives that one and what follows it. -/
def nextPart : List (Key × Draft) → Option Stop →
    Except Fault (Option (Part × Draft × List (Key × Draft)))
  | [], closing => (Draft.close closing).map fun _ => none
  | (key, d) :: rest, closing =>
      match Part.ofKey key with
      | .error e => .error e
      | .ok (some p) => .ok (some (p, d, rest))
      | .ok none =>
          match d.skip with
          | .error e => .error e
          | .ok _ => nextPart rest closing

/-- Neither part may come again. -/
def noMoreParts (l : Literal) (rest : List (Key × Draft)) (closing : Option Stop) :
    Except Fault Literal :=
  match nextPart rest closing with
  | .error e => .error e
  | .ok none => .ok l
  | .ok (some _) => .error .mismatched

/-- A literal at a given depth of the text. A value that comes before its type is first
read without regard to its kind, which may not lead deeper than a hundred and
twenty-seven levels. -/
def decoderAt (depth : Nat) : Decoder Literal
  | .object members closing _ =>
      match nextPart members closing with
      | .error e => .error e
      | .ok none => .error .mismatched
      | .ok (some (.type, d, rest)) =>
          match typeDecoder d with
          | .error e => .error e
          | .ok decode =>
              match nextPart rest closing with
              | .error e => .error e
              | .ok (some (.value, d, rest)) =>
                  match decode d with
                  | .error e => .error e
                  | .ok l => noMoreParts l rest closing
              | .ok _ => .error .mismatched
      | .ok (some (.value, v, rest)) =>
          match v.hold (127 - depth) with
          | .error e => .error e
          | .ok _ =>
              match nextPart rest closing with
              | .error e => .error e
              | .ok (some (.type, d, rest)) =>
                  match typeDecoder d with
                  | .error e => .error e
                  | .ok decode =>
                      match decode v with
                      | .error e => .error e
                      | .ok l => noMoreParts l rest closing
              | .ok _ => .error .mismatched
  | .list [] closing _ =>
      match Draft.close closing with
      | .error e => .error e
      | .ok _ => .error .mismatched
  | .list (d :: rest) closing _ =>
      match typeNameDecoder d with
      | .error e => .error e
      | .ok decode => (Decoder.firstItems decode 1 rest closing).bind fun ls =>
          Decoder.required ls.head?
  | d => .error d.refusal

/-- A literal that is a whole text. -/
def decoder : Decoder Literal := decoderAt 1

end Literal

end RuleWiring
