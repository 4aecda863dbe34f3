import RuleWiring.Bytes.Cbor
import RuleWiring.Component.Codec
import RuleWiring.Document.Basic
import RuleWiring.Parameters.Codec

/-!
# Stored documents

A document is stored as a structured value, either as an indented text or in the concise
binary form. Reading it back can fail because of the text, or because of the diagram it
describes.
-/

namespace RuleWiring

/-! ## Metadata -/

namespace Metadata

def toJson (m : Metadata) : Json :=
  .object (("id", .text m.id)
    :: Json.optional "title" .text m.title
    ++ Json.optional "bits" Exocode.toJson m.code
    ++ [("provenance", m.provenance.toJson), ("params", m.params.toJson)]
    ++ Json.optional "formula" .text m.formula)

/-- The fields met so far; an optional field may be met as `null`. -/
structure Met where
  id : Option String := none
  title : Option (Option String) := none
  code : Option (Option Exocode) := none
  provenance : Option Provenance := none
  params : Option ParameterRecord := none
  formula : Option (Option String) := none

def Met.metadata (m : Met) : Except Fault Metadata :=
  (Decoder.required m.id).map fun id =>
    { id := id
      title := m.title.join
      code := m.code.join
      provenance := m.provenance.getD .default
      params := m.params.getD .defaults
      formula := m.formula.join }

def fields : List (Decoder.Field Met) := [
  Decoder.field "id" false (·.id) (fun m x => { m with id := some x }) Decoder.text,
  Decoder.field "title" true (·.title) (fun m x => { m with title := some x })
    (Decoder.optional Decoder.text),
  Decoder.field "bits" true (·.code) (fun m x => { m with code := some x })
    (Decoder.optional Exocode.decoder),
  Decoder.field "provenance" true (·.provenance) (fun m x => { m with provenance := some x })
    Provenance.decoder,
  Decoder.field "params" true (·.params) (fun m x => { m with params := some x })
    ParameterRecord.decoder,
  Decoder.field "formula" true (·.formula) (fun m x => { m with formula := some x })
    (Decoder.optional Decoder.text)]

def decoder : Decoder Metadata := Decoder.record fields {} Met.metadata

end Metadata

/-! ## Nodes and edges -/

namespace NodeEntry

def toJson (e : NodeEntry) : Json := .object [("id", .text e.id), ("component", .text e.component)]

structure Met where
  id : Option String := none
  component : Option String := none

def Met.entry (m : Met) : Except Fault NodeEntry :=
  match m.id, m.component with
  | some id, some component => .ok ⟨id, component⟩
  | _, _ => .error .mismatched

def fields : List (Decoder.Field Met) := [
  Decoder.field "id" false (·.id) (fun m x => { m with id := some x }) Decoder.text,
  Decoder.field "component" false (·.component) (fun m x => { m with component := some x })
    Decoder.text]

def decoder : Decoder NodeEntry := Decoder.record fields {} Met.entry

end NodeEntry

namespace EdgeEntry

def toJson (e : EdgeEntry) : Json :=
  .object (Json.optional "from" .text e.source
    ++ Json.optional "from-port" .text e.sourcePort
    ++ Json.optional "literal" Literal.toJson e.literal
    ++ [("to", .text e.target)]
    ++ Json.optional "to-port" .text e.targetPort)

structure Met where
  source : Option (Option String) := none
  sourcePort : Option (Option String) := none
  literal : Option (Option Literal) := none
  target : Option String := none
  targetPort : Option (Option String) := none

def Met.entry (m : Met) : Except Fault EdgeEntry :=
  (Decoder.required m.target).map fun target =>
    { source := m.source.join
      sourcePort := m.sourcePort.join
      literal := m.literal.join
      target := target
      targetPort := m.targetPort.join }

/-- A literal of an edge lies under the document, the diagram, the edges and the edge. -/
def literalDepth : Nat := 5

def fields : List (Decoder.Field Met) := [
  Decoder.field "from" true (·.source) (fun m x => { m with source := some x })
    (Decoder.optional Decoder.text),
  Decoder.field "from-port" true (·.sourcePort) (fun m x => { m with sourcePort := some x })
    (Decoder.optional Decoder.text),
  Decoder.field "literal" true (·.literal) (fun m x => { m with literal := some x })
    (Decoder.optional (Literal.decoderAt literalDepth)),
  Decoder.field "to" false (·.target) (fun m x => { m with target := some x }) Decoder.text,
  Decoder.field "to-port" true (·.targetPort) (fun m x => { m with targetPort := some x })
    (Decoder.optional Decoder.text)]

def decoder : Decoder EdgeEntry := Decoder.record fields {} Met.entry

end EdgeEntry

/-! ## Documents -/

/-- The part of a document that describes the graph. -/
structure GraphSection where
  nodes : List NodeEntry
  edges : List EdgeEntry
  output : String

namespace GraphSection

structure Met where
  nodes : Option (List NodeEntry) := none
  edges : Option (List EdgeEntry) := none
  output : Option String := none

/-- The id of the output where none is given. -/
def defaultOutput : String := "output"

def Met.graph (m : Met) : Except Fault GraphSection :=
  match m.nodes, m.edges with
  | some nodes, some edges => .ok ⟨nodes, edges, m.output.getD defaultOutput⟩
  | _, _ => .error .mismatched

def fields : List (Decoder.Field Met) := [
  Decoder.field "nodes" false (·.nodes) (fun m x => { m with nodes := some x })
    (Decoder.list NodeEntry.decoder),
  Decoder.field "edges" false (·.edges) (fun m x => { m with edges := some x })
    (Decoder.list EdgeEntry.decoder),
  Decoder.field "output" true (·.output) (fun m x => { m with output := some x }) Decoder.text]

def decoder : Decoder GraphSection := Decoder.record fields {} Met.graph

end GraphSection

namespace Document

def toJson (d : Document) : Json :=
  .object [
    ("meta", d.metadata.toJson),
    ("diagram", .object [
      ("nodes", .list (d.nodes.map NodeEntry.toJson)),
      ("edges", .list (d.edges.map EdgeEntry.toJson)),
      ("output", .text d.output)]),
    ("interpretation", .text d.interpretation)]

structure Met where
  metadata : Option Metadata := none
  graph : Option GraphSection := none
  interpretation : Option String := none

def Met.document (m : Met) : Except Fault Document :=
  match m.metadata, m.graph with
  | some metadata, some graph =>
      .ok {
        metadata := metadata
        nodes := graph.nodes
        edges := graph.edges
        output := graph.output
        interpretation := m.interpretation.getD "" }
  | _, _ => .error .mismatched

def fields : List (Decoder.Field Met) := [
  Decoder.field "meta" false (·.metadata) (fun m x => { m with metadata := some x })
    Metadata.decoder,
  Decoder.field "diagram" false (·.graph) (fun m x => { m with graph := some x })
    GraphSection.decoder,
  Decoder.field "interpretation" true (·.interpretation)
    (fun m x => { m with interpretation := some x }) Decoder.text]

def decoder : Decoder Document := Decoder.record fields {} Met.document

end Document

/-! ## Texts and bytes -/

/-- Why a stored diagram cannot be had. -/
inductive DocumentError where
  | text (fault : Fault)
  | binary
  | structural (e : StructuralError)
deriving DecidableEq, Repr

namespace Diagram

/-- The indented text of a diagram. -/
def toText (d : Diagram) : String := d.toDocument.toJson.toPretty

/-- The concise binary form of a diagram. -/
def toCbor (d : Diagram) : List UInt8 := Cbor.encode d.toDocument.toJson

def ofDocument (d : Document) : Except DocumentError Diagram :=
  match d.toDiagram with
  | .ok d => .ok d
  | .error e => .error (.structural e)

def ofText (s : String) : Except DocumentError Diagram :=
  match Document.decoder.run s with
  | .error f => .error (.text f)
  | .ok d => ofDocument d

/-- The document of a concise binary form. -/
def documentOfCbor? (bs : List UInt8) : Option Document :=
  match Cbor.decode? bs with
  | none => none
  | some d => (Document.decoder d).toOption

def ofCbor (bs : List UInt8) : Except DocumentError Diagram :=
  match documentOfCbor? bs with
  | none => .error .binary
  | some d => ofDocument d

end Diagram

end RuleWiring
